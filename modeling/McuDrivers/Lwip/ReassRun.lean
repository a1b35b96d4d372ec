import McuDrivers.Library.Machine
import McuDrivers.Lwip.ReassCall

set_option autoImplicit false

/-! # lwIP: runs of the reassembly

Fragments arrive in any order, of any number of datagrams at once, and the timer runs between them. -/

namespace Lwip

open Span Machine

inductive ReassEvent
  | reass (p : IpPacket) (payload : Eth.Word)
  | tmr

def reassStep (s : Reass) : ReassEvent → Except String (Option IpPacket × Reass)
  | .reass p payload => ip4Reass s p payload
  | .tmr => (ipReassTmr s).map fun s => (none, s)

/-- `ip4_input` hands over nothing else. -/
def ReassEvent.Allowed : ReassEvent → Prop
  | .reass p _ => p.Arrived
  | .tmr => True

/-- What a step of a run does. -/
inductive ReassStep (s : Reass) : ReassEvent → Option IpPacket → Reass → Prop
  | reass {p : IpPacket} {payload : Eth.Word} {r : Option IpPacket} {s' : Reass}
      (hcall : ReassCall s p payload r s') : ReassStep s (.reass p payload) r s'
  | tmr {s' : Reass} (hs' : s'.datagrams = survivors s.datagrams) : ReassStep s .tmr none s'

theorem reassStep_spec {s : Reass} {e : ReassEvent} (hs : s.Inv) (he : e.Allowed) :
    ∃ r s', reassStep s e = .ok (r, s') ∧ s'.Inv ∧ ReassStep s e r s' := by
  cases e with
  | reass p payload =>
    obtain ⟨r, s', hrun, hinv, hcall⟩ := ip4Reass_spec payload hs he
    exact ⟨r, s', hrun, hinv, .reass hcall⟩
  | tmr =>
    obtain ⟨s', hrun, hdatagrams, hinv⟩ := ipReassTmr_spec hs
    refine ⟨none, s', ?_, hinv, .tmr hdatagrams⟩
    rw [reassStep, hrun]
    rfl

/-- Whatever arrives, no assertion fails and no NULL pointer is read. The count of queued pbufs is
    exact and within its limit, there are no two entries for one datagram, and no fragments that meet
    in one. -/
theorem reass_run_safe (events : List ReassEvent) (hevents : ∀ e ∈ events, e.Allowed) :
    ∃ answers s, run reassStep events Reass.init = .ok (answers, s) ∧ s.Inv :=
  run_invariant (fun _ _ hs he =>
    let ⟨r, s', hrun, hinv, _⟩ := reassStep_spec hs he
    ⟨r, s', hrun, hinv⟩) Reass.init_inv hevents

/-- A fragment with a few bytes. -/
def smallFragment (offset : BitVec 16) (bytes : List Eth.Byte) : IpPacket :=
  { hdr :=
      { vHl := 0x45#8, tos := 0#8, len := htonsNat (ipHlen + bytes.length), id := 1#16
        offset := lwipHtons offset, ttl := 64#8, proto := 17#8, chksum := 0#16, src := 1#32, dest := 2#32 }
    body := [bytes] }

/-- The fragments of ten bytes. -/
def firstFragment : IpPacket := smallFragment ipMf [1#8, 2#8, 3#8, 4#8, 5#8, 6#8, 7#8, 8#8]
def secondFragment : IpPacket := smallFragment 1#16 [9#8, 10#8]

theorem firstFragment_arrived : firstFragment.Arrived := ⟨by decide, by decide, by decide⟩

theorem secondFragment_arrived : secondFragment.Arrived := ⟨by decide, by decide, by decide⟩

/-- They come the other way round, with a second between them. -/
def smallRun : List ReassEvent := [.reass secondFragment 0#32, .tmr, .reass firstFragment 0#32]

theorem smallRun_allowed : ∀ e ∈ smallRun, e.Allowed := by
  simp only [smallRun, List.mem_cons, List.not_mem_nil, or_false]
  rintro e (rfl | rfl | rfl)
  · exact secondFragment_arrived
  · trivial
  · exact firstFragment_arrived

theorem reass_run_safe_small : ∃ answers s, run reassStep smallRun Reass.init = .ok (answers, s) ∧ s.Inv :=
  reass_run_safe smallRun smallRun_allowed

/-! ## What is answered -/

section Answers

variable {data : List Eth.Byte} {past : List ReassEvent} {e : ReassEvent} {s s' : Reass}
  {l₁ l₂ : List ReassData} {ipr r : ReassData} {p : IpPacket} {payload : Eth.Word}
  {answer : Option IpPacket} {entry : Option ReassData}

/-- A fragment of the datagram that carries `data`. -/
structure IpPacket.FragmentOf (data : List Eth.Byte) (p : IpPacket) : Prop where
  slice : SliceOf data p.body.data p.hdr.offsetBytes
  isLast : p.hdr.isLast = true ↔ p.hdr.offsetBytes + p.body.data.length = data.length

/-- The header of a datagram is that of a fragment that has come, and of one at its start if one is
    queued. -/
structure HdrFrom (past : List ReassEvent) (ipr : ReassData) : Prop where
  arrived : ∃ p payload, .reass p payload ∈ past ∧ p.hdr.hlBytes = ipHlen ∧ ipr.iphdr = p.hdr
  first : (∃ q ∈ ipr.p, q.start = 0) → ipr.iphdr.offsetBytes = 0

/-- What is queued for the datagram that carries `data`. -/
structure Consistent (data : List Eth.Byte) (past : List ReassEvent) (ipr : ReassData) : Prop where
  slices : ∀ q ∈ ipr.p, SliceOf data q.pbufs.data q.start
  length : ipr.lastSeen → ipr.datagramLen = data.length
  hdr : HdrFrom past ipr

/-- The datagram, put together again: its header is that of its first fragment, with the length of the
    whole. -/
structure Telegram (data : List Eth.Byte) (past : List ReassEvent) (t : IpPacket) : Prop where
  data_eq : t.body.data = data
  lenBytes : t.hdr.lenBytes = t.totLen
  verifies : ~~~internetSum t.hdr.bytes = 0#16
  hdr : ∃ p payload, .reass p payload ∈ past ∧ p.hdr.hlBytes = ipHlen ∧ p.hdr.offsetBytes = 0
    ∧ t.hdr = { p.hdr with len := t.hdr.len, offset := 0#16, chksum := t.hdr.chksum }

theorem Consistent.mono (h : Consistent data past ipr) (e : ReassEvent) :
    Consistent data (past ++ [e]) ipr where
  slices := h.slices
  length := h.length
  hdr := by
    obtain ⟨p, payload, hmem, hhl, hhdr⟩ := h.hdr.arrived
    exact ⟨⟨p, payload, List.mem_append_left _ hmem, hhl, hhdr⟩, h.hdr.first⟩

theorem Telegram.mono {t : IpPacket} (h : Telegram data past t) (e : ReassEvent) :
    Telegram data (past ++ [e]) t where
  data_eq := h.data_eq
  lenBytes := h.lenBytes
  verifies := h.verifies
  hdr := by
    obtain ⟨p, payload, hmem, hrest⟩ := h.hdr
    exact ⟨p, payload, List.mem_append_left _ hmem, hrest⟩

/-- Once a fragment at the start has come, the header is that of one. -/
theorem ReassData.refreshHdr_first (ipr : ReassData) {h : IpHdr} (hfirst : h.offsetBytes = 0) :
    (ipr.refreshHdr h).iphdr.offsetBytes = 0 := by
  unfold ReassData.refreshHdr
  split
  · exact hfirst
  case isFalse hnot =>
    rw [offsetBytes_eq_zero_iff] at hfirst ⊢
    exact not_not.mp fun hne => hnot ⟨hfirst, hne⟩

theorem Consistent.refreshHdr (h : Consistent data past ipr) (payload : Eth.Word)
    (hhl : p.hdr.hlBytes = ipHlen) :
    Consistent data (past ++ [.reass p payload]) (ipr.refreshHdr p.hdr) := by
  unfold ReassData.refreshHdr
  split
  case isTrue hnew =>
    refine ⟨h.slices, h.length, ⟨p, payload, by simp, hhl, rfl⟩, fun _ => ?_⟩
    exact (offsetBytes_eq_zero_iff _).mpr hnew.1
  case isFalse => exact h.mono _

theorem Consistent.new (payload : Eth.Word) (hhl : p.hdr.hlBytes = ipHlen) :
    Consistent data (past ++ [.reass p payload]) (ReassData.new p.hdr) where
  slices := by simp [ReassData.new]
  length := by simp [ReassData.new, ReassData.lastSeen]
  hdr := ⟨⟨p, payload, by simp, hhl, rfl⟩, by simp [ReassData.new]⟩

/-- The datagram that a fragment is located in. -/
theorem Located.consistent (hlocated : Located s p l₁ ipr l₂) (payload : Eth.Word)
    (hhl : p.hdr.hlBytes = ipHlen)
    (hs : ∀ r ∈ s.datagrams, r.iphdr.key = p.hdr.key → Consistent data past r) :
    Consistent data (past ++ [.reass p payload]) ipr
      ∧ (p.hdr.offsetBytes = 0 → ipr.iphdr.offsetBytes = 0) ∧ ipr.iphdr.key = p.hdr.key := by
  cases hlocated with
  | @known _ _ ipr hsub hkey =>
    have hmem := hsub.subset (List.mem_append_right l₁ (List.mem_cons_self (a := ipr) (l := l₂)))
    exact ⟨(hs ipr hmem hkey).refreshHdr payload hhl, ipr.refreshHdr_first,
      (ReassData.refreshHdr_key hkey).trans hkey⟩
  | new hsub hother => exact ⟨Consistent.new payload hhl, id, rfl⟩

theorem Consistent.enqueue {l : List ReassHelper} (h : Consistent data past ipr)
    (hfragment : p.FragmentOf data) (harrived : p.Arrived) (hhl : p.hdr.hlBytes = ipHlen)
    (hfirst : p.hdr.offsetBytes = 0 → ipr.iphdr.offsetBytes = 0) (henqueued : Enqueued ipr p.helper l) :
    Consistent data past (ipr.enqueue p l) where
  slices q hq := by
    rw [ReassData.enqueue_p] at hq
    rcases List.mem_cons.mp (henqueued.perm.mem_iff.mp hq) with rfl | hq
    · exact hfragment.slice
    · exact h.slices q hq
  length hseen := by
    cases hlast : p.hdr.isLast with
    | true =>
      have htrimmed := harrived.trimmed
      have hend := hfragment.isLast.mp hlast
      unfold IpPacket.totLen at htrimmed
      rw [(ReassData.enqueue_last l hlast).2, IpPacket.helper]
      dsimp only
      omega
    | false =>
      rw [ReassData.enqueue_not_last l hlast] at hseen ⊢
      exact h.length hseen
  hdr := by
    obtain ⟨p', payload, hmem, hhl', hhdr⟩ := h.hdr.arrived
    refine ⟨⟨p', payload, hmem, hhl', by rw [ReassData.enqueue_iphdr, hhdr]⟩, ?_⟩
    rintro ⟨q, hq, hstart⟩
    rw [ReassData.enqueue_p] at hq
    rw [ReassData.enqueue_iphdr]
    rcases List.mem_cons.mp (henqueued.perm.mem_iff.mp hq) with rfl | hq
    · exact hfirst hstart
    · exact h.hdr.first ⟨q, hq, hstart⟩

theorem data_flatMap (l : List ReassHelper) :
    Pbuf.data (l.flatMap ReassHelper.pbufs) = l.flatMap fun q => q.pbufs.data := by
  induction l with
  | nil => rfl
  | cons q l ih =>
    simp only [Pbuf.data, List.flatMap_cons, List.flatten_append] at ih ⊢
    rw [ih]

/-- A queue that is joined up to the last fragment holds the data of the datagram. -/
theorem Consistent.contents (h : Consistent data past ipr) (hok : ipr.Ok) (hseen : ipr.lastSeen)
    (hjoined : Adjoined 0 ipr.p) : Pbuf.data (ipr.p.flatMap ReassHelper.pbufs) = data := by
  have hstop : ∀ q ∈ ipr.p, stop q = start q + q.pbufs.data.length :=
    fun q hq => (hok.helpers q hq).length
  have hend : endOf 0 ipr.p = data.length := by
    refine Nat.le_antisymm (endOf_le (Nat.zero_le _) fun q hq => ?_) ?_
    · rw [hstop q hq]
      exact (h.slices q hq).stop_le
    · obtain ⟨_, q, hq, hlast⟩ := hok.last hseen
      rw [h.length hseen] at hlast
      rw [← hlast]
      exact (hjoined.bounds (fun a ha => by rw [hstop a ha]; omega) hq).2
  rw [data_flatMap, hjoined.contents hstop h.slices, hend, Nat.sub_zero, List.drop_zero, List.take_length]

theorem lenBytes_htonsNat (h : IpHdr) {n : Nat} (hlen : h.len = htonsNat n) (hn : n < 65536) :
    h.lenBytes = n := by
  rw [IpHdr.lenBytes, hlen, htonsNat, lwipHtons_lwipHtons, BitVec.toNat_ofNat]
  exact Nat.mod_eq_of_lt hn

theorem Consistent.telegram (h : Consistent data past ipr) (hok : ipr.Ok) (hseen : ipr.lastSeen)
    (hjoined : Adjoined 0 ipr.p) (payload : Eth.Word) : Telegram data past (ipr.telegram payload) := by
  obtain ⟨hlen, q, hq, hstop⟩ := hok.last hseen
  rw [h.length hseen] at hlen hstop
  have hdata := h.contents hok hseen hjoined
  unfold ipHlen at hlen
  refine ⟨hdata, ?_, ?_, ?_⟩
  · have hnat : u16T (ipr.datagramLen + ipHlen) = ipHlen + data.length := by
      rw [h.length hseen, u16T, ipHlen]
      omega
    rw [IpPacket.totLen, show (ipr.telegram payload).body = ipr.p.flatMap ReassHelper.pbufs from rfl,
      hdata, ← hnat]
    exact lenBytes_htonsNat _ rfl (Nat.mod_lt _ (by omega))
  · exact IpHdr.setChksum_nil_verifies _ payload
  · obtain ⟨p, payload', hmem, hhl, hhdr⟩ := h.hdr.arrived
    have hfirst : ∃ q ∈ ipr.p, q.start = 0 := by
      cases hp : ipr.p with
      | nil =>
        rw [hp] at hq
        cases hq
      | cons q' l =>
        rw [hp] at hjoined
        exact ⟨q', List.mem_cons_self .., hjoined.1⟩
    refine ⟨p, payload', hmem, hhl, ?_, ?_⟩
    · rw [← hhdr]
      exact h.hdr.first hfirst
    · rw [← hhdr]
      rfl

/-- How many datagrams of the key have been answered. -/
def answered (key : Eth.Word × Eth.Word × BitVec 16) (answers : List (Option IpPacket)) : Nat :=
  answers.countP fun answer => answer.any fun t => t.hdr.key = key

/-- How many last fragments of the key have come. -/
def lastArrivals (key : Eth.Word × Eth.Word × BitVec 16) (past : List ReassEvent) : Nat :=
  past.countP fun
    | .reass p _ => p.hdr.key = key ∧ p.hdr.isLast = true
    | .tmr => false

/-- The datagrams of the key whose last fragment is queued. -/
def lastOpen (key : Eth.Word × Eth.Word × BitVec 16) (l : List ReassData) : Nat :=
  l.countP fun r => r.iphdr.key = key ∧ r.lastSeen

/-- What holds in a run in which the fragments of the key are those of one datagram. -/
structure SoundInv (data : List Eth.Byte) (key : Eth.Word × Eth.Word × BitVec 16)
    (past : List ReassEvent) (answers : List (Option IpPacket)) (s : Reass) : Prop where
  inv : s.Inv
  consistent : ∀ ipr ∈ s.datagrams, ipr.iphdr.key = key → Consistent data past ipr
  telegrams : ∀ t, some t ∈ answers → t.hdr.key = key → Telegram data past t
  once : answered key answers + lastOpen key s.datagrams ≤ lastArrivals key past

/-! ### Once -/

variable {key : Eth.Word × Eth.Word × BitVec 16} {answers : List (Option IpPacket)}

@[simp] theorem lastOpen_nil : lastOpen key [] = 0 := rfl

theorem lastOpen_append (l m : List ReassData) :
    lastOpen key (l ++ m) = lastOpen key l + lastOpen key m := List.countP_append

theorem lastOpen_singleton (r : ReassData) :
    lastOpen key [r] = if r.iphdr.key = key ∧ r.lastSeen then 1 else 0 := by
  simp [lastOpen, List.countP_cons]

theorem lastOpen_sublist {l m : List ReassData} (h : l.Sublist m) : lastOpen key l ≤ lastOpen key m :=
  h.countP_le

theorem lastOpen_survivors (l : List ReassData) : lastOpen key (survivors l) ≤ lastOpen key l := by
  rw [survivors, lastOpen, List.countP_map]
  exact List.Sublist.countP_le List.filter_sublist

theorem Located.lastOpen_le (hlocated : Located s p l₁ ipr l₂) :
    lastOpen key l₁ + lastOpen key [ipr] + lastOpen key l₂ ≤ lastOpen key s.datagrams := by
  cases hlocated with
  | @known _ _ ipr hsub hkey =>
    have hle := @lastOpen_sublist key _ _ hsub
    rw [← List.singleton_append (l := l₂), lastOpen_append, lastOpen_append] at hle
    have hsame : lastOpen key [ipr.refreshHdr p.hdr] = lastOpen key [ipr] := by
      have hseen : (ipr.refreshHdr p.hdr).lastSeen ↔ ipr.lastSeen := by
        unfold ReassData.refreshHdr
        split
        · exact Iff.rfl
        · exact Iff.rfl
      rw [lastOpen_singleton, lastOpen_singleton, ReassData.refreshHdr_key hkey]
      simp only [hseen]
    omega
  | new hsub hother =>
    have hle := @lastOpen_sublist key _ _ hsub
    have hnew : lastOpen key [ReassData.new p.hdr] = 0 := by
      rw [lastOpen_singleton, if_neg]
      rintro ⟨_, hseen⟩
      exact hseen (by simp [ReassData.new])
    rw [hnew, lastOpen_nil]
    omega

theorem Located.mem (hlocated : Located s p l₁ ipr l₂) (hr : r ∈ l₁ ++ l₂) : r ∈ s.datagrams := by
  rw [List.mem_append] at hr
  cases hlocated with
  | known hsub hkey =>
    refine hsub.subset (List.mem_append.mpr (hr.imp_right fun h => ?_))
    exact List.mem_cons_of_mem _ h
  | new hsub hother => exact hsub.subset (by simpa using hr)

theorem Located.ok (hlocated : Located s p l₁ ipr l₂) (hs : s.Inv) : ipr.Ok := by
  cases hlocated with
  | known hsub hkey =>
    have hmem := hsub.subset (List.mem_append_right _ (List.mem_cons_self ..))
    exact (hs.datagrams.each _ hmem).refreshHdr _
  | new hsub hother => exact ReassData.new_ok _

theorem answered_append_singleton : answered key (answers ++ [answer])
    = answered key answers + answered key [answer] := List.countP_append

/-- An answer, or a datagram whose last fragment is queued, is paid for by the fragment or by what was
    there. -/
theorem ReassOutcome.once (houtcome : ReassOutcome ipr p payload answer entry)
    (hkey : ipr.iphdr.key = p.hdr.key) :
    answered key [answer] + lastOpen key entry.toList
      ≤ lastOpen key [ipr] + lastArrivals key [.reass p payload] := by
  have harrival : lastArrivals key [.reass p payload]
      = if p.hdr.key = key ∧ p.hdr.isLast = true then 1 else 0 := by
    simp [lastArrivals, List.countP_cons]
  have hnone : answered key [none] = 0 := by simp [answered]
  rw [harrival]
  cases houtcome with
  | dropped hdrop =>
    rw [hnone]
    split
    · simp [lastOpen]
    · rw [Option.toList_some]
      omega
  | @queued l henqueued hstop hshort hopen =>
    rw [hnone, Option.toList_some, lastOpen_singleton, lastOpen_singleton, ReassData.enqueue_iphdr, hkey]
    cases hlast : p.hdr.isLast with
    | true =>
      simp only [and_true]
      split
      case isTrue h =>
        rw [if_pos h.1]
        omega
      case isFalse => omega
    | false =>
      rw [ReassData.enqueue_not_last l hlast]
      exact Nat.le_of_eq (by simp; rfl)
  | @finished l henqueued hstop hshort hlast hjoined =>
    have hthe : answered key [some ((ipr.enqueue p l).telegram payload)]
        = if p.hdr.key = key then 1 else 0 := by
      have hkey' : ((ipr.enqueue p l).telegram payload).hdr.key = p.hdr.key := by
        rw [← hkey, ← ReassData.enqueue_iphdr ipr p l]
        rfl
      simp [answered, List.countP_cons, hkey']
    rw [hthe, Option.toList_none, lastOpen_singleton, hkey]
    rw [lastOpen_nil]
    by_cases hk : p.hdr.key = key
    · rcases hlast with hlast | hseen
      · simp [hk, hlast]
      · simp [hk, hseen]
    · simp [hk]

theorem lastArrivals_append_singleton : lastArrivals key (past ++ [e])
    = lastArrivals key past + lastArrivals key [e] := List.countP_append

/-! ### A step, and a run -/

/-- What a fragment of the key is in such a run. -/
def ReassEvent.OfDatagram (data : List Eth.Byte) (key : Eth.Word × Eth.Word × BitVec 16) :
    ReassEvent → Prop
  | .reass p _ => p.hdr.key = key → p.FragmentOf data
  | .tmr => True

/-- What the call leaves of the datagram, and what it answers. -/
theorem ReassOutcome.sound (houtcome : ReassOutcome ipr p payload answer entry)
    (hipr : Consistent data past ipr) (hok : ipr.Ok) (hfragment : p.FragmentOf data)
    (harrived : p.Arrived) (hhl : p.hdr.hlBytes = ipHlen)
    (hfirst : p.hdr.offsetBytes = 0 → ipr.iphdr.offsetBytes = 0) :
    (∀ r ∈ entry, Consistent data past r) ∧ ∀ t ∈ answer, Telegram data past t := by
  cases houtcome with
  | dropped hdrop =>
    refine ⟨fun r hr => ?_, by simp⟩
    split at hr
    · cases hr
    · cases hr
      exact hipr
  | queued henqueued hstop hshort hopen =>
    refine ⟨fun r hr => ?_, by simp⟩
    cases hr
    exact hipr.enqueue hfragment harrived hhl hfirst henqueued
  | @finished l henqueued hstop hshort hlast hjoined =>
    refine ⟨by simp, fun t ht => ?_⟩
    cases ht
    have hwhole := hipr.enqueue hfragment harrived hhl hfirst henqueued
    have hwhole_ok := hok.enqueue (harrived.helper_ok hhl hstop) hshort henqueued
    refine hwhole.telegram hwhole_ok ?_ (by rwa [ReassData.enqueue_p]) payload
    cases hl : p.hdr.isLast with
    | true => exact (ReassData.enqueue_last l hl).1
    | false =>
      rw [ReassData.enqueue_not_last l hl]
      exact hlast.resolve_left (by simp [hl])

theorem ReassOutcome.same_key (houtcome : ReassOutcome ipr p payload answer entry) :
    (∀ r ∈ entry, r.iphdr.key = ipr.iphdr.key) ∧ ∀ t ∈ answer, t.hdr.key = ipr.iphdr.key := by
  cases houtcome with
  | dropped hdrop =>
    refine ⟨fun r hr => ?_, by simp⟩
    split at hr
    · cases hr
    · cases hr
      rfl
  | queued henqueued hstop hshort hopen =>
    refine ⟨fun r hr => ?_, by simp⟩
    cases hr
    rw [ReassData.enqueue_iphdr]
  | @finished l henqueued hstop hshort hlast hjoined =>
    refine ⟨by simp, fun t ht => ?_⟩
    cases ht
    rw [← ReassData.enqueue_iphdr ipr p l]
    rfl

theorem SoundInv.step (h : SoundInv data key past answers s) (he : e.Allowed)
    (hdata : e.OfDatagram data key) :
    ∃ answer s', reassStep s e = .ok (answer, s')
      ∧ SoundInv data key (past ++ [e]) (answers ++ [answer]) s' := by
  obtain ⟨answer, s', hrun, hinv, hstep⟩ := reassStep_spec h.inv he
  refine ⟨answer, s', hrun, ?_⟩
  have hold : ∀ t, some t ∈ answers → t.hdr.key = key → Telegram data (past ++ [e]) t :=
    fun t ht hkey => (h.telegrams t ht hkey).mono e
  have honce := h.once
  have hnone : answered key [none] = 0 := by simp [answered]
  cases hstep with
  | tmr hs' =>
    refine ⟨hinv, ?_, fun t ht => hold t (by simpa using ht), ?_⟩
    · intro ipr hipr hkey
      rw [hs', survivors, List.mem_map] at hipr
      obtain ⟨r, hr, rfl⟩ := hipr
      have hr' := (h.consistent r (List.mem_of_mem_filter hr) hkey).mono .tmr
      exact ⟨hr'.slices, hr'.length, ⟨hr'.hdr.arrived, hr'.hdr.first⟩⟩
    · have hle := @lastOpen_survivors key s.datagrams
      rw [hs', answered_append_singleton, lastArrivals_append_singleton]
      omega
  | @reass p payload _ _ hcall =>
    cases hcall with
    | refused hsub =>
      refine ⟨hinv, ?_, fun t ht => hold t (by simpa using ht), ?_⟩
      · intro ipr hipr hkey
        exact (h.consistent ipr (hsub.subset hipr) hkey).mono _
      · have hle := @lastOpen_sublist key _ _ hsub
        rw [answered_append_singleton, lastArrivals_append_singleton]
        omega
    | @located l₁ l₂ ipr _ entry _ hhl hlocated houtcome hs' =>
      obtain ⟨hentry_key, hanswer_key⟩ := houtcome.same_key
      have hipr_key : ipr.iphdr.key = p.hdr.key := by
        cases hlocated with
        | known hsub hkey => exact (ReassData.refreshHdr_key hkey).trans hkey
        | new hsub hother => rfl
      -- what the fragment does, when it is one of the datagram
      have hsound : p.hdr.key = key →
          (∀ r ∈ entry, Consistent data (past ++ [.reass p payload]) r)
            ∧ ∀ t ∈ answer, Telegram data (past ++ [.reass p payload]) t := by
        intro hkey
        obtain ⟨hipr, hfirst, _⟩ := hlocated.consistent payload hhl
          fun r hr hr_key => h.consistent r hr (hr_key.trans hkey)
        exact houtcome.sound hipr (hlocated.ok h.inv) (hdata hkey) he hhl hfirst
      refine ⟨hinv, ?_, ?_, ?_⟩
      · intro r hr hkey
        rw [hs', List.append_assoc, List.mem_append, List.mem_append] at hr
        rcases hr with hr | hr | hr
        · exact (h.consistent r (hlocated.mem (List.mem_append_left _ hr)) hkey).mono _
        · rw [Option.mem_toList] at hr
          have hp_key : p.hdr.key = key := by rw [← hipr_key, ← hentry_key r hr, hkey]
          exact (hsound hp_key).1 r hr
        · exact (h.consistent r (hlocated.mem (List.mem_append_right _ hr)) hkey).mono _
      · intro t ht hkey
        rcases List.mem_append.mp ht with ht | ht
        · exact hold t ht hkey
        · rw [List.mem_singleton] at ht
          have hp_key : p.hdr.key = key := by rw [← hipr_key, ← hanswer_key t ht.symm, hkey]
          exact (hsound hp_key).2 t ht.symm
      · have hpaid := @ReassOutcome.once _ _ _ _ _ key houtcome hipr_key
        have hle := @Located.lastOpen_le _ _ _ _ _ key hlocated
        rw [answered_append_singleton, lastArrivals_append_singleton, hs', lastOpen_append,
          lastOpen_append]
        omega

/-- Whatever else arrives, and in whatever order: if the fragments with a certain source, destination
    and identification are those of one datagram, then what is answered for them is that datagram,
    under the header of its first fragment, with a right length and checksum. The fragments may be of
    several ways to cut it, and may come more than once; it is answered once at most for each time
    that a last one has come. -/
theorem reass_run_sound (data : List Eth.Byte) (key : Eth.Word × Eth.Word × BitVec 16)
    (events : List ReassEvent) (hevents : ∀ e ∈ events, e.Allowed)
    (hdata : ∀ e ∈ events, e.OfDatagram data key) :
    ∃ answers s, run reassStep events Reass.init = .ok (answers, s)
      ∧ (∀ t, some t ∈ answers → t.hdr.key = key → Telegram data events t)
      ∧ answered key answers ≤ lastArrivals key events := by
  have hinit : SoundInv data key [] [] Reass.init :=
    ⟨Reass.init_inv, by simp [Reass.init], by simp, Nat.le_refl _⟩
  obtain ⟨answers, s, hrun, hsound⟩ := run_history (SoundInv data key)
    (fun e => e.Allowed ∧ e.OfDatagram data key)
    (fun past answers s e h he => h.step he.1 he.2) hinit
    fun e he => ⟨hevents e he, hdata e he⟩
  rw [List.nil_append] at hsound
  exact ⟨answers, s, hrun, hsound.telegrams, Nat.le_of_add_right_le hsound.once⟩

/-- The ten bytes. -/
def smallData : List Eth.Byte := [1#8, 2#8, 3#8, 4#8, 5#8, 6#8, 7#8, 8#8, 9#8, 10#8]

theorem firstFragment_of_data : firstFragment.FragmentOf smallData where
  slice := ⟨[], [9#8, 10#8], by decide, by decide⟩
  isLast := by decide

theorem secondFragment_of_data : secondFragment.FragmentOf smallData where
  slice := ⟨[1#8, 2#8, 3#8, 4#8, 5#8, 6#8, 7#8, 8#8], [], by decide, by decide⟩
  isLast := by decide

theorem reass_run_sound_small : ∃ answers s, run reassStep smallRun Reass.init = .ok (answers, s)
    ∧ (∀ t, some t ∈ answers → t.hdr.key = firstFragment.hdr.key → Telegram smallData smallRun t)
    ∧ answered firstFragment.hdr.key answers ≤ lastArrivals firstFragment.hdr.key smallRun := by
  refine reass_run_sound smallData firstFragment.hdr.key smallRun smallRun_allowed ?_
  simp only [smallRun, List.mem_cons, List.not_mem_nil, or_false]
  rintro e (rfl | rfl | rfl)
  · exact fun _ => secondFragment_of_data
  · trivial
  · exact fun _ => firstFragment_of_data

end Answers

end Lwip
