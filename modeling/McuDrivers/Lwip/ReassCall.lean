import McuDrivers.Lwip.ReassStep

set_option autoImplicit false

/-! # lwIP: what a fragment does to the datagrams

A call of `ip4_reass` frees some datagrams, if there is no room, and then throws the fragment away,
queues it with its datagram, or answers the datagram that it completes. -/

namespace Lwip

open Span

/-- What `ip4_input` hands over: the packet is as long as its header says, and a fragment. -/
structure IpPacket.Arrived (p : IpPacket) : Prop where
  trimmed : p.hdr.lenBytes = p.totLen
  pbufs : p.body ≠ []
  fragment : p.hdr.offset &&& lwipHtons (ipOffmask ||| ipMf) ≠ 0#16

/-- The fragment makes the datagram longer than a packet can be. -/
def IpPacket.TooLong (p : IpPacket) : Prop := p.hdr.isLast = true ∧ 0xffff - ipHlen < p.helper.stop

/-- The datagram with the fragment queued in `l`. -/
def ReassData.enqueue (ipr : ReassData) (p : IpPacket) (l : List ReassHelper) : ReassData :=
  { ipr with p := l }.noteLast p.helper.stop p.hdr.isLast

/-- What becomes of the fragment `p` of the datagram `ipr`: the packet that is answered, and the
    datagram that is left in the list. -/
inductive ReassOutcome (ipr : ReassData) (p : IpPacket) (payload : Eth.Word) :
    Option IpPacket → Option ReassData → Prop
  | dropped (hdrop : p.TooLong ∨ ¬ (p.helper.stop < 65536 ∧ Fits p.helper ipr.p)) :
      ReassOutcome ipr p payload none (if ipr.p = [] then none else some ipr)
  | queued {l : List ReassHelper} (henqueued : Enqueued ipr p.helper l)
      (hstop : p.helper.stop < 65536) (hshort : ¬ p.TooLong)
      (hopen : ¬ ((p.hdr.isLast = true ∨ ipr.lastSeen) ∧ Adjoined 0 l)) :
      ReassOutcome ipr p payload none (some (ipr.enqueue p l))
  | finished {l : List ReassHelper} (henqueued : Enqueued ipr p.helper l)
      (hstop : p.helper.stop < 65536) (hshort : ¬ p.TooLong)
      (hlast : p.hdr.isLast = true ∨ ipr.lastSeen) (hjoined : Adjoined 0 l) :
      ReassOutcome ipr p payload (some ((ipr.enqueue p l).telegram payload)) none

theorem lwipHtons_and (a b : BitVec 16) : lwipHtons (a &&& b) = lwipHtons a &&& lwipHtons b := by
  unfold lwipHtons
  ext i hi
  interval_cases i <;> simp

theorem lwipHtons_lwipHtons (a : BitVec 16) : lwipHtons (lwipHtons a) = a := by
  unfold lwipHtons
  ext i hi
  interval_cases i <;> simp

theorem lwipHtons_and_eq_zero_iff (a b : BitVec 16) :
    lwipHtons a &&& b = 0#16 ↔ a &&& lwipHtons b = 0#16 := by
  constructor
  · intro hzero
    rw [← lwipHtons_lwipHtons (a &&& _), lwipHtons_and, lwipHtons_lwipHtons, hzero]
    rfl
  · intro hzero
    rw [← lwipHtons_lwipHtons (lwipHtons a &&& _), lwipHtons_and, lwipHtons_lwipHtons, hzero]
    rfl

theorem offsetBytes_eq_zero_iff (h : IpHdr) :
    h.offsetBytes = 0 ↔ lwipHtons h.offset &&& ipOffmask = 0#16 := by
  rw [IpHdr.offsetBytes, ← BitVec.toNat_inj, BitVec.toNat_ofNat]
  omega

theorem IpHdr.isLast_iff (h : IpHdr) : h.isLast = true ↔ lwipHtons h.offset &&& ipMf = 0#16 := by
  rw [IpHdr.isLast, decide_eq_true_eq, lwipHtons_and_eq_zero_iff]

/-- What `ip4_input` takes for a whole datagram. -/
theorem IpHdr.not_fragment_iff (h : IpHdr) :
    h.offset &&& lwipHtons (ipOffmask ||| ipMf) = 0#16 ↔ h.offsetBytes = 0 ∧ h.isLast = true := by
  rw [offsetBytes_eq_zero_iff, h.isLast_iff, ← lwipHtons_and_eq_zero_iff, BitVec.and_or_distrib_left,
    BitVec.or_eq_zero_iff]

/-- A fragment at offset 0 is not the last one. -/
theorem IpPacket.Arrived.not_last {p : IpPacket} (hp : p.Arrived) (hstart : p.hdr.offsetBytes = 0) :
    p.hdr.isLast = false := by
  by_contra hlast
  rw [Bool.not_eq_false] at hlast
  exact hp.fragment (p.hdr.not_fragment_iff.mpr ⟨hstart, hlast⟩)

theorem IpPacket.Arrived.helper_ok {p : IpPacket} (hp : p.Arrived) (hhl : p.hdr.hlBytes = ipHlen)
    (hstop : p.helper.stop < 65536) : p.helper.Ok where
  length := by
    have htrimmed := hp.trimmed
    unfold IpPacket.totLen at htrimmed
    simp only [IpPacket.helper, hhl, htrimmed, Nat.add_sub_cancel_left]
  stop_lt := hstop
  pbufs := hp.pbufs

theorem ReassData.clen_enqueue {ipr : ReassData} {p : IpPacket} {l : List ReassHelper}
    (h : Enqueued ipr p.helper l) : (ipr.enqueue p l).clen = ipr.clen + p.body.length := by
  have hsum : (l.map ReassHelper.clen).sum = ((p.helper :: ipr.p).map ReassHelper.clen).sum :=
    (h.perm.map _).sum_eq
  have hp : (ipr.enqueue p l).p = l := by
    unfold ReassData.enqueue ReassData.noteLast
    split <;> rfl
  rw [ReassData.clen, hp, hsum, List.map_cons, List.sum_cons, Nat.add_comm]
  rfl

@[simp] theorem ReassData.enqueue_p (ipr : ReassData) (p : IpPacket) (l : List ReassHelper) :
    (ipr.enqueue p l).p = l := by
  unfold ReassData.enqueue ReassData.noteLast
  split <;> rfl

@[simp] theorem ReassData.enqueue_iphdr (ipr : ReassData) (p : IpPacket) (l : List ReassHelper) :
    (ipr.enqueue p l).iphdr = ipr.iphdr := by
  unfold ReassData.enqueue ReassData.noteLast
  split <;> rfl

@[simp] theorem ReassData.enqueue_timer (ipr : ReassData) (p : IpPacket) (l : List ReassHelper) :
    (ipr.enqueue p l).timer = ipr.timer := by
  unfold ReassData.enqueue ReassData.noteLast
  split <;> rfl

theorem ReassData.enqueue_last {ipr : ReassData} {p : IpPacket} (l : List ReassHelper)
    (h : p.hdr.isLast = true) :
    (ipr.enqueue p l).lastSeen ∧ (ipr.enqueue p l).datagramLen = p.helper.stop := by
  unfold ReassData.enqueue ReassData.noteLast
  rw [if_pos h]
  have hflag : (ipr.flags ||| ipReassFlagLastfrag) &&& ipReassFlagLastfrag = ipReassFlagLastfrag := by
    unfold ipReassFlagLastfrag
    ext i hi
    interval_cases i <;> simp
  refine ⟨?_, rfl⟩
  rw [ReassData.lastSeen, hflag]
  decide

theorem ReassData.enqueue_not_last {ipr : ReassData} {p : IpPacket} (l : List ReassHelper)
    (h : p.hdr.isLast = false) : ipr.enqueue p l = { ipr with p := l } := by
  unfold ReassData.enqueue ReassData.noteLast
  rw [if_neg (by simp [h])]

theorem ReassData.Ok.enqueue {ipr : ReassData} {p : IpPacket} {l : List ReassHelper} (hipr : ipr.Ok)
    (hp : p.helper.Ok) (hshort : ¬ p.TooLong) (h : Enqueued ipr p.helper l) : (ipr.enqueue p l).Ok where
  ordered := by
    rw [ReassData.enqueue_p]
    exact h.ordered
  helpers q hq := by
    rw [ReassData.enqueue_p] at hq
    rcases List.mem_cons.mp (h.perm.mem_iff.mp hq) with rfl | hq
    · exact hp
    · exact hipr.helpers q hq
  timer := by
    rw [ReassData.enqueue_timer]
    exact hipr.timer
  last := by
    intro hseen
    rw [ReassData.enqueue_p]
    cases hlast : p.hdr.isLast with
    | true =>
      obtain ⟨_, hlen⟩ := @ReassData.enqueue_last ipr _ l hlast
      have hle : ¬ 0xffff - ipHlen < p.helper.stop := fun hlt => hshort ⟨hlast, hlt⟩
      unfold ipHlen at *
      rw [hlen]
      exact ⟨by omega, p.helper, h.perm.mem_iff.mpr (List.mem_cons_self ..), rfl⟩
    | false =>
      rw [ReassData.enqueue_not_last l hlast] at hseen ⊢
      obtain ⟨hlen, q, hq, hstop⟩ := hipr.last hseen
      exact ⟨hlen, q, h.perm.mem_iff.mpr (List.mem_cons_of_mem _ hq), hstop⟩

theorem ReassData.Ok.not_fresh {ipr : ReassData} (h : ipr.Ok) (hseen : ipr.lastSeen) : ipr.p ≠ [] := by
  obtain ⟨_, q, hq, _⟩ := h.last hseen
  exact List.ne_nil_of_mem hq

/-- The state in which the datagram `ipr` of the fragment has been found, between `l₁` and `l₂`, or
    made; there is room for the pbufs of the fragment. -/
structure Found (s : Reass) (l₁ l₂ : List ReassData) (ipr : ReassData) (clen : Nat) : Prop where
  split : s.datagrams = l₁ ++ ipr :: l₂
  datagrams : DatagramsOk s.datagrams
  count : s.pbufcount = clenSum s.datagrams
  room : s.pbufcount + clen ≤ ipReassMaxPbufs
  entries : s.datagrams.length ≤ mempNumReassdata
  nonempty : ∀ r ∈ l₁ ++ l₂, r.p ≠ []
  fresh : ipr.p = [] → l₁ = []

/-- Without its datagram, or with it changed, the list is as it was. -/
theorem Found.inv {s s' : Reass} {l₁ l₂ : List ReassData} {ipr : ReassData} {clen : Nat}
    (h : Found s l₁ l₂ ipr clen) (entry : Option ReassData)
    (hs' : s'.datagrams = l₁ ++ entry.toList ++ l₂) (hcount : s'.pbufcount = clenSum s'.datagrams)
    (hpbufs : s'.pbufcount ≤ ipReassMaxPbufs)
    (hentry : ∀ r ∈ entry, r.Ok ∧ r.p ≠ [] ∧ r.iphdr.key = ipr.iphdr.key) : s'.Inv := by
  have hok := h.datagrams
  have hentries := h.entries
  rw [h.split] at hok hentries
  rw [List.length_append, List.length_cons] at hentries
  cases entry with
  | none =>
    simp only [Option.toList_none, List.append_nil] at hs'
    have hsub : (l₁ ++ l₂).Sublist (l₁ ++ ipr :: l₂) :=
      List.sublist_append_iff.mpr ⟨_, _, rfl, List.Sublist.refl _, List.sublist_cons_self _ _⟩
    refine ⟨?_, hcount, hpbufs, ?_, ?_⟩
    · rw [hs']
      exact hok.sublist hsub
    · rw [hs', List.length_append]
      omega
    · rw [hs']
      exact h.nonempty
  | some r =>
    obtain ⟨hr, hne, hkey⟩ := hentry r rfl
    simp only [Option.toList_some, List.append_assoc, List.cons_append, List.nil_append] at hs'
    refine ⟨?_, hcount, hpbufs, ?_, ?_⟩
    · rw [hs']
      exact hok.replace hr hkey
    · rw [hs', List.length_append, List.length_cons]
      omega
    · intro r' hr'
      rw [hs'] at hr'
      have hothers := h.nonempty r'
      simp only [List.mem_append, List.mem_cons] at hr' hothers
      rcases hr' with h' | rfl | h'
      · exact hothers (.inl h')
      · exact hne
      · exact hothers (.inr h')

/-- The fragment is thrown away, and its datagram with it when it has been made for it. -/
theorem nullreturnIpr_spec {s : Reass} {l₁ l₂ : List ReassData} {ipr : ReassData} {clen : Nat}
    (h : Found s l₁ l₂ ipr clen) :
    ∃ s', nullreturnIpr s l₁.length ipr = .ok (none, s')
      ∧ s'.datagrams = l₁ ++ (if ipr.p = [] then none else some ipr).toList ++ l₂ ∧ s'.Inv := by
  have hroom := h.room
  have hcount := h.count
  unfold nullreturnIpr
  by_cases hnew : ipr.p = []
  · obtain rfl := h.fresh hnew
    have hsplit := h.split
    rw [List.nil_append] at hsplit
    have hclen : ipr.clen = 0 := by simp [ReassData.clen, hnew]
    rw [if_pos hnew, if_pos hnew, lwipAssert, List.length_nil, if_pos rfl]
    refine ⟨{ s with datagrams := s.datagrams.eraseIdx 0 }, rfl, by simp [hsplit], ?_⟩
    refine h.inv none (by simp [hsplit]) ?_ ?_ (by simp)
    · rw [hsplit, clenSum_cons, hclen, Nat.zero_add] at hcount
      simpa [hsplit] using hcount
    · dsimp only
      omega
  · rw [if_neg hnew, if_neg hnew]
    refine ⟨s, rfl, by simpa using h.split, ?_⟩
    refine h.inv (some ipr) (by simpa using h.split) hcount (by omega) ?_
    rintro r ⟨⟩
    exact ⟨h.datagrams.each ipr (by simp [h.split]), hnew, rfl⟩

theorem ip4ReassInto_spec {s : Reass} {l₁ l₂ : List ReassData} {ipr : ReassData} {p : IpPacket}
    (payload : Eth.Word) (h : Found s l₁ l₂ ipr p.body.length) (hp : p.Arrived)
    (hhl : p.hdr.hlBytes = ipHlen) :
    ∃ r entry s', ip4ReassInto s p l₁.length ipr payload = .ok (r, s')
      ∧ ReassOutcome ipr p payload r entry ∧ s'.datagrams = l₁ ++ entry.toList ++ l₂ ∧ s'.Inv := by
  have hipr : ipr.Ok := h.datagrams.each ipr (by simp [h.split])
  have hle : p.hdr.hlBytes ≤ p.hdr.lenBytes := by
    rw [hp.trimmed, hhl]
    exact Nat.le_add_right _ _
  have hmore : p.hdr.isLast = true ∨ ipr.lastSeen → p.hdr.offsetBytes = 0 → ipr.p ≠ [] := by
    rintro (hlast | hseen) hstart
    · rw [hp.not_last hstart] at hlast
      cases hlast
    · exact hipr.not_fresh hseen
  have hoffset := p.hdr.offsetBytes_lt
  have hlen_lt : p.hdr.lenBytes < 65536 := (lwipHtons p.hdr.len).isLt
  have hstop : p.helper.stop = p.hdr.offsetBytes + (p.hdr.lenBytes - p.hdr.hlBytes) := rfl
  have hroom := h.room
  have hcount := h.count
  rw [h.split, clenSum_append, clenSum_cons] at hcount
  unfold ipReassMaxPbufs at hroom
  -- the two ways to be thrown away
  have hthrown : ∀ hdrop : p.TooLong ∨ ¬ (p.helper.stop < 65536 ∧ Fits p.helper ipr.p),
      ∃ r entry s', nullreturnIpr s l₁.length ipr = .ok (r, s')
        ∧ ReassOutcome ipr p payload r entry ∧ s'.datagrams = l₁ ++ entry.toList ++ l₂ ∧ s'.Inv := by
    intro hdrop
    obtain ⟨s', hrun, hdatagrams, hinv⟩ := nullreturnIpr_spec h
    exact ⟨none, _, s', hrun, .dropped hdrop, hdatagrams, hinv⟩
  simp only [ip4ReassInto, ← hstop]
  by_cases hlong : p.hdr.isLast = true
      ∧ (u16T p.helper.stop < p.hdr.offsetBytes ∨ 0xffff - ipHlen < u16T p.helper.stop)
  · rw [if_pos hlong]
    refine hthrown ?_
    by_cases hfar : p.helper.stop < 65536
    · rw [u16T, Nat.mod_eq_of_lt (by omega)] at hlong
      exact .inl ⟨hlong.1, by omega⟩
    · exact .inr fun hfits => hfar hfits.1
  · rw [if_neg hlong]
    rcases ipReassChainFrag_spec hipr.ordered hle hmore with
      ⟨hnot, hrun⟩ | ⟨l, henqueued, hfar, hrun⟩
    · rw [hrun]
      exact hthrown (.inr hnot)
    · have hu16 : u16T p.helper.stop = p.helper.stop := Nat.mod_eq_of_lt (by omega)
      rw [hu16] at hlong ⊢
      have hshort : ¬ p.TooLong := fun hlt => hlong ⟨hlt.1, .inr hlt.2⟩
      have hok := hipr.enqueue (hp.helper_ok hhl hfar) hshort henqueued
      have hclen := ReassData.clen_enqueue henqueued
      have hne : l ≠ [] := List.ne_nil_of_mem (henqueued.perm.mem_iff.mpr (List.mem_cons_self ..))
      have hpbufcount : u16T (s.pbufcount + p.body.length) = s.pbufcount + p.body.length :=
        Nat.mod_eq_of_lt (by omega)
      rw [hrun, hpbufcount]
      simp only [bind, Except.bind]
      by_cases hdone : (p.hdr.isLast = true ∨ ipr.lastSeen) ∧ Adjoined 0 l
      · rw [if_pos hdone]
        have hlength : ((ipr.enqueue p l).telegram payload).body.length
            = ipr.clen + p.body.length := by
          rw [← hclen]
          simp [ReassData.telegram, ReassData.clen, List.length_flatMap]
          rfl
        have hassert : ((ipr.enqueue p l).telegram payload).body.length
            ≤ s.pbufcount + p.body.length := by omega
        have hfold : ReassData.noteLast { ipr with p := l } p.helper.stop p.hdr.isLast
            = ipr.enqueue p l := rfl
        dsimp only
        rw [hfold, lwipAssert, if_pos hassert, hlength]
        refine ⟨_, none,
          { s with
            datagrams := s.datagrams.eraseIdx l₁.length
            pbufcount := u16T (s.pbufcount + p.body.length - (ipr.clen + p.body.length)) },
          rfl, .finished henqueued hfar hshort hdone.1 hdone.2, ?_, ?_⟩
        · simp [h.split, List.eraseIdx_append_of_length_le]
        · refine h.inv none (by simp [h.split, List.eraseIdx_append_of_length_le]) ?_ ?_
            (by simp)
          · simp only [h.split, List.eraseIdx_append_of_length_le (Nat.le_refl _), Nat.sub_self,
              List.eraseIdx_cons_zero, clenSum_append, u16T]
            omega
          · unfold ipReassMaxPbufs u16T
            dsimp only
            omega
      · rw [if_neg hdone]
        refine ⟨none, some (ipr.enqueue p l),
          { s with
            datagrams := s.datagrams.set l₁.length (ipr.enqueue p l)
            pbufcount := s.pbufcount + p.body.length }, rfl, .queued henqueued hfar hshort hdone, ?_, ?_⟩
        · simp [h.split]
        · refine h.inv (some (ipr.enqueue p l)) (by simp [h.split]) ?_ ?_ ?_
          · simp only [h.split, List.set_append_right, Nat.le_refl, Nat.sub_self, List.set_cons_zero,
              clenSum_append, clenSum_cons, hclen]
            omega
          · unfold ipReassMaxPbufs
            dsimp only
            omega
          · rintro r ⟨⟩
            exact ⟨hok, by simpa using hne, by simp⟩

/-! ## A whole call -/

theorem ReassData.refreshHdr_key {ipr : ReassData} {h : IpHdr} (hkey : ipr.iphdr.key = h.key) :
    (ipr.refreshHdr h).iphdr.key = ipr.iphdr.key := by
  unfold ReassData.refreshHdr
  split
  · exact hkey.symm
  · rfl

@[simp] theorem ReassData.refreshHdr_p (ipr : ReassData) (h : IpHdr) : (ipr.refreshHdr h).p = ipr.p := by
  unfold ReassData.refreshHdr
  split <;> rfl

theorem ReassData.Ok.refreshHdr {ipr : ReassData} (hipr : ipr.Ok) (h : IpHdr) :
    (ipr.refreshHdr h).Ok := by
  unfold ReassData.refreshHdr
  split
  · exact ⟨hipr.ordered, hipr.helpers, hipr.timer, hipr.last⟩
  · exact hipr

theorem ReassData.new_ok (h : IpHdr) : (ReassData.new h).Ok where
  ordered := List.Pairwise.nil
  helpers := by simp [ReassData.new]
  timer := Nat.le_refl _
  last := by simp [ReassData.new, ReassData.lastSeen]

theorem ReassData.clen_refreshHdr (ipr : ReassData) (h : IpHdr) : (ipr.refreshHdr h).clen = ipr.clen := by
  rw [ReassData.clen, ReassData.refreshHdr_p]
  rfl

/-- The search finds the datagram that the fragment belongs to. -/
theorem findIdx_known {l₁ l₂ : List ReassData} {ipr : ReassData} {h : IpHdr}
    (hl : DatagramsOk (l₁ ++ ipr :: l₂)) (hkey : ipr.iphdr.key = h.key) :
    (l₁ ++ ipr :: l₂).findIdx (fun r => addressesAndIdMatch r.iphdr h) = l₁.length := by
  have hkeys := hl.keys
  rw [List.pairwise_append] at hkeys
  have hbefore : ∀ r ∈ l₁, decide (addressesAndIdMatch r.iphdr h) = false := by
    intro r hr
    refine decide_eq_false fun hmatch => hkeys.2.2 r hr ipr (List.mem_cons_self ..) ?_
    rw [hkey]
    exact (addressesAndIdMatch_iff _ _).mp hmatch
  have hhere : decide (addressesAndIdMatch ipr.iphdr h) = true :=
    decide_eq_true ((addressesAndIdMatch_iff _ _).mpr hkey)
  rw [List.findIdx_append, List.findIdx_eq_length_of_false hbefore, if_neg (Nat.lt_irrefl _),
    List.findIdx_cons, hhere, cond_true, Nat.zero_add]

/-- The fragment belongs to a datagram of the list. -/
theorem ip4ReassQueue_known {s : Reass} {l₁ l₂ : List ReassData} {ipr : ReassData} {p : IpPacket}
    (payload : Eth.Word) (hs : s.Inv) (hp : p.Arrived) (hhl : p.hdr.hlBytes = ipHlen)
    (hroom : s.pbufcount + p.body.length ≤ ipReassMaxPbufs) (hsplit : s.datagrams = l₁ ++ ipr :: l₂)
    (hkey : ipr.iphdr.key = p.hdr.key) :
    ∃ r entry s', ip4ReassQueue s p payload = .ok (r, s')
      ∧ ReassOutcome (ipr.refreshHdr p.hdr) p payload r entry
      ∧ s'.datagrams = l₁ ++ entry.toList ++ l₂ ∧ s'.Inv := by
  have hok := hs.datagrams
  have hcount := hs.count
  have hentries := hs.entries
  rw [hsplit] at hok hcount hentries
  have hidx := findIdx_known hok hkey
  have hset : s.datagrams.set l₁.length (ipr.refreshHdr p.hdr) = l₁ ++ ipr.refreshHdr p.hdr :: l₂ := by
    simp [hsplit]
  have hfound : Found { s with datagrams := s.datagrams.set l₁.length (ipr.refreshHdr p.hdr) }
      l₁ l₂ (ipr.refreshHdr p.hdr) p.body.length := by
    refine ⟨hset, ?_, ?_, hroom, ?_, ?_, ?_⟩
    · rw [hset]
      exact hok.replace ((hok.each ipr (by simp)).refreshHdr p.hdr) (ReassData.refreshHdr_key hkey)
    · rw [hset, hcount, clenSum_append, clenSum_append, clenSum_cons, clenSum_cons,
        ReassData.clen_refreshHdr]
    · rw [hset]
      simpa using hentries
    · intro r hr
      refine hs.nonempty r ?_
      rw [hsplit]
      simp only [List.mem_append, List.mem_cons] at hr ⊢
      exact hr.imp_right .inr
    · intro hnew
      rw [ReassData.refreshHdr_p] at hnew
      exact absurd hnew (hs.nonempty ipr (by simp [hsplit]))
  have hrun := ip4ReassInto_spec payload hfound hp hhl
  simp only [ip4ReassQueue]
  rw [show s.datagrams.findIdx (fun r => addressesAndIdMatch r.iphdr p.hdr) = l₁.length by
    rw [hsplit]; exact hidx]
  rw [show s.datagrams[l₁.length]? = some ipr by simp [hsplit]]
  exact hrun

/-- A datagram is made for the fragment, at the front of `l`. -/
theorem ip4ReassInto_new {s : Reass} {p : IpPacket} (payload : Eth.Word) (hs : s.Inv) (hp : p.Arrived)
    (hhl : p.hdr.hlBytes = ipHlen) (hroom : s.pbufcount + p.body.length ≤ ipReassMaxPbufs)
    (hentries : s.datagrams.length < mempNumReassdata)
    (hother : ∀ r ∈ s.datagrams, r.iphdr.key ≠ p.hdr.key) :
    ∃ r entry s', ip4ReassInto (s.push p.hdr) p 0 (ReassData.new p.hdr) payload = .ok (r, s')
      ∧ ReassOutcome (ReassData.new p.hdr) p payload r entry
      ∧ s'.datagrams = entry.toList ++ s.datagrams ∧ s'.Inv := by
  have hfound : Found (s.push p.hdr) [] s.datagrams (ReassData.new p.hdr) p.body.length := by
    refine ⟨rfl, ⟨?_, ?_⟩, ?_, hroom, hentries, hs.nonempty, fun _ => rfl⟩
    · intro r hr
      rcases List.mem_cons.mp hr with rfl | hr
      · exact ReassData.new_ok _
      · exact hs.datagrams.each r hr
    · exact List.pairwise_cons.mpr ⟨fun r hr => (hother r hr).symm, hs.datagrams.keys⟩
    · rw [Reass.push, clenSum_cons, ← hs.count]
      simp [ReassData.new, ReassData.clen]
  exact ip4ReassInto_spec payload hfound hp hhl

/-- No datagram of the list is that of the fragment, but there is an entry for it. -/
theorem ip4ReassQueue_new {s : Reass} {p : IpPacket} (payload : Eth.Word) (hs : s.Inv) (hp : p.Arrived)
    (hhl : p.hdr.hlBytes = ipHlen) (hroom : s.pbufcount + p.body.length ≤ ipReassMaxPbufs)
    (hentries : s.datagrams.length < mempNumReassdata)
    (hother : ∀ r ∈ s.datagrams, r.iphdr.key ≠ p.hdr.key) :
    ∃ r entry s', ip4ReassQueue s p payload = .ok (r, s')
      ∧ ReassOutcome (ReassData.new p.hdr) p payload r entry
      ∧ s'.datagrams = entry.toList ++ s.datagrams ∧ s'.Inv := by
  have hidx : s.datagrams.findIdx (fun r => addressesAndIdMatch r.iphdr p.hdr) = s.datagrams.length := by
    refine List.findIdx_eq_length_of_false fun r hr => decide_eq_false fun hmatch => ?_
    exact hother r hr ((addressesAndIdMatch_iff _ _).mp hmatch)
  have hrun := ip4ReassInto_new payload hs hp hhl hroom hentries hother
  simp only [ip4ReassQueue, hidx, List.getElem?_length, ipReassEnqueueNewDatagram, if_pos hentries, bind,
    Except.bind]
  exact hrun

/-- Where the fragment goes: to a datagram that it belongs to, between others that are kept, or to a
    new one before the others that are kept. -/
inductive Located (s : Reass) (p : IpPacket) : List ReassData → ReassData → List ReassData → Prop
  | known {l₁ l₂ : List ReassData} {ipr : ReassData} (hsub : (l₁ ++ ipr :: l₂).Sublist s.datagrams)
      (hkey : ipr.iphdr.key = p.hdr.key) : Located s p l₁ (ipr.refreshHdr p.hdr) l₂
  | new {l₂ : List ReassData} (hsub : l₂.Sublist s.datagrams)
      (hother : ∀ r ∈ s.datagrams, r.iphdr.key ≠ p.hdr.key) : Located s p [] (ReassData.new p.hdr) l₂

/-- What a call does: it refuses the fragment, when there is no room for it, or the fragment goes to
    its datagram. -/
inductive ReassCall (s : Reass) (p : IpPacket) (payload : Eth.Word) : Option IpPacket → Reass → Prop
  | refused {s' : Reass} (hsub : s'.datagrams.Sublist s.datagrams) : ReassCall s p payload none s'
  | located {l₁ l₂ : List ReassData} {ipr : ReassData} {r : Option IpPacket} {entry : Option ReassData}
      {s' : Reass} (hhl : p.hdr.hlBytes = ipHlen) (hlocated : Located s p l₁ ipr l₂)
      (houtcome : ReassOutcome ipr p payload r entry)
      (hs' : s'.datagrams = l₁ ++ entry.toList ++ l₂) : ReassCall s p payload r s'

theorem exists_split_of_mem_key {l : List ReassData} {h : IpHdr} (hmem : ∃ r ∈ l, r.iphdr.key = h.key) :
    ∃ l₁ ipr l₂, l = l₁ ++ ipr :: l₂ ∧ ipr.iphdr.key = h.key := by
  obtain ⟨r, hr, hkey⟩ := hmem
  obtain ⟨l₁, l₂, rfl⟩ := List.append_of_mem hr
  exact ⟨l₁, r, l₂, rfl, hkey⟩

theorem ip4ReassQueue_spec {s : Reass} {p : IpPacket} (payload : Eth.Word) (hs : s.Inv) (hp : p.Arrived)
    (hhl : p.hdr.hlBytes = ipHlen) (hroom : s.pbufcount + p.body.length ≤ ipReassMaxPbufs) :
    ∃ r s', ip4ReassQueue s p payload = .ok (r, s') ∧ s'.Inv ∧ ReassCall s p payload r s' := by
  by_cases hmem : ∃ r ∈ s.datagrams, r.iphdr.key = p.hdr.key
  · obtain ⟨l₁, ipr, l₂, hsplit, hkey⟩ := exists_split_of_mem_key hmem
    obtain ⟨r, entry, s', hrun, houtcome, hs', hinv⟩ :=
      ip4ReassQueue_known payload hs hp hhl hroom hsplit hkey
    refine ⟨r, s', hrun, hinv, .located hhl (.known ?_ hkey) houtcome hs'⟩
    rw [hsplit]
  · have hother : ∀ r ∈ s.datagrams, r.iphdr.key ≠ p.hdr.key := fun r hr hkey => hmem ⟨r, hr, hkey⟩
    by_cases hentries : s.datagrams.length < mempNumReassdata
    · obtain ⟨r, entry, s', hrun, houtcome, hs', hinv⟩ :=
        ip4ReassQueue_new payload hs hp hhl hroom hentries hother
      exact ⟨r, s', hrun, hinv, .located hhl (.new (List.Sublist.refl _) hother) houtcome hs'⟩
    · have hidx : s.datagrams.findIdx (fun r => addressesAndIdMatch r.iphdr p.hdr)
          = s.datagrams.length := by
        refine List.findIdx_eq_length_of_false fun r hr => decide_eq_false fun hmatch => ?_
        exact hother r hr ((addressesAndIdMatch_iff _ _).mp hmatch)
      obtain ⟨freed, s₁, hremove, hfreed, _, hcount⟩ :=
        ipReassRemoveOldestDatagram_spec p.hdr p.body.length hs
      simp only [ip4ReassQueue, hidx, List.getElem?_length, ipReassEnqueueNewDatagram,
        if_neg hentries, hremove, bind, Except.bind]
      by_cases henough : p.body.length ≤ freed ∧ s₁.datagrams.length < mempNumReassdata
      · obtain ⟨r, entry, s', hrun, houtcome, hs', hinv⟩ :=
          ip4ReassInto_new payload hfreed.inv hp hhl (by omega) henough.2
            fun r hr => hother r (hfreed.sublist.subset hr)
        rw [if_pos henough]
        exact ⟨r, s', hrun, hinv, .located hhl (.new hfreed.sublist hother) houtcome hs'⟩
      · rw [if_neg henough]
        exact ⟨none, s₁, rfl, hfreed.inv, .refused hfreed.sublist⟩

/-- A call after others have been freed is one from the start: the datagram of the fragment is not among
    those. -/
theorem ReassCall.of_freed {s s₁ s' : Reass} {p : IpPacket} {payload : Eth.Word} {r : Option IpPacket}
    (hcall : ReassCall s₁ p payload r s') (hfreed : Freed s s₁)
    (hkept : ∀ r ∈ s.datagrams, r.iphdr.key = p.hdr.key → r ∈ s₁.datagrams) :
    ReassCall s p payload r s' := by
  cases hcall with
  | refused hsub => exact .refused (hsub.trans hfreed.sublist)
  | located hhl hlocated houtcome hs' =>
    cases hlocated with
    | known hsub hkey => exact .located hhl (.known (hsub.trans hfreed.sublist) hkey) houtcome hs'
    | new hsub hother =>
      refine .located hhl (.new (hsub.trans hfreed.sublist) fun r hr hkey => ?_) houtcome hs'
      exact hother r (hkept r hr hkey) hkey

/-- Every call returns, keeps the invariant, and does one of the things above. -/
theorem ip4Reass_spec {s : Reass} {p : IpPacket} (payload : Eth.Word) (hs : s.Inv) (hp : p.Arrived) :
    ∃ r s', ip4Reass s p payload = .ok (r, s') ∧ s'.Inv ∧ ReassCall s p payload r s' := by
  unfold ip4Reass
  by_cases hhl : p.hdr.hlBytes = ipHlen
  · have hle : ¬ p.hdr.lenBytes < p.hdr.hlBytes := by
      rw [hp.trimmed, hhl, IpPacket.totLen]
      omega
    rw [if_neg (by simpa using hhl), if_neg hle]
    by_cases hover : ipReassMaxPbufs < s.pbufcount + p.body.length
    · obtain ⟨freed, s₁, hremove, hfreed, hkept, _⟩ :=
        ipReassRemoveOldestDatagram_spec p.hdr p.body.length hs
      simp only [if_pos hover, hremove, bind, Except.bind]
      by_cases hfull : freed = 0 ∨ ipReassMaxPbufs < s₁.pbufcount + p.body.length
      · rw [if_pos hfull]
        exact ⟨none, s₁, rfl, hfreed.inv, .refused hfreed.sublist⟩
      · rw [if_neg hfull]
        obtain ⟨r, s', hrun, hinv, hcall⟩ :=
          ip4ReassQueue_spec payload hfreed.inv hp hhl (Nat.not_lt.mp fun h => hfull (.inr h))
        exact ⟨r, s', hrun, hinv, hcall.of_freed hfreed hkept⟩
    · rw [if_neg hover]
      exact ip4ReassQueue_spec payload hs hp hhl (Nat.not_lt.mp hover)
  · rw [if_pos hhl]
    exact ⟨none, s, rfl, hs, .refused (List.Sublist.refl _)⟩

end Lwip
