import McuDrivers.Lwip.ReassRun
import Mathlib.Algebra.Order.BigOperators.Group.List

set_option autoImplicit false

/-! # lwIP: the reassembly answers when it can

The fragments of a datagram that has been cut at certain places come in any order, some more than once,
while the timer runs. Nothing is answered before the last place is taken; then the datagram is. -/

namespace Lwip

open Span Machine

/-- The places at which a datagram with the given data is cut. -/
structure Cut (data : List Eth.Byte) (places : List (Nat × Nat)) : Prop where
  joined : Adjoined 0 places
  nonempty : ∀ x ∈ places, start x < stop x
  whole : endOf 0 places = data.length
  short : data.length + ipHlen ≤ 0xffff

/-- A fragment that arrives in `m` pbufs at most. -/
structure IpPacket.PieceOf (data : List Eth.Byte) (places : List (Nat × Nat))
    (key : Eth.Word × Eth.Word × BitVec 16) (m : Nat) (p : IpPacket) : Prop where
  arrived : p.Arrived
  hlBytes : p.hdr.hlBytes = ipHlen
  key_eq : p.hdr.key = key
  fragment : p.FragmentOf data
  place_mem : place p.helper ∈ places
  pbufs : p.body.length ≤ m

section Piece

variable {data : List Eth.Byte} {places received : List (Nat × Nat)}
  {key : Eth.Word × Eth.Word × BitVec 16} {m ticks : Nat} {p : IpPacket} {ipr : ReassData}
  {payload : Eth.Word} {answer : Option IpPacket} {entry : Option ReassData}

theorem IpPacket.PieceOf.stop_eq (hp : p.PieceOf data places key m) :
    p.helper.stop = p.hdr.offsetBytes + p.body.data.length := by
  have htrimmed := hp.arrived.trimmed
  rw [IpPacket.totLen] at htrimmed
  rw [IpPacket.helper, hp.hlBytes, htrimmed]
  dsimp only
  omega

theorem IpPacket.PieceOf.isLast_iff (hp : p.PieceOf data places key m) :
    p.hdr.isLast = true ↔ p.helper.stop = data.length := by
  rw [hp.stop_eq]
  exact hp.fragment.isLast

theorem IpPacket.PieceOf.stop_le (hp : p.PieceOf data places key m) : p.helper.stop ≤ data.length := by
  rw [hp.stop_eq]
  exact hp.fragment.slice.stop_le

/-- The entry of a datagram of which the fragments at some places have been received. -/
structure Received (data : List Eth.Byte) (m ticks : Nat) (received : List (Nat × Nat))
    (ipr : ReassData) : Prop where
  mem : ∀ x, x ∈ ipr.p.map place ↔ x ∈ received
  clen : ∀ q ∈ ipr.p, q.clen ≤ m
  last : ipr.lastSeen ↔ ∃ x ∈ received, stop x = data.length
  timer : ipReassMaxage ≤ ipr.timer + ticks

theorem lastSeen_enqueue_iff (l : List ReassHelper) :
    (ipr.enqueue p l).lastSeen ↔ p.hdr.isLast = true ∨ ipr.lastSeen := by
  cases hlast : p.hdr.isLast with
  | true => simp [(@ReassData.enqueue_last ipr _ l hlast).1]
  | false =>
    rw [ReassData.enqueue_not_last l hlast]
    simp [ReassData.lastSeen]

/-- The queue with the fragment in it is whole just when every place has been received. -/
theorem Enqueued.whole_iff {l : List ReassHelper} (h : Enqueued ipr p.helper l)
    (hcut : Cut data places) (hp : p.PieceOf data places key m) (hipr : Received data m ticks received ipr)
    (hsub : ∀ x ∈ received, x ∈ places) :
    ((p.hdr.isLast = true ∨ ipr.lastSeen) ∧ Adjoined 0 l)
      ↔ ∀ x ∈ places, x ∈ received ++ [place p.helper] := by
  have hmem : ∀ x, x ∈ l.map place ↔ x ∈ received ++ [place p.helper] := by
    intro x
    rw [(h.perm.map place).mem_iff, List.map_cons, List.mem_cons, hipr.mem, List.mem_append,
      List.mem_singleton, or_comm]
  have hplaces : ∀ a ∈ l, place a ∈ places := by
    intro a ha
    have hx := (hmem _).mp (List.mem_map_of_mem (f := place) ha)
    rcases List.mem_append.mp hx with hx | hx
    · exact hsub _ hx
    · rw [List.mem_singleton.mp hx]
      exact hp.place_mem
  have hcomplete := h.ordered.complete_iff hcut.joined hcut.nonempty hplaces
  have hseen : (p.hdr.isLast = true ∨ ipr.lastSeen)
      ↔ ∃ x ∈ received ++ [place p.helper], stop x = data.length := by
    rw [hp.isLast_iff, hipr.last]
    simp only [List.mem_append, List.mem_singleton]
    constructor
    · rintro (hstop | ⟨x, hx, hstop⟩)
      · exact ⟨_, .inr rfl, hstop⟩
      · exact ⟨x, .inl hx, hstop⟩
    · rintro ⟨x, hx | rfl, hstop⟩
      · exact .inr ⟨x, hx, hstop⟩
      · exact .inl hstop
  have hstop_le : ∀ x ∈ places, stop x ≤ data.length := by
    intro x hx
    rw [← hcut.whole]
    exact (hcut.joined.bounds (fun y hy => Nat.le_of_lt (hcut.nonempty y hy)) hx).2
  simp only [hseen, ← hmem]
  rw [hcut.whole] at hcomplete
  rw [← hcomplete]
  constructor
  · rintro ⟨⟨x, hx, hlast⟩, hjoined⟩
    obtain ⟨a, ha, rfl⟩ := List.mem_map.mp hx
    refine ⟨hjoined, Nat.le_antisymm (endOf_le (Nat.zero_le _) fun b hb => ?_) ?_⟩
    · exact hstop_le _ (hplaces b hb)
    · rw [← hlast]
      exact (hjoined.bounds (fun b hb => Nat.le_of_lt (hcut.nonempty _ (hplaces b hb))) ha).2
  · rintro ⟨hjoined, hend⟩
    have hne : l ≠ [] := List.ne_nil_of_mem (h.perm.mem_iff.mpr (List.mem_cons_self ..))
    obtain ⟨a, ha, hlast⟩ := exists_stop_eq_endOf 0 hne
    exact ⟨⟨place a, List.mem_map_of_mem ha, hlast.trans hend⟩, hjoined⟩

/-- The queue takes a fragment whose place is free. -/
theorem Received.fits (hipr : Received data m ticks received ipr) (hcut : Cut data places)
    (hp : p.PieceOf data places key m) (hsub : ∀ x ∈ received, x ∈ places)
    (hnew : place p.helper ∉ received) :
    ¬ (p.TooLong ∨ ¬ (p.helper.stop < 65536 ∧ Fits p.helper ipr.p)) := by
  have hstop := hp.stop_le
  have hshort := hcut.short
  have hfits : Fits p.helper ipr.p :=
    Fits.of_places (hcut.joined.ordered hcut.nonempty) hp.place_mem
      (fun q hq => hsub _ ((hipr.mem _).mp (List.mem_map_of_mem hq))) fun h => hnew ((hipr.mem _).mp h)
  unfold ipHlen at hshort
  rintro (hlong | hnot)
  · have hlong' := hlong.2
    unfold ipHlen at hlong'
    omega
  · exact hnot ⟨by omega, hfits⟩

theorem Received.enqueue {l : List ReassHelper} (hipr : Received data m ticks received ipr)
    (hp : p.PieceOf data places key m) (henqueued : Enqueued ipr p.helper l) :
    Received data m ticks (received ++ [place p.helper]) (ipr.enqueue p l) where
  mem x := by
    rw [ReassData.enqueue_p, (henqueued.perm.map place).mem_iff, List.map_cons, List.mem_cons, hipr.mem,
      List.mem_append, List.mem_singleton, or_comm]
  clen q hq := by
    rw [ReassData.enqueue_p] at hq
    rcases List.mem_cons.mp (henqueued.perm.mem_iff.mp hq) with rfl | hq
    · exact hp.pbufs
    · exact hipr.clen q hq
  last := by
    rw [lastSeen_enqueue_iff, hp.isLast_iff, hipr.last]
    simp only [List.mem_append, List.mem_singleton]
    constructor
    · rintro (hstop | ⟨x, hx, hstop⟩)
      · exact ⟨_, .inr rfl, hstop⟩
      · exact ⟨x, .inl hx, hstop⟩
    · rintro ⟨x, hx | rfl, hstop⟩
      · exact .inr ⟨x, hx, hstop⟩
      · exact .inl hstop
  timer := by
    rw [ReassData.enqueue_timer]
    exact hipr.timer

/-- While a place is free, nothing is answered. -/
theorem ReassOutcome.waits (houtcome : ReassOutcome ipr p payload answer entry) (hcut : Cut data places)
    (hp : p.PieceOf data places key m) (hipr : Received data m ticks received ipr)
    (hsub : ∀ x ∈ received, x ∈ places) (hfree : ∃ x ∈ places, x ∉ received ++ [place p.helper]) :
    answer = none
      ∧ ∃ r, entry = some r ∧ Received data m ticks (received ++ [place p.helper]) r := by
  cases houtcome with
  | dropped hdrop =>
    have hold : place p.helper ∈ received := by
      by_contra hnew
      exact hipr.fits hcut hp hsub hnew hdrop
    have hne : ipr.p ≠ [] := by
      intro hnil
      have hmem := (hipr.mem _).mpr hold
      rw [hnil] at hmem
      cases hmem
    have hsame : ∀ x, x ∈ received ++ [place p.helper] ↔ x ∈ received := by
      intro x
      rw [List.mem_append, List.mem_singleton]
      constructor
      · rintro (hx | rfl)
        · exact hx
        · exact hold
      · exact .inl
    rw [if_neg hne]
    refine ⟨rfl, ipr, rfl, fun x => ?_, hipr.clen, ?_, hipr.timer⟩
    · rw [hipr.mem, hsame]
    · rw [hipr.last]
      simp only [hsame]
  | queued henqueued hstop hshort hopen => exact ⟨rfl, _, rfl, hipr.enqueue hp henqueued⟩
  | finished henqueued hstop hshort hlast hjoined =>
    obtain ⟨x, hx, hfree⟩ := hfree
    exact absurd ((henqueued.whole_iff hcut hp hipr hsub).mp ⟨hlast, hjoined⟩ x hx) hfree

/-- When the last place is taken, the datagram is answered. -/
theorem ReassOutcome.answers (houtcome : ReassOutcome ipr p payload answer entry)
    (hcut : Cut data places) (hp : p.PieceOf data places key m)
    (hipr : Received data m ticks received ipr) (hsub : ∀ x ∈ received, x ∈ places)
    (hall : ∀ x ∈ places, x ∈ received ++ [place p.helper]) (hnew : place p.helper ∉ received) :
    ∃ t, answer = some t := by
  cases houtcome with
  | dropped hdrop => exact absurd hdrop (hipr.fits hcut hp hsub hnew)
  | queued henqueued hstop hshort hopen =>
    exact absurd ((henqueued.whole_iff hcut hp hipr hsub).mpr hall) hopen
  | finished henqueued hstop hshort hlast hjoined => exact ⟨_, rfl⟩

end Piece

/-! ## Room for the fragments -/

section Room

variable {data : List Eth.Byte} {places received : List (Nat × Nat)}
  {key : Eth.Word × Eth.Word × BitVec 16} {m ticks base : Nat} {s s' : Reass} {p : IpPacket}
  {ipr : ReassData} {l₁ l₂ : List ReassData} {payload : Eth.Word}

/-- The datagrams of other keys. -/
def others (key : Eth.Word × Eth.Word × BitVec 16) (l : List ReassData) : List ReassData :=
  l.filter fun r => r.iphdr.key ≠ key

theorem others_split (hl : DatagramsOk (l₁ ++ ipr :: l₂)) (hkey : ipr.iphdr.key = key) :
    others key (l₁ ++ ipr :: l₂) = l₁ ++ l₂ := by
  have hkeys := hl.keys
  rw [List.pairwise_append, List.pairwise_cons] at hkeys
  have hleft : l₁.filter (fun r => r.iphdr.key ≠ key) = l₁ :=
    List.filter_eq_self.mpr fun r hr => by
      simpa [← hkey] using hkeys.2.2 r hr ipr (List.mem_cons_self ..)
  have hright : l₂.filter (fun r => r.iphdr.key ≠ key) = l₂ :=
    List.filter_eq_self.mpr fun r hr => by simpa [← hkey] using (hkeys.2.1.1 r hr).symm
  rw [others, List.filter_append, List.filter_cons, hleft, hright]
  simp [hkey]

theorem others_eq_self {l : List ReassData} (hother : ∀ r ∈ l, r.iphdr.key ≠ key) : others key l = l :=
  List.filter_eq_self.mpr fun r hr => by simpa using hother r hr

/-- What the other datagrams take of the room. -/
structure OthersFit (key : Eth.Word × Eth.Word × BitVec 16) (base : Nat) (l : List ReassData) : Prop where
  clen : clenSum (others key l) ≤ base
  entries : (others key l).length < mempNumReassdata

/-- The state in which the fragments at some places have been received, and others not yet. -/
structure Collecting (data : List Eth.Byte) (places : List (Nat × Nat))
    (key : Eth.Word × Eth.Word × BitVec 16) (m base : Nat) (received : List (Nat × Nat)) (ticks : Nat)
    (s : Reass) : Prop where
  inv : s.Inv
  othersFit : OthersFit key base s.datagrams
  entry : ∀ ipr ∈ s.datagrams, ipr.iphdr.key = key → Received data m ticks received ipr
  some_entry : received ≠ [] → ∃ ipr ∈ s.datagrams, ipr.iphdr.key = key
  sub : ∀ x ∈ received, x ∈ places

theorem Received.clen_le (hipr : Received data m ticks received ipr) (hordered : Ordered ipr.p)
    (hsub : ∀ x ∈ received, x ∈ places) (hfree : ∃ x ∈ places, x ∉ received) :
    ipr.clen + m ≤ places.length * m := by
  obtain ⟨x, hx, hfree⟩ := hfree
  have hnodup : (x :: ipr.p.map place).Nodup := by
    refine List.nodup_cons.mpr ⟨fun h => hfree ((hipr.mem x).mp h), ?_⟩
    exact (ordered_map_place.mpr hordered).nodup
  have hsubset : x :: ipr.p.map place ⊆ places := by
    intro y hy
    rcases List.mem_cons.mp hy with rfl | hy
    · exact hx
    · exact hsub y ((hipr.mem y).mp hy)
  have hlength := (hnodup.subperm hsubset).length_le
  rw [List.length_cons, List.length_map] at hlength
  have hsum : ipr.clen ≤ ipr.p.length * m := by
    have hle := List.sum_le_card_nsmul (ipr.p.map ReassHelper.clen) m (by simpa using hipr.clen)
    simpa [ReassData.clen] using hle
  calc ipr.clen + m ≤ ipr.p.length * m + m := Nat.add_le_add_right hsum m
    _ = (ipr.p.length + 1) * m := by ring
    _ ≤ places.length * m := Nat.mul_le_mul_right m hlength

/-- While a place is free there is room for another fragment. -/
theorem Collecting.room (h : Collecting data places key m base received ticks s)
    (hfree : ∃ x ∈ places, x ∉ received) : s.pbufcount + m ≤ base + places.length * m := by
  rw [h.inv.count]
  have hothers := h.othersFit.clen
  by_cases hmem : ∃ ipr ∈ s.datagrams, ipr.iphdr.key = key
  · obtain ⟨ipr, hipr, hkey⟩ := hmem
    obtain ⟨l₁, l₂, hsplit⟩ := List.append_of_mem hipr
    have hok := h.inv.datagrams
    have hclen := (h.entry ipr hipr hkey).clen_le (hok.each ipr hipr).ordered h.sub hfree
    rw [hsplit] at hok hothers ⊢
    rw [others_split hok hkey, clenSum_append] at hothers
    rw [clenSum_append, clenSum_cons]
    omega
  · rw [others_eq_self fun r hr hkey => hmem ⟨r, hr, hkey⟩] at hothers
    obtain ⟨x, hx, _⟩ := hfree
    have hone : 1 * m ≤ places.length * m :=
      Nat.mul_le_mul_right m (List.length_pos_of_mem hx)
    omega

theorem Received.refreshHdr (hipr : Received data m ticks received ipr) (h : IpHdr) :
    Received data m ticks received (ipr.refreshHdr h) := by
  unfold ReassData.refreshHdr
  split
  · exact ⟨hipr.mem, hipr.clen, hipr.last, hipr.timer⟩
  · exact hipr

theorem Received.new (h : IpHdr) : Received data m ticks [] (ReassData.new h) where
  mem := by simp [ReassData.new]
  clen := by simp [ReassData.new]
  last := by simp [ReassData.new, ReassData.lastSeen]
  timer := Nat.le_add_right _ _

/-- A fragment goes to the entry of its datagram, or to a new one, and frees no other. -/
theorem Collecting.call (h : Collecting data places key m base received ticks s)
    (hp : p.PieceOf data places key m) (hfree : ∃ x ∈ places, x ∉ received)
    (hroom : base + places.length * m ≤ ipReassMaxPbufs) (payload : Eth.Word) :
    ∃ l₁ l₂ ipr answer entry s', ip4Reass s p payload = .ok (answer, s')
      ∧ Received data m ticks received ipr ∧ ReassOutcome ipr p payload answer entry
      ∧ ipr.iphdr.key = key ∧ others key s.datagrams = l₁ ++ l₂
      ∧ s'.datagrams = l₁ ++ entry.toList ++ l₂ ∧ s'.Inv := by
  have hle := h.room hfree
  have hpbufs := hp.pbufs
  have hfits : s.pbufcount + p.body.length ≤ ipReassMaxPbufs := by omega
  have hlen : ¬ p.hdr.lenBytes < p.hdr.hlBytes := by
    rw [hp.arrived.trimmed, hp.hlBytes, IpPacket.totLen]
    omega
  have hcall : ip4Reass s p payload = ip4ReassQueue s p payload := by
    unfold ip4Reass
    rw [if_neg (by simpa using hp.hlBytes), if_neg hlen]
    exact if_neg (Nat.not_lt.mpr hfits)
  rw [hcall]
  by_cases hmem : ∃ ipr ∈ s.datagrams, ipr.iphdr.key = key
  · obtain ⟨ipr, hipr, hkey⟩ := hmem
    obtain ⟨l₁, l₂, hsplit⟩ := List.append_of_mem hipr
    have hpkey := hkey.trans hp.key_eq.symm
    obtain ⟨answer, entry, s', hrun, houtcome, hs', hinv⟩ :=
      ip4ReassQueue_known payload h.inv hp.arrived hp.hlBytes hfits hsplit hpkey
    have hok := h.inv.datagrams
    rw [hsplit] at hok
    refine ⟨l₁, l₂, ipr.refreshHdr p.hdr, answer, entry, s', hrun, (h.entry ipr hipr hkey).refreshHdr _,
      houtcome, ?_, ?_, hs', hinv⟩
    · rw [ReassData.refreshHdr_key hpkey, hkey]
    · rw [hsplit, others_split hok hkey]
  · have hother : ∀ r ∈ s.datagrams, r.iphdr.key ≠ p.hdr.key := by
      intro r hr hkey
      exact hmem ⟨r, hr, hkey.trans hp.key_eq⟩
    have hself : others key s.datagrams = s.datagrams :=
      others_eq_self fun r hr hkey => hmem ⟨r, hr, hkey⟩
    have hentries := h.othersFit.entries
    rw [hself] at hentries
    obtain ⟨answer, entry, s', hrun, houtcome, hs', hinv⟩ :=
      ip4ReassQueue_new payload h.inv hp.arrived hp.hlBytes hfits hentries hother
    have hnone : received = [] := by
      by_contra hne
      exact hmem (h.some_entry hne)
    refine ⟨[], s.datagrams, ReassData.new p.hdr, answer, entry, s', hrun, ?_, houtcome, hp.key_eq,
      hself, hs', hinv⟩
    rw [hnone]
    exact Received.new _

theorem Collecting.waits (h : Collecting data places key m base received ticks s)
    (hcut : Cut data places) (hp : p.PieceOf data places key m)
    (hfree : ∃ x ∈ places, x ∉ received ++ [place p.helper])
    (hroom : base + places.length * m ≤ ipReassMaxPbufs) (payload : Eth.Word) :
    ∃ s', ip4Reass s p payload = .ok (none, s')
      ∧ Collecting data places key m base (received ++ [place p.helper]) ticks s' := by
  have hfree' : ∃ x ∈ places, x ∉ received := by
    obtain ⟨x, hx, hnot⟩ := hfree
    exact ⟨x, hx, fun hmem => hnot (List.mem_append_left _ hmem)⟩
  obtain ⟨l₁, l₂, ipr, answer, entry, s', hrun, hipr, houtcome, hkey, hothers, hs', hinv⟩ :=
    h.call hp hfree' hroom payload
  obtain ⟨rfl, r, rfl, hr⟩ := houtcome.waits hcut hp hipr h.sub hfree
  have hr_key : r.iphdr.key = key := by rw [houtcome.same_key.1 r rfl, hkey]
  rw [Option.toList_some, List.append_assoc, List.singleton_append] at hs'
  have hok := hinv.datagrams
  rw [hs'] at hok
  have hothers' : others key s'.datagrams = others key s.datagrams := by
    rw [hs', others_split hok hr_key, hothers]
  refine ⟨s', hrun, hinv, ⟨?_, ?_⟩, ?_, ?_, ?_⟩
  · rw [hothers']
    exact h.othersFit.clen
  · rw [hothers']
    exact h.othersFit.entries
  · intro r' hr' hkey'
    have hnodup : (s'.datagrams.map fun r => r.iphdr.key).Nodup :=
      List.pairwise_map.mpr hinv.datagrams.keys
    have hsame : r' = r :=
      List.inj_on_of_nodup_map hnodup hr' (by rw [hs']; simp) (hkey'.trans hr_key.symm)
    rw [hsame]
    exact hr
  · exact fun _ => ⟨r, by rw [hs']; simp, hr_key⟩
  · intro x hx
    rcases List.mem_append.mp hx with hx | hx
    · exact h.sub x hx
    · rw [List.mem_singleton.mp hx]
      exact hp.place_mem

theorem clenSum_survivors_le (l : List ReassData) : clenSum (survivors l) ≤ clenSum l := by
  induction l with
  | nil => exact Nat.le_refl _
  | cons r l ih =>
    unfold survivors at *
    rw [List.filter_cons]
    split
    · rw [List.map_cons, clenSum_cons, clenSum_cons]
      exact Nat.add_le_add_left ih _
    · rw [clenSum_cons]
      omega

theorem others_survivors (l : List ReassData) : others key (survivors l) = survivors (others key l) := by
  unfold others survivors
  rw [List.filter_map, List.filter_filter, List.filter_filter]
  congr 1
  refine List.filter_congr fun r _ => ?_
  rw [Bool.and_comm]
  rfl

/-- A second passes. -/
theorem Collecting.tmr (h : Collecting data places key m base received ticks s)
    (hticks : ticks < ipReassMaxage) :
    ∃ s', ipReassTmr s = .ok s' ∧ Collecting data places key m base received (ticks + 1) s' := by
  obtain ⟨s', hrun, hs', hinv⟩ := ipReassTmr_spec h.inv
  refine ⟨s', hrun, hinv, ⟨?_, ?_⟩, ?_, ?_, h.sub⟩
  · rw [hs', others_survivors]
    exact Nat.le_trans (clenSum_survivors_le _) h.othersFit.clen
  · rw [hs', others_survivors, survivors, List.length_map]
    exact Nat.lt_of_le_of_lt (List.length_filter_le _ _) h.othersFit.entries
  · intro ipr hipr hkey
    rw [hs', survivors, List.mem_map] at hipr
    obtain ⟨r, hr, rfl⟩ := hipr
    have hr' := h.entry r (List.mem_of_mem_filter hr) hkey
    have htimer := hr'.timer
    exact ⟨hr'.mem, hr'.clen, hr'.last, by simp only [ReassData.tick]; omega⟩
  · intro hne
    obtain ⟨r, hr, hkey⟩ := h.some_entry hne
    have htimer := (h.entry r hr hkey).timer
    refine ⟨r.tick, ?_, hkey⟩
    rw [hs', survivors]
    exact List.mem_map_of_mem (List.mem_filter.mpr ⟨hr, decide_eq_true (by omega)⟩)

end Room

/-! ## A run -/

section Run

variable {data : List Eth.Byte} {places received : List (Nat × Nat)}
  {key : Eth.Word × Eth.Word × BitVec 16} {m ticks base : Nat} {s : Reass} {events : List ReassEvent}

/-- A fragment of the datagram, or the timer. -/
def ReassEvent.PieceOf (data : List Eth.Byte) (places : List (Nat × Nat))
    (key : Eth.Word × Eth.Word × BitVec 16) (m : Nat) : ReassEvent → Prop
  | .reass p _ => p.PieceOf data places key m
  | .tmr => True

/-- The places of the fragments that come. -/
def placesOf (events : List ReassEvent) : List (Nat × Nat) :=
  events.filterMap fun
    | .reass p _ => some (place p.helper)
    | .tmr => none

/-- The seconds that pass. -/
def ticksOf (events : List ReassEvent) : Nat :=
  events.countP fun
    | .reass _ _ => false
    | .tmr => true

/-- Nothing is answered while a place is free. -/
theorem Collecting.run (h : Collecting data places key m base received ticks s)
    (hcut : Cut data places) (hroom : base + places.length * m ≤ ipReassMaxPbufs)
    (hevents : ∀ e ∈ events, e.PieceOf data places key m)
    (hfree : ∃ x ∈ places, x ∉ received ++ placesOf events)
    (hticks : ticks + ticksOf events ≤ ipReassMaxage) :
    ∃ answers s', Machine.run reassStep events s = .ok (answers, s') ∧ (∀ answer ∈ answers, answer = none)
      ∧ Collecting data places key m base (received ++ placesOf events) (ticks + ticksOf events) s' := by
  induction events generalizing s received ticks with
  | nil => exact ⟨[], s, rfl, by simp, by simpa [placesOf, ticksOf] using h⟩
  | cons e events ih =>
    have hevents' : ∀ e ∈ events, e.PieceOf data places key m :=
      fun e he => hevents e (List.mem_cons_of_mem _ he)
    have he := hevents e (List.mem_cons_self ..)
    cases e with
    | reass p payload =>
      have hplaces : received ++ placesOf (.reass p payload :: events)
          = received ++ [place p.helper] ++ placesOf events := by
        simp [placesOf]
      have hticks' : ticksOf (.reass p payload :: events) = ticksOf events := by
        simp [ticksOf]
      rw [hplaces] at hfree ⊢
      rw [hticks'] at hticks ⊢
      have hfree' : ∃ x ∈ places, x ∉ received ++ [place p.helper] := by
        obtain ⟨x, hx, hnot⟩ := hfree
        exact ⟨x, hx, fun hmem => hnot (List.mem_append_left _ hmem)⟩
      obtain ⟨s₁, hstep, hs₁⟩ := h.waits hcut he hfree' hroom payload
      obtain ⟨answers, s', hrun, hnone, hs'⟩ := ih hs₁ hevents' hfree hticks
      refine ⟨none :: answers, s', run_cons_of_ok hstep hrun, ?_, hs'⟩
      exact List.forall_mem_cons.mpr ⟨rfl, hnone⟩
    | tmr =>
      have hplaces : placesOf (.tmr :: events) = placesOf events := by simp [placesOf]
      have hticks' : ticks + ticksOf (.tmr :: events) = ticks + 1 + ticksOf events := by
        simp [ticksOf]
        omega
      rw [hplaces] at hfree ⊢
      rw [hticks'] at hticks ⊢
      obtain ⟨s₁, hstep, hs₁⟩ := h.tmr (by omega)
      obtain ⟨answers, s', hrun, hnone, hs'⟩ := ih hs₁ hevents' hfree hticks
      refine ⟨none :: answers, s', run_cons_of_ok ?_ hrun, ?_, hs'⟩
      · rw [reassStep, hstep]
        rfl
      · exact List.forall_mem_cons.mpr ⟨rfl, hnone⟩

/-- A datagram has been cut into fragments that arrive in any order, some more than once, each in `m`
    pbufs at most; there is room for them besides what is queued already, and the timer does not run
    out. Nothing is answered before the last one has come, and the datagram is then. -/
theorem reass_run_complete (before events : List ReassEvent) (answers₀ : List (Option IpPacket))
    (s : Reass) (data : List Eth.Byte) (places : List (Nat × Nat))
    (key : Eth.Word × Eth.Word × BitVec 16) (m : Nat) (p : IpPacket) (payload : Eth.Word)
    (hbefore : ∀ e ∈ before, e.Allowed)
    (hs : Machine.run reassStep before Reass.init = .ok (answers₀, s))
    (hnone : ∀ r ∈ s.datagrams, r.iphdr.key ≠ key) (hentries : s.datagrams.length < mempNumReassdata)
    (hroom : s.pbufcount + places.length * m ≤ ipReassMaxPbufs) (hcut : Cut data places)
    (hevents : ∀ e ∈ events, e.PieceOf data places key m) (hp : p.PieceOf data places key m)
    (hticks : ticksOf events ≤ ipReassMaxage) (hnew : place p.helper ∉ placesOf events)
    (hall : ∀ x ∈ places, x ∈ placesOf events ++ [place p.helper]) :
    ∃ answers t s', Machine.run reassStep (events ++ [.reass p payload]) s = .ok (answers ++ [some t], s')
      ∧ (∀ answer ∈ answers, answer = none)
      ∧ Telegram data (events ++ [.reass p payload]) t ∧ t.hdr.key = key := by
  have hinv : s.Inv := by
    obtain ⟨answers, s', hrun, hinv⟩ := reass_run_safe before hbefore
    rw [hs] at hrun
    obtain ⟨_, rfl⟩ := Prod.mk.inj (Except.ok.inj hrun)
    exact hinv
  have hself : others key s.datagrams = s.datagrams := others_eq_self hnone
  have hstart : Collecting data places key m s.pbufcount [] 0 s := by
    refine ⟨hinv, ⟨?_, ?_⟩, ?_, by simp, by simp⟩
    · rw [hself, hinv.count]
    · rwa [hself]
    · intro ipr hipr hkey
      exact absurd hkey (hnone ipr hipr)
  obtain ⟨answers, s₁, hrun, hwaits, hs₁⟩ := hstart.run hcut hroom hevents
    ⟨_, hp.place_mem, by simpa using hnew⟩ (by omega)
  rw [List.nil_append] at hs₁
  obtain ⟨l₁, l₂, ipr, answer, entry, s', hcall, hipr, houtcome, hkey, _, _, _⟩ :=
    hs₁.call hp ⟨_, hp.place_mem, hnew⟩ hroom payload
  obtain ⟨t, rfl⟩ := houtcome.answers hcut hp hipr hs₁.sub hall hnew
  have hlast : Machine.run reassStep [.reass p payload] s₁ = .ok ([some t], s') :=
    run_cons_of_ok hcall run_nil
  have hwhole := run_append_of_ok hrun hlast
  have ht_key : t.hdr.key = key := (houtcome.same_key.2 t rfl).trans hkey
  refine ⟨answers, t, s', hwhole, hwaits, ?_, ht_key⟩
  -- that it is the right datagram holds of every run
  have hsound : SoundInv data key [] [] s := by
    refine ⟨hinv, fun ipr hipr hkey => absurd hkey (hnone ipr hipr), by simp, ?_⟩
    rw [lastOpen, List.countP_eq_zero.mpr]
    · exact Nat.le_refl _
    · intro r hr
      simp [hnone r hr]
  have hallowed : ∀ e ∈ events ++ [.reass p payload], e.Allowed ∧ e.OfDatagram data key := by
    intro e he
    have hpiece : e.PieceOf data places key m := by
      rcases List.mem_append.mp he with he | he
      · exact hevents e he
      · rw [List.mem_singleton.mp he]
        exact hp
    cases e with
    | reass p' payload' => exact ⟨hpiece.arrived, fun _ => hpiece.fragment⟩
    | tmr => exact ⟨trivial, trivial⟩
  obtain ⟨answers', s'', hrun', hsound'⟩ := run_history (SoundInv data key)
    (fun e => e.Allowed ∧ e.OfDatagram data key)
    (fun past answers s e h he => h.step he.1 he.2) hsound hallowed
  rw [hwhole] at hrun'
  obtain ⟨rfl, _⟩ := Prod.mk.inj (Except.ok.inj hrun')
  rw [List.nil_append] at hsound'
  exact hsound'.telegrams t (by simp) ht_key

theorem firstFragment_pieceOf :
    firstFragment.PieceOf smallData [(0, 8), (8, 10)] firstFragment.hdr.key 1 :=
  ⟨firstFragment_arrived, by decide, rfl, firstFragment_of_data, by decide, by decide⟩

theorem secondFragment_pieceOf :
    secondFragment.PieceOf smallData [(0, 8), (8, 10)] firstFragment.hdr.key 1 :=
  ⟨secondFragment_arrived, by decide, rfl, secondFragment_of_data, by decide, by decide⟩

theorem reass_run_complete_small :
    ∃ answers t s', Machine.run reassStep smallRun Reass.init = .ok (answers ++ [some t], s')
      ∧ (∀ answer ∈ answers, answer = none) ∧ Telegram smallData smallRun t
      ∧ t.hdr.key = firstFragment.hdr.key := by
  refine reass_run_complete [] [.reass secondFragment 0#32, .tmr] [] Reass.init smallData [(0, 8), (8, 10)]
    firstFragment.hdr.key 1 firstFragment 0#32 (by simp) rfl (by simp [Reass.init]) (by decide) (by decide)
    ⟨by decide, by decide, by decide, by decide⟩ ?_ firstFragment_pieceOf (by decide) (by decide) (by decide)
  simp only [List.mem_cons, List.not_mem_nil, or_false]
  rintro e (rfl | rfl)
  · exact secondFragment_pieceOf
  · trivial

end Run

end Lwip
