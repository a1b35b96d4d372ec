import McuDrivers.Lwip.FragCut

set_option autoImplicit false

/-! # lwIP: from `ip4_frag` to `ip4_reass`

Fragments of a datagram cross a network that delays, repeats and reorders them. The host that they come
to gives back what was cut, when the flags are right; when they are not it gives back less. -/

namespace Lwip

open Span Machine

/-- A fragment as it arrives. On its way the routers change some fields of its header, and the driver puts
    it into pbufs of its own. -/
structure CopyOf (f q : IpPacket) : Prop where
  hdr : q.hdr = { f.hdr with tos := q.hdr.tos, ttl := q.hdr.ttl, chksum := q.hdr.chksum }
  data : q.body.data = f.body.data
  pbufs : q.body ≠ []

/-- Packets that are together the fragments of a datagram. -/
structure FragmentsOf (data : List Eth.Byte) (key : Eth.Word × Eth.Word × BitVec 16)
    (sent : List IpPacket) : Prop where
  joined : Adjoined 0 (sent.map IpPacket.helper)
  whole : endOf 0 (sent.map IpPacket.helper) = data.length
  short : data.length + ipHlen ≤ 0xffff
  fragment : ∀ f ∈ sent, f.FragmentOf data
  nonempty : ∀ f ∈ sent, 0 < f.body.data.length
  hlBytes : ∀ f ∈ sent, f.hdr.hlBytes = ipHlen
  key_eq : ∀ f ∈ sent, f.hdr.key = key
  trimmed : ∀ f ∈ sent, f.hdr.lenBytes = f.totLen
  flagged : ∀ f ∈ sent, f.hdr.offset &&& lwipHtons (ipOffmask ||| ipMf) ≠ 0#16

/-- The copy of one of the fragments, in `m` pbufs at most, or the timer. -/
def ReassEvent.CopyIn (sent : List IpPacket) (m : Nat) : ReassEvent → Prop
  | .reass q _ => (∃ f ∈ sent, CopyOf f q) ∧ q.body.length ≤ m
  | .tmr => True

section Copy

variable {data : List Eth.Byte} {key : Eth.Word × Eth.Word × BitVec 16} {sent : List IpPacket} {m : Nat}
  {f q : IpPacket} {e : ReassEvent}

theorem CopyOf.refl (hbody : f.body ≠ []) : CopyOf f f := ⟨rfl, rfl, hbody⟩

theorem CopyOf.offsetBytes (h : CopyOf f q) : q.hdr.offsetBytes = f.hdr.offsetBytes := by
  rw [h.hdr]
  rfl

theorem CopyOf.helper (h : CopyOf f q) : place q.helper = place f.helper := by
  have hstop : q.hdr.offsetBytes + (q.hdr.lenBytes - q.hdr.hlBytes)
      = f.hdr.offsetBytes + (f.hdr.lenBytes - f.hdr.hlBytes) := by
    rw [h.hdr]
    rfl
  exact Prod.ext h.offsetBytes hstop

theorem CopyOf.totLen (h : CopyOf f q) : q.totLen = f.totLen := by
  rw [IpPacket.totLen, IpPacket.totLen, h.data]

/-- The copies are pieces of the datagram. -/
theorem FragmentsOf.pieceOf (h : FragmentsOf data key sent) (hf : f ∈ sent) (hq : CopyOf f q)
    (hpbufs : q.body.length ≤ m) :
    q.PieceOf data ((sent.map IpPacket.helper).map place) key m where
  arrived := by
    refine ⟨?_, hq.pbufs, ?_⟩
    · rw [hq.totLen, ← h.trimmed f hf, hq.hdr]
      rfl
    · rw [hq.hdr]
      exact h.flagged f hf
  hlBytes := by
    rw [hq.hdr]
    exact h.hlBytes f hf
  key_eq := by
    rw [hq.hdr]
    exact h.key_eq f hf
  fragment := by
    refine ⟨?_, ?_⟩
    · rw [hq.data, hq.offsetBytes]
      exact (h.fragment f hf).slice
    · rw [hq.data, hq.offsetBytes, ← (h.fragment f hf).isLast, hq.hdr]
      exact Iff.rfl
  place_mem := by
    rw [hq.helper]
    exact List.mem_map_of_mem (List.mem_map_of_mem hf)
  pbufs := hpbufs

theorem FragmentsOf.cut (h : FragmentsOf data key sent) :
    Cut data ((sent.map IpPacket.helper).map place) where
  joined := adjoined_map_place.mpr h.joined
  nonempty x hx := by
    obtain ⟨_, hq, rfl⟩ := List.mem_map.mp hx
    obtain ⟨f, hf, rfl⟩ := List.mem_map.mp hq
    change f.hdr.offsetBytes < f.hdr.offsetBytes + (f.hdr.lenBytes - f.hdr.hlBytes)
    have hpos := h.nonempty f hf
    rw [h.trimmed f hf, h.hlBytes f hf, IpPacket.totLen]
    omega
  whole := endOf_map_place.trans h.whole
  short := h.short

theorem FragmentsOf.event (h : FragmentsOf data key sent) (he : e.CopyIn sent m) :
    e.PieceOf data ((sent.map IpPacket.helper).map place) key m := by
  cases e with
  | reass q payload =>
    obtain ⟨⟨f, hf, hcopy⟩, hpbufs⟩ := he
    exact h.pieceOf hf hcopy hpbufs
  | tmr => trivial

/-- Copies of the fragments of a datagram, in any order and number, are put together to it with the last
    that is missing, and not before. -/
theorem FragmentsOf.run {before events : List ReassEvent} {answers₀ : List (Option IpPacket)} {s : Reass}
    (h : FragmentsOf data key sent) (payload : Eth.Word) (hbefore : ∀ e ∈ before, e.Allowed)
    (hs : Machine.run reassStep before Reass.init = .ok (answers₀, s))
    (hnone : ∀ r ∈ s.datagrams, r.iphdr.key ≠ key) (hentries : s.datagrams.length < mempNumReassdata)
    (hroom : s.pbufcount + sent.length * m ≤ ipReassMaxPbufs)
    (hevents : ∀ e ∈ events, e.CopyIn sent m) (hticks : ticksOf events ≤ ipReassMaxage)
    (hf : f ∈ sent) (hq : CopyOf f q) (hpbufs : q.body.length ≤ m)
    (hnew : place f.helper ∉ placesOf events)
    (hall : ∀ g ∈ sent, place g.helper ∈ placesOf events ∨ place g.helper = place f.helper) :
    ∃ answers t s', Machine.run reassStep (events ++ [.reass q payload]) s = .ok (answers ++ [some t], s')
      ∧ (∀ answer ∈ answers, answer = none) ∧ Telegram data (events ++ [.reass q payload]) t
      ∧ t.hdr.key = key := by
  refine reass_run_complete before events answers₀ s data ((sent.map IpPacket.helper).map place) key m q
    payload hbefore hs hnone hentries ?_ h.cut (fun e he => h.event (hevents e he))
    (h.pieceOf hf hq hpbufs) hticks ?_ ?_
  · rwa [List.length_map, List.length_map]
  · rwa [hq.helper]
  · intro x hx
    obtain ⟨_, hq', rfl⟩ := List.mem_map.mp hx
    obtain ⟨g, hg, rfl⟩ := List.mem_map.mp hq'
    rw [List.mem_append, List.mem_singleton, hq.helper]
    exact hall g hg

end Copy

/-! ## What is cut -/

section Whole

variable {p f : IpPacket} {mtu allocs m : Nat} {payload : Eth.Word} {sent : List IpPacket}

/-- The packet is a datagram, of which `ip4_frag` has sent everything. -/
structure SentBy (p : IpPacket) (mtu : Nat) (sent : List IpPacket) : Prop where
  hlBytes : p.hdr.hlBytes = ipHlen
  start : p.hdr.offsetBytes = 0
  isLast : p.hdr.isLast = true
  room : ipHlen + 8 ≤ mtu
  long : mtu < p.totLen
  short : p.totLen ≤ 0xffff
  calls : ∃ allocs payload, ip4Frag p.body.data.length p mtu payload allocs = .ok (sent, errOk)

theorem SentBy.fragmentOf (h : SentBy p mtu sent) : p.FragmentOf p.body.data where
  slice := ⟨[], [], by simp, h.start.symm⟩
  isLast := by
    rw [h.start, Nat.zero_add]
    exact iff_of_true h.isLast rfl

theorem SentBy.fragments (h : SentBy p mtu sent) :
    Fragments p.hdr mtu false p.body.data 0 p.body.data.length sent errOk := by
  obtain ⟨allocs, payload, hrun⟩ := h.calls
  have hlong := h.long
  have hshort := h.short
  rw [IpPacket.totLen] at hshort hlong
  have hfragments := ip4Frag_fragments h.hlBytes h.room (by omega) h.fragmentOf (by omega) hrun
  rwa [h.isLast, h.start, Nat.zero_add] at hfragments

/-- The datagram does not fit into one fragment, so that the first is flagged. -/
theorem SentBy.flagged (h : SentBy p mtu sent) (hf : f ∈ sent) :
    f.hdr.offset &&& lwipHtons (ipOffmask ||| ipMf) ≠ 0#16 := by
  rw [Ne, f.hdr.not_fragment_iff]
  rintro ⟨hstart, hlast⟩
  have hroom := h.room
  have hlong := h.long
  have hle := ((h.fragments.each f hf).1.isLast.mp hlast).1
  rw [hstart] at hle
  rw [IpPacket.totLen] at hlong
  omega

theorem SentBy.nonempty (h : SentBy p mtu sent) (hf : f ∈ sent) : 0 < f.body.data.length := by
  have hcut := (h.fragments.each f hf).1
  have hbefore := hcut.before
  have hlength := hcut.length
  have hbytes : 8 ≤ fragBytes mtu := by
    have hroom := h.room
    have hlong := h.long
    have hshort := h.short
    rw [fragBytes, fragBlocks_eq (by omega : ipHlen ≤ mtu) (by omega)]
    omega
  omega

theorem SentBy.fragmentsOf (h : SentBy p mtu sent) (hright : FlagsRight p mtu) :
    FragmentsOf p.body.data p.hdr.key sent where
  joined := h.fragments.joined
  whole := h.fragments.whole rfl
  short := by
    have hshort := h.short
    rwa [IpPacket.totLen, Nat.add_comm] at hshort
  fragment f hf := by
    obtain ⟨allocs, payload, hrun⟩ := h.calls
    have hshort := h.short
    have hlong := h.long
    rw [IpPacket.totLen] at hshort hlong
    have hfragments := ip4Frag_fragments h.hlBytes h.room (by omega) h.fragmentOf (by omega) hrun
    exact hfragments.fragmentOf hright h.room (by omega) h.fragmentOf hf
  nonempty _ hf := h.nonempty hf
  hlBytes f hf := (h.fragments.each f hf).1.hlBytes
  key_eq f hf := (h.fragments.each f hf).1.key_eq
  trimmed f hf := (h.fragments.each f hf).1.trimmed
  flagged _ hf := h.flagged hf

/-- With a wrong flag, the fragments besides the last are those of a datagram without its last bytes. -/
theorem SentBy.fragmentsOf_dropLast (h : SentBy p mtu sent) (hwrong : ¬ FlagsRight p mtu) :
    FragmentsOf (p.body.data.take (p.body.data.length - lastBytes mtu p.body.data.length)) p.hdr.key
      sent.dropLast := by
  have hfragments := h.fragments
  have hlong := h.long
  have hshort := h.short
  have hroom := h.room
  rw [IpPacket.totLen] at hlong hshort
  simp only [FlagsRight, h.isLast, Bool.true_eq_false, false_or, not_or, Nat.not_le, Nat.not_lt] at hwrong
  obtain ⟨hmore, hslack⟩ := hwrong
  obtain rfl | ⟨first, last, rfl⟩ := List.eq_nil_or_concat sent
  · have hwhole := hfragments.whole rfl
    simp only [List.map_nil, endOf] at hwhole
    omega
  rw [List.concat_eq_append] at hfragments ⊢
  rw [List.dropLast_concat]
  -- where the last one is
  obtain ⟨hlast, hlast_mod⟩ := hfragments.each last (by simp)
  have hjoined := hfragments.joined
  have hwhole := hfragments.whole rfl
  rw [List.map_append, adjoined_append] at hjoined
  rw [List.map_append, endOf_append] at hwhole
  have hstart : last.hdr.offsetBytes = endOf 0 (first.map IpPacket.helper) := hjoined.2.1
  have hstop : last.helper.stop = p.body.data.length := hwhole
  have hlast_stop := hlast.stop_eq
  have hlast_length := hlast.length
  have hlast_bytes : p.body.data.length - last.hdr.offsetBytes = lastBytes mtu p.body.data.length := by
    have hbefore := hlast.before
    rw [Nat.mod_eq_of_lt (by omega), Nat.sub_zero] at hlast_mod
    rw [lastBytes]
    omega
  have hpos := lastBytes_pos mtu p.body.data.length
  have hlength : (p.body.data.take (p.body.data.length - lastBytes mtu p.body.data.length)).length
      = endOf 0 (first.map IpPacket.helper) := by
    rw [List.length_take, ← hstart]
    omega
  have hle : ∀ q ∈ first.map IpPacket.helper, Span.start q ≤ Span.stop q := by
    intro q hq
    obtain ⟨g, _, rfl⟩ := List.mem_map.mp hq
    exact Nat.le_add_right _ _
  have hmem : ∀ f ∈ first, f ∈ first ++ [last] := fun f hf => List.mem_append_left _ hf
  refine ⟨hjoined.1, hlength.symm, by omega, fun f hf => ?_, fun f hf => ?_, fun f hf => ?_,
    fun f hf => ?_, fun f hf => ?_, fun f hf => ?_⟩
  · obtain ⟨hcut, hmod⟩ := hfragments.each f (hmem f hf)
    have hf_stop := hcut.stop_eq
    have hbound : f.helper.stop ≤ endOf 0 (first.map IpPacket.helper) :=
      (hjoined.1.bounds hle (List.mem_map_of_mem hf)).2
    refine ⟨hcut.slice.of_le (by omega), ?_⟩
    rw [hcut.flag_iff hroom (by omega) (by omega) hmod, ← hf_stop, hlength, Nat.sub_zero]
    constructor
    · rintro ⟨hnext, _⟩
      omega
    · intro hend
      exact ⟨by omega, hslack⟩
  · exact h.nonempty (List.concat_eq_append .. ▸ hmem f hf)
  · exact (hfragments.each f (hmem f hf)).1.hlBytes
  · exact (hfragments.each f (hmem f hf)).1.key_eq
  · exact (hfragments.each f (hmem f hf)).1.trimmed
  · exact h.flagged (List.concat_eq_append .. ▸ hmem f hf)

end Whole

/-- `ip4_frag` and `ip4_reass` together give back the datagram, whatever the network does to the order and
    the number of the fragments, if the flags are right. -/
theorem frag_reass_round_trip (p : IpPacket) (mtu m : Nat) (sent : List IpPacket)
    (before events : List ReassEvent) (answers₀ : List (Option IpPacket)) (s : Reass) (f q : IpPacket)
    (payload : Eth.Word) (hsent : SentBy p mtu sent) (hright : FlagsRight p mtu)
    (hbefore : ∀ e ∈ before, e.Allowed)
    (hs : Machine.run reassStep before Reass.init = .ok (answers₀, s))
    (hnone : ∀ r ∈ s.datagrams, r.iphdr.key ≠ p.hdr.key)
    (hentries : s.datagrams.length < mempNumReassdata)
    (hroom : s.pbufcount + sent.length * m ≤ ipReassMaxPbufs)
    (hevents : ∀ e ∈ events, e.CopyIn sent m) (hticks : ticksOf events ≤ ipReassMaxage)
    (hf : f ∈ sent) (hq : CopyOf f q) (hpbufs : q.body.length ≤ m)
    (hnew : place f.helper ∉ placesOf events)
    (hall : ∀ g ∈ sent, place g.helper ∈ placesOf events ∨ place g.helper = place f.helper) :
    ∃ answers t s', Machine.run reassStep (events ++ [.reass q payload]) s = .ok (answers ++ [some t], s')
      ∧ (∀ answer ∈ answers, answer = none) ∧ Telegram p.body.data (events ++ [.reass q payload]) t
      ∧ t.hdr.key = p.hdr.key :=
  (hsent.fragmentsOf hright).run payload hbefore hs hnone hentries hroom hevents hticks hf hq hpbufs
    hnew hall

theorem sentBy_smallPacket : SentBy smallPacket 30 smallSent where
  hlBytes := by decide
  start := by decide
  isLast := by decide
  room := by decide
  long := by decide
  short := by decide
  calls := ⟨5, 0#32, ip4Frag_smallPacket⟩

theorem frag_reass_round_trip_small : ∃ answers t s',
    Machine.run reassStep [.reass smallSent[1] 0#32, .tmr, .reass smallSent[0] 0#32] Reass.init
        = .ok (answers ++ [some t], s')
      ∧ (∀ answer ∈ answers, answer = none)
      ∧ Telegram smallPacket.body.data [.reass smallSent[1] 0#32, .tmr, .reass smallSent[0] 0#32] t
      ∧ t.hdr.key = smallPacket.hdr.key := by
  refine frag_reass_round_trip smallPacket 30 3 smallSent [] [.reass smallSent[1] 0#32, .tmr] []
    Reass.init smallSent[0] smallSent[0] 0#32 sentBy_smallPacket (by decide) (by simp) rfl
    (by simp [Reass.init]) (by decide) (by decide) ?_ (by decide) (List.mem_cons_self ..)
    (.refl (by decide)) (by decide) (by decide) (by decide)
  simp only [List.mem_cons, List.not_mem_nil, or_false]
  rintro e (rfl | rfl)
  · exact ⟨⟨_, List.mem_cons_of_mem _ (List.mem_cons_self ..), .refl (by decide)⟩, by decide⟩
  · trivial

/-- With a wrong flag, a datagram without the last bytes is answered as soon as all fragments but the last
    have come, with a header that verifies. -/
theorem frag_reass_short (p : IpPacket) (mtu m : Nat) (sent : List IpPacket)
    (before events : List ReassEvent) (answers₀ : List (Option IpPacket)) (s : Reass) (f q : IpPacket)
    (payload : Eth.Word) (hsent : SentBy p mtu sent) (hwrong : ¬ FlagsRight p mtu)
    (hbefore : ∀ e ∈ before, e.Allowed)
    (hs : Machine.run reassStep before Reass.init = .ok (answers₀, s))
    (hnone : ∀ r ∈ s.datagrams, r.iphdr.key ≠ p.hdr.key)
    (hentries : s.datagrams.length < mempNumReassdata)
    (hroom : s.pbufcount + sent.dropLast.length * m ≤ ipReassMaxPbufs)
    (hevents : ∀ e ∈ events, e.CopyIn sent.dropLast m) (hticks : ticksOf events ≤ ipReassMaxage)
    (hf : f ∈ sent.dropLast) (hq : CopyOf f q) (hpbufs : q.body.length ≤ m)
    (hnew : place f.helper ∉ placesOf events)
    (hall : ∀ g ∈ sent.dropLast, place g.helper ∈ placesOf events ∨ place g.helper = place f.helper) :
    ∃ answers t s', Machine.run reassStep (events ++ [.reass q payload]) s = .ok (answers ++ [some t], s')
      ∧ (∀ answer ∈ answers, answer = none)
      ∧ Telegram (p.body.data.take (p.body.data.length - lastBytes mtu p.body.data.length))
        (events ++ [.reass q payload]) t
      ∧ t.hdr.key = p.hdr.key :=
  (hsent.fragmentsOf_dropLast hwrong).run payload hbefore hs hnone hentries hroom hevents hticks hf hq
    hpbufs hnew hall

theorem sentBy_oddPacket : SentBy oddPacket 30 oddSent where
  hlBytes := by decide
  start := by decide
  isLast := by decide
  room := by decide
  long := by decide
  short := by decide
  calls := ⟨6, 0#32, ip4Frag_oddPacket⟩

theorem frag_reass_short_odd : ∃ answers t s',
    Machine.run reassStep [.reass oddSent[0] 0#32, .reass oddSent[1] 0#32] Reass.init
        = .ok (answers ++ [some t], s')
      ∧ (∀ answer ∈ answers, answer = none)
      ∧ Telegram (oddPacket.body.data.take 16) [.reass oddSent[0] 0#32, .reass oddSent[1] 0#32] t
      ∧ t.hdr.key = oddPacket.hdr.key := by
  refine frag_reass_short oddPacket 30 2 oddSent [] [.reass oddSent[0] 0#32] [] Reass.init oddSent[1]
    oddSent[1] 0#32 sentBy_oddPacket (by decide) (by simp) rfl (by simp [Reass.init]) (by decide)
    (by decide) ?_ (by decide) (List.mem_cons_of_mem _ (List.mem_cons_self ..)) (.refl (by decide))
    (by decide) (by decide) (by decide)
  simp only [List.mem_cons, List.not_mem_nil, or_false]
  rintro e rfl
  exact ⟨⟨_, List.mem_cons_self .., .refl (by decide)⟩, by decide⟩

end Lwip
