import McuDrivers.Library.Spans
import McuDrivers.Lwip.Ip4Frag

set_option autoImplicit false

/-! # lwIP: the queue of one datagram

The fragments of a datagram that have arrived are kept in the order of their places, none meeting
another. The search of `ip_reass_chain_frag_into_datagram_and_validate` finds the place of a new one
there, if it meets none, and says whether there is a hole before it. -/

namespace Lwip

open Span

instance : Span ReassHelper := ⟨ReassHelper.start, ReassHelper.stop⟩

/-- What a packet becomes when it is queued. -/
def IpPacket.helper (p : IpPacket) : ReassHelper :=
  { start := p.hdr.offsetBytes
    stop := p.hdr.offsetBytes + (p.hdr.lenBytes - p.hdr.hlBytes)
    pbufs := p.body }

/-- No holes up to here: `prev` is what the walk has passed last. -/
def noHolesFrom : (prev : Option ReassHelper) → List ReassHelper → Bool
  | none, [] => true
  | none, iprh :: q => noHoles iprh q
  | some prev, q => noHoles prev q

theorem noHoles_append (prev iprh : ReassHelper) (before behind : List ReassHelper) :
    noHoles prev (before ++ iprh :: behind) = (noHoles prev (before ++ [iprh]) && noHoles iprh behind) := by
  induction before generalizing prev with
  | nil => simp [noHoles]
  | cons b before ih => simp [noHoles, ih, Bool.and_assoc]

theorem noHoles_iff_joined (prev : ReassHelper) (q : List ReassHelper) :
    noHoles prev q = true ↔ Adjoined prev.stop q := by
  induction q generalizing prev with
  | nil => simp [noHoles, Adjoined]
  | cons iprh q ih =>
    simp only [noHoles, Adjoined, Bool.and_eq_true, beq_iff_eq, ih]
    exact and_congr_left' eq_comm

/-! ## One step of the search -/

section Step

variable {iprh tmp : ReassHelper} {prev : Option ReassHelper} {rest : List ReassHelper} {valid : Bool}

/-- The fragment ends where `tmp` starts, or before: its place is found. -/
theorem findPlace_here (hprev : ∀ a ∈ prev, Before a iprh) (htmp : Before iprh tmp) :
    findPlace iprh prev (tmp :: rest) valid
      = .ok (some ([], tmp :: rest, valid && noHolesFrom prev [iprh])) := by
  have hstart : iprh.start < tmp.start := htmp.1
  have hstop : ¬ tmp.start < iprh.stop := Nat.not_lt.mpr htmp.2
  cases prev with
  | none => simp [findPlace, hstart, hstop, noHolesFrom, noHoles]
  | some a =>
    have ha : ¬ iprh.start < a.stop := Nat.not_lt.mpr (hprev a rfl).2
    simp [findPlace, hstart, hstop, ha, noHolesFrom, noHoles]

/-- The fragment meets `tmp`, or starts where it does: it is thrown away. -/
theorem findPlace_meets (hnot : ¬ Before tmp iprh) (hnot' : ¬ Before iprh tmp) :
    findPlace iprh prev (tmp :: rest) valid = .ok none := by
  have hover : iprh.start < tmp.start → tmp.start < iprh.stop := by
    intro hlt
    exact Nat.not_le.mp fun hle => hnot' ⟨hlt, hle⟩
  have hover' : tmp.start < iprh.start → iprh.start < tmp.stop := by
    intro hlt
    exact Nat.not_le.mp fun hle => hnot ⟨hlt, hle⟩
  rcases Nat.lt_trichotomy iprh.start tmp.start with hlt | heq | hgt
  · have hstop := hover hlt
    cases prev with
    | none => simp [findPlace, hlt, hstop]
    | some a => simp [findPlace, hlt, hstop]
  · cases prev with
    | none => simp [findPlace, heq]
    | some a => simp [findPlace, heq]
  · have hstop := hover' hgt
    have hnlt : ¬ iprh.start < tmp.start := Nat.lt_asymm hgt
    have hne : ¬ iprh.start = tmp.start := Nat.ne_of_gt hgt
    cases prev with
    | none => simp [findPlace, hnlt, hne, hstop]
    | some a => simp [findPlace, hnlt, hne, hstop]

/-- The search passes `tmp`. -/
theorem findPlace_behind (htmp : Before tmp iprh) :
    findPlace iprh prev (tmp :: rest) valid
      = (findPlace iprh (some tmp) rest (valid && noHolesFrom prev [tmp])).map
        fun place => place.map fun (before, behind, valid) => (tmp :: before, behind, valid) := by
  have hnlt : ¬ iprh.start < tmp.start := Nat.lt_asymm htmp.1
  have hne : ¬ iprh.start = tmp.start := Nat.ne_of_gt htmp.1
  have hstop : ¬ iprh.start < tmp.stop := Nat.not_lt.mpr htmp.2
  cases prev with
  | none =>
    simp only [findPlace, noHolesFrom, noHoles, Bool.and_true]
    rw [if_neg hnlt, if_neg hne, if_neg hstop]
    rfl
  | some a =>
    simp only [findPlace, noHolesFrom, noHoles, Bool.and_true]
    rw [if_neg hnlt, if_neg hne, if_neg hstop]
    rfl

theorem noHolesFrom_cons (prev : Option ReassHelper) (tmp : ReassHelper) (q : List ReassHelper) :
    noHolesFrom prev (tmp :: q) = (noHolesFrom prev [tmp] && noHolesFrom (some tmp) q) := by
  cases prev with
  | none => simp [noHolesFrom, noHoles]
  | some a => simp [noHolesFrom, noHoles]

end Step

/-- What the search answers: the place of the fragment, if it meets none of those that are queued. -/
theorem findPlace_spec (iprh : ReassHelper) {prev : Option ReassHelper} {q : List ReassHelper}
    (valid : Bool) (hprev : ∀ a ∈ prev, Before a iprh) (hq : Ordered q) :
    (¬ Fits iprh q ∧ findPlace iprh prev q valid = .ok none)
      ∨ ∃ before behind, q = before ++ behind ∧ (∀ b ∈ before, Before b iprh)
        ∧ (∀ c ∈ behind, Before iprh c)
        ∧ findPlace iprh prev q valid
          = .ok (some (before, behind, valid && noHolesFrom prev (before ++ [iprh]))) := by
  induction q generalizing prev valid with
  | nil =>
    refine .inr ⟨[], [], rfl, by simp, by simp, ?_⟩
    cases prev with
    | none => simp [findPlace, noHolesFrom, noHoles]
    | some a =>
      have ha : a.stop ≤ iprh.start := (hprev a rfl).2
      simp [findPlace, lwipAssert, ha, noHolesFrom, noHoles, bind, Except.bind]
  | cons tmp rest ih =>
    obtain ⟨hhead, htail⟩ := List.pairwise_cons.mp hq
    by_cases hhere : Before iprh tmp
    · refine .inr ⟨[], tmp :: rest, rfl, by simp, ?_, findPlace_here hprev hhere⟩
      intro c hc
      rcases List.mem_cons.mp hc with rfl | hc
      · exact hhere
      · have hc' := (hhead c hc).1
        exact ⟨Nat.lt_trans hhere.1 hc', Nat.le_trans hhere.2 (Nat.le_of_lt hc')⟩
    · by_cases hpassed : Before tmp iprh
      · have hnext : ∀ a ∈ some tmp, Before a iprh := by
          rintro a ⟨⟩
          exact hpassed
        rw [findPlace_behind hpassed]
        rcases ih (valid && noHolesFrom prev [tmp]) hnext htail with
          ⟨hnot, hnone⟩ | ⟨before, behind, rfl, hbefore, hbehind, hfound⟩
        · refine .inl ⟨fun hfits => hnot fun b hb => hfits b (List.mem_cons_of_mem _ hb), ?_⟩
          rw [hnone]
          rfl
        · refine .inr ⟨tmp :: before, behind, rfl, ?_, hbehind, ?_⟩
          · intro b hb
            rcases List.mem_cons.mp hb with rfl | hb
            · exact hpassed
            · exact hbefore b hb
          · rw [hfound, List.cons_append, noHolesFrom_cons prev tmp (before ++ [iprh]), ← Bool.and_assoc]
            rfl
      · refine .inl ⟨fun hfits => ?_, findPlace_meets hpassed hhere⟩
        rcases hfits tmp (List.mem_cons_self ..) with h | h
        · exact hpassed h
        · exact hhere h

/-! ## Chaining a fragment into the queue -/

/-- Some fragments are joined from the start of the datagram on, if the walks before and behind `iprh`
    find no hole and the first one starts at 0. -/
theorem adjoined_iff (iprh : ReassHelper) (before behind : List ReassHelper) :
    (noHolesFrom none (before ++ [iprh])
        && ((before ++ iprh :: behind).head?.map ReassHelper.start == some 0)
        && noHoles iprh behind) = true
      ↔ Adjoined 0 (before ++ iprh :: behind) := by
  rw [Bool.and_eq_true, Bool.and_eq_true, beq_iff_eq]
  cases before with
  | nil =>
    simp only [List.nil_append, Adjoined, noHolesFrom, noHoles, noHoles_iff_joined, List.head?_cons,
      Option.map_some, Option.some.injEq, true_and]
    rfl
  | cons b before =>
    have hwalk := noHoles_append b iprh before behind
    simp only [List.cons_append, Adjoined, noHolesFrom, List.head?_cons, Option.map_some,
      Option.some.injEq]
    rw [show stop b = b.stop from rfl, ← noHoles_iff_joined, hwalk, Bool.and_eq_true]
    constructor
    · rintro ⟨⟨hbefore, hstart⟩, hbehind⟩
      exact ⟨hstart, hbefore, hbehind⟩
    · rintro ⟨hstart, hbefore, hbehind⟩
      exact ⟨⟨hbefore, hstart⟩, hbehind⟩

/-- `l` is the queue of `ipr` with `iprh` in its place. -/
structure Enqueued (ipr : ReassData) (iprh : ReassHelper) (l : List ReassHelper) : Prop where
  perm : l.Perm (iprh :: ipr.p)
  ordered : Ordered l

theorem IpHdr.offsetBytes_lt (h : IpHdr) : h.offsetBytes < 65536 := by
  have hmask : (lwipHtons h.offset &&& ipOffmask).toNat ≤ 0x1fff := by
    rw [BitVec.toNat_and]
    exact Nat.and_le_right
  unfold IpHdr.offsetBytes
  omega

/-- The last fragment of the datagram has been queued. -/
def ReassData.lastSeen (ipr : ReassData) : Prop := ipr.flags &&& ipReassFlagLastfrag ≠ 0#8

instance (ipr : ReassData) : Decidable ipr.lastSeen := inferInstanceAs (Decidable (_ ≠ _))

/-- A fragment is thrown away when it meets another one or ends too far. Otherwise it is queued, and
    the datagram is finished when its last fragment is known and the queue is joined from its start. -/
theorem ipReassChainFrag_spec {ipr : ReassData} {p : IpPacket} {isLast : Bool}
    (hordered : Ordered ipr.p) (hlen : p.hdr.hlBytes ≤ p.hdr.lenBytes)
    (hmore : isLast = true ∨ ipr.lastSeen → p.hdr.offsetBytes = 0 → ipr.p ≠ []) :
    (¬ (p.helper.stop < 65536 ∧ Fits p.helper ipr.p)
        ∧ ipReassChainFrag ipr p isLast = .ok (.pbufDropped, ipr))
      ∨ ∃ l, Enqueued ipr p.helper l ∧ p.helper.stop < 65536
        ∧ ipReassChainFrag ipr p isLast
          = .ok (if (isLast = true ∨ ipr.lastSeen) ∧ Adjoined 0 l then .telegramFinished else .pbufQueued,
              { ipr with p := l }) := by
  have hoffset := p.hdr.offsetBytes_lt
  have hlen_lt : p.hdr.lenBytes < 65536 := (lwipHtons p.hdr.len).isLt
  have hstop : p.helper.stop = p.hdr.offsetBytes + (p.hdr.lenBytes - p.hdr.hlBytes) := rfl
  simp only [ipReassChainFrag]
  rw [if_neg (Nat.not_lt.mpr hlen)]
  by_cases hfar : p.helper.stop < 65536
  · have hu16 : u16T (p.hdr.offsetBytes + (p.hdr.lenBytes - p.hdr.hlBytes)) = p.helper.stop :=
      Nat.mod_eq_of_lt hfar
    rw [hu16, if_neg (by omega)]
    rcases @findPlace_spec p.helper none _ true (by simp) hordered with
      ⟨hnot, hnone⟩ | ⟨before, behind, hsplit, hbefore, hbehind, hfound⟩
    · refine .inl ⟨fun h => hnot h.2, ?_⟩
      rw [show ReassHelper.mk p.hdr.offsetBytes p.helper.stop p.body = p.helper from rfl, hnone]
      rfl
    · have henqueued : Enqueued ipr p.helper (before ++ p.helper :: behind) := by
        refine ⟨?_, ?_⟩
        · rw [hsplit]
          exact List.perm_middle
        · rw [hsplit] at hordered
          exact hordered.insert hbefore hbehind
      refine .inr ⟨before ++ p.helper :: behind, henqueued, hfar, ?_⟩
      rw [show ReassHelper.mk p.hdr.offsetBytes p.helper.stop p.body = p.helper from rfl, hfound]
      simp only [bind, Except.bind, Bool.true_and]
      have hjoined := adjoined_iff p.helper before behind
      by_cases hlast : isLast = true ∨ ipr.lastSeen
      · rw [if_pos (show isLast = true ∨ ipr.flags &&& ipReassFlagLastfrag ≠ 0#8 from hlast)]
        by_cases hall : Adjoined 0 (before ++ p.helper :: behind)
        · have hothers : before ≠ [] ∨ behind ≠ [] := by
            by_contra hnone
            obtain ⟨rfl, rfl⟩ := not_or.mp hnone |>.imp not_not.mp not_not.mp
            exact hmore hlast hall.1 hsplit
          rw [if_pos (hjoined.mpr hall), if_pos ⟨hlast, hall⟩, lwipAssert, if_pos hothers]
        · rw [if_neg (fun h => hall (hjoined.mp h)), if_neg fun h => hall h.2]
      · rw [if_neg (show ¬ (isLast = true ∨ ipr.flags &&& ipReassFlagLastfrag ≠ 0#8) from hlast),
          if_neg fun h => hlast h.1]
  · refine .inl ⟨fun h => hfar h.1, ?_⟩
    have hover : u16T (p.hdr.offsetBytes + (p.hdr.lenBytes - p.hdr.hlBytes)) < p.hdr.offsetBytes := by
      unfold u16T
      omega
    rw [if_pos hover]

end Lwip
