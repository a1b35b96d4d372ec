import McuDrivers.Lwip.ReassQueue

set_option autoImplicit false

/-! # lwIP: what a call of the reassembly does

The invariant of the datagrams that are being put together, and what each function does to a state
where it holds: which datagrams it frees, and what becomes of the one that a fragment belongs to. -/

namespace Lwip

open Span

/-- What tells one datagram from another. -/
def IpHdr.key (h : IpHdr) : Eth.Word × Eth.Word × BitVec 16 := (h.src, h.dest, h.id)

theorem addressesAndIdMatch_iff (a b : IpHdr) : addressesAndIdMatch a b ↔ a.key = b.key := by
  simp [addressesAndIdMatch, IpHdr.key]

structure ReassHelper.Ok (q : ReassHelper) : Prop where
  length : q.stop = q.start + q.pbufs.data.length
  stop_lt : q.stop < 65536
  pbufs : q.pbufs ≠ []

structure ReassData.Ok (ipr : ReassData) : Prop where
  ordered : Ordered ipr.p
  helpers : ∀ q ∈ ipr.p, q.Ok
  timer : ipr.timer ≤ ipReassMaxage
  /-- The length is known, and that of a packet. -/
  last : ipr.lastSeen → ipr.datagramLen + ipHlen ≤ 0xffff ∧ ∃ q ∈ ipr.p, q.stop = ipr.datagramLen

/-- How many pbufs are queued. -/
def clenSum (l : List ReassData) : Nat := (l.map ReassData.clen).sum

/-- The invariant of the list. -/
structure DatagramsOk (l : List ReassData) : Prop where
  each : ∀ ipr ∈ l, ipr.Ok
  keys : l.Pairwise fun a b => a.iphdr.key ≠ b.iphdr.key

structure Reass.Inv (s : Reass) : Prop where
  datagrams : DatagramsOk s.datagrams
  count : s.pbufcount = clenSum s.datagrams
  pbufs : s.pbufcount ≤ ipReassMaxPbufs
  entries : s.datagrams.length ≤ mempNumReassdata
  nonempty : ∀ ipr ∈ s.datagrams, ipr.p ≠ []

@[simp] theorem clenSum_nil : clenSum [] = 0 := rfl

@[simp] theorem clenSum_cons (ipr : ReassData) (l : List ReassData) :
    clenSum (ipr :: l) = ipr.clen + clenSum l := rfl

@[simp] theorem clenSum_append (l m : List ReassData) : clenSum (l ++ m) = clenSum l + clenSum m := by
  simp [clenSum]

theorem Reass.init_inv : Reass.init.Inv where
  datagrams := ⟨by simp [Reass.init], by simp [Reass.init]⟩
  count := rfl
  pbufs := Nat.zero_le _
  entries := Nat.zero_le _
  nonempty := by simp [Reass.init]

theorem DatagramsOk.sublist {l m : List ReassData} (hl : DatagramsOk l) (hsub : m.Sublist l) :
    DatagramsOk m where
  each ipr hipr := hl.each ipr (hsub.subset hipr)
  keys := hl.keys.sublist hsub

/-- One datagram may change, as long as it stays the same datagram. -/
theorem DatagramsOk.replace {l₁ l₂ : List ReassData} {a b : ReassData}
    (hl : DatagramsOk (l₁ ++ a :: l₂)) (hb : b.Ok) (hkey : b.iphdr.key = a.iphdr.key) :
    DatagramsOk (l₁ ++ b :: l₂) where
  each ipr hipr := by
    rcases List.mem_append.mp hipr with h | h
    · exact hl.each ipr (List.mem_append_left _ h)
    · rcases List.mem_cons.mp h with rfl | h
      · exact hb
      · exact hl.each ipr (List.mem_append_right _ (List.mem_cons_of_mem _ h))
  keys := by
    have hkeys := hl.keys
    rw [List.pairwise_append, List.pairwise_cons] at hkeys ⊢
    obtain ⟨hfirst, ⟨hhead, htail⟩, hacross⟩ := hkeys
    refine ⟨hfirst, ⟨fun c hc => ?_, htail⟩, fun x hx y hy => ?_⟩
    · rw [hkey]
      exact hhead c hc
    · rcases List.mem_cons.mp hy with rfl | hy
      · rw [hkey]
        exact hacross x hx a (List.mem_cons_self ..)
      · exact hacross x hx y (List.mem_cons_of_mem _ hy)

/-! ## Freeing datagrams -/

/-- `s'` is `s` with some of its datagrams freed. -/
structure Freed (s s' : Reass) : Prop where
  inv : s'.Inv
  sublist : s'.datagrams.Sublist s.datagrams

theorem Freed.trans {s s' s'' : Reass} (h : Freed s s') (h' : Freed s' s'') : Freed s s'' :=
  ⟨h'.inv, h'.sublist.trans h.sublist⟩

theorem ipReassFreeCompleteDatagram_spec {s : Reass} {l₁ l₂ : List ReassData} {ipr : ReassData}
    (hs : s.Inv) (hsplit : s.datagrams = l₁ ++ ipr :: l₂) :
    ∃ s', ipReassFreeCompleteDatagram s l₁.length = .ok (ipr.clen, s')
      ∧ s'.datagrams = l₁ ++ l₂ ∧ Freed s s' := by
  have hget : s.datagrams[l₁.length]? = some ipr := by simp [hsplit]
  have herase : s.datagrams.eraseIdx l₁.length = l₁ ++ l₂ := by
    rw [hsplit, List.eraseIdx_append_of_length_le (Nat.le_refl _)]
    simp
  have hcount := hs.count
  have hpbufs := hs.pbufs
  have hentries := hs.entries
  have hne := hs.nonempty ipr (by simp [hsplit])
  rw [hsplit, clenSum_append, clenSum_cons] at hcount
  rw [hsplit, List.length_append, List.length_cons] at hentries
  have hsub : (l₁ ++ l₂).Sublist s.datagrams := by
    rw [hsplit]
    exact List.sublist_append_iff.mpr ⟨_, _, rfl, List.Sublist.refl _, List.sublist_cons_self _ _⟩
  obtain ⟨iprh, rest, hp⟩ := List.exists_cons_of_ne_nil hne
  have hfits : ipr.clen ≤ 0xffff := by
    unfold ipReassMaxPbufs at hpbufs
    omega
  have hle : ipr.clen ≤ s.pbufcount := by omega
  refine ⟨{
      datagrams := s.datagrams.eraseIdx l₁.length
      pbufcount := s.pbufcount - ipr.clen
      timeExceeded := s.timeExceeded
        ++ if iprh.start = 0 then [⟨ipr.iphdr, iprh.pbufs⟩] else [] }, ?_, herase, ?_, ?_⟩
  · simp only [ipReassFreeCompleteDatagram, hget, hp, lwipAssert, if_pos hfits, if_pos hle, bind,
      Except.bind]
  · refine ⟨?_, ?_, ?_, ?_, ?_⟩
    · rw [herase]
      exact hs.datagrams.sublist hsub
    · rw [herase, clenSum_append]
      dsimp only
      omega
    · dsimp only
      omega
    · rw [herase, List.length_append]
      omega
    · intro r hr
      rw [herase] at hr
      exact hs.nonempty r (hsub.subset hr)
  · rw [herase]
    exact hsub

/-- A second of a datagram's life. -/
def ReassData.tick (ipr : ReassData) : ReassData := { ipr with timer := ipr.timer - 1 }

theorem ReassData.Ok.tick {ipr : ReassData} (h : ipr.Ok) : ipr.tick.Ok where
  ordered := h.ordered
  helpers := h.helpers
  timer := Nat.le_trans (Nat.sub_le _ _) h.timer
  last := h.last

/-- The datagrams that are left a second later. -/
def survivors (l : List ReassData) : List ReassData :=
  (l.filter fun r => 0 < r.timer).map ReassData.tick

/-- The walk frees the datagrams whose time is over, and takes a second from the others. -/
theorem ipReassTmrFrom_spec {s : Reass} (l₁ : List ReassData) {l₂ : List ReassData} (hs : s.Inv)
    (hsplit : s.datagrams = l₁ ++ l₂) :
    ∃ s', ipReassTmrFrom l₂.length l₁.length s = .ok s'
      ∧ s'.datagrams = l₁ ++ survivors l₂ ∧ s'.Inv := by
  induction l₂ generalizing s l₁ with
  | nil => exact ⟨s, rfl, by simpa [survivors] using hsplit, hs⟩
  | cons r l₂ ih =>
    have hget : s.datagrams[l₁.length]? = some r := by simp [hsplit]
    rw [List.length_cons, ipReassTmrFrom, hget]
    dsimp only
    by_cases htimer : 0 < r.timer
    · rw [if_pos htimer]
      have hset : s.datagrams.set l₁.length r.tick = l₁ ++ [r.tick] ++ l₂ := by
        rw [hsplit]
        simp
      have hok := hs.datagrams
      rw [hsplit] at hok
      have hinv : ({ s with datagrams := s.datagrams.set l₁.length r.tick } : Reass).Inv := by
        refine ⟨?_, ?_, hs.pbufs, ?_, ?_⟩
        · rw [hset, List.append_assoc]
          exact hok.replace (hok.each r (by simp)).tick rfl
        · rw [hset, hs.count, hsplit]
          simp
          rfl
        · rw [List.length_set]
          exact hs.entries
        · intro ipr hipr
          rw [hset] at hipr
          have hne := hs.nonempty
          rw [hsplit] at hne
          simp only [List.append_assoc, List.mem_append, List.mem_cons, List.not_mem_nil,
            or_false] at hipr hne
          rcases hipr with h | rfl | h
          · exact hne ipr (.inl h)
          · exact hne r (.inr (.inl rfl))
          · exact hne ipr (.inr (.inr h))
      obtain ⟨s', hrun, hdatagrams, hinv'⟩ := ih (l₁ ++ [r.tick]) hinv hset
      rw [List.length_append, List.length_singleton] at hrun
      refine ⟨s', hrun, ?_, hinv'⟩
      rw [hdatagrams]
      simp [survivors, htimer]
    · rw [if_neg htimer]
      obtain ⟨s₁, hfree, hs₁, hfreed⟩ := ipReassFreeCompleteDatagram_spec hs hsplit
      obtain ⟨s', hrun, hdatagrams, hinv'⟩ := ih l₁ hfreed.inv hs₁
      refine ⟨s', ?_, ?_, hinv'⟩
      · rw [hfree]
        exact hrun
      · rw [hdatagrams]
        simp [survivors, htimer]

theorem ipReassTmr_spec {s : Reass} (hs : s.Inv) :
    ∃ s', ipReassTmr s = .ok s' ∧ s'.datagrams = survivors s.datagrams ∧ s'.Inv :=
  ipReassTmrFrom_spec [] hs rfl

/-! ## Making room -/

theorem findOldest_cons (fraghdr : IpHdr) (r : ReassData) (l : List ReassData) (i : Nat)
    (oldest : Option (Nat × Nat)) :
    findOldest fraghdr (r :: l) i oldest
      = if addressesAndIdMatch r.iphdr fraghdr then findOldest fraghdr l (i + 1) oldest
        else if ∀ held ∈ oldest, r.timer ≤ held.2 then
          findOldest fraghdr l (i + 1) (some (i, r.timer))
        else findOldest fraghdr l (i + 1) oldest := by
  cases oldest with
  | none => simp [findOldest]
  | some held => simp [findOldest]

/-- The search answers the place of a datagram that the fragment does not belong to, unless there is
    none. -/
theorem findOldest_spec (fraghdr : IpHdr) (l : List ReassData) (i : Nat)
    (oldest : Option (Nat × Nat)) :
    (findOldest fraghdr l i oldest = oldest ∧ (oldest = none → ∀ r ∈ l, r.iphdr.key = fraghdr.key))
      ∨ ∃ l₁ r l₂, l = l₁ ++ r :: l₂ ∧ r.iphdr.key ≠ fraghdr.key
        ∧ findOldest fraghdr l i oldest = some (i + l₁.length, r.timer) := by
  induction l generalizing i oldest with
  | nil => exact .inl ⟨rfl, by simp⟩
  | cons r l ih =>
    have hshift : ∀ oldest', (∃ l₁ r' l₂, l = l₁ ++ r' :: l₂ ∧ r'.iphdr.key ≠ fraghdr.key
          ∧ findOldest fraghdr l (i + 1) oldest' = some (i + 1 + l₁.length, r'.timer)) →
        ∃ l₁ r' l₂, r :: l = l₁ ++ r' :: l₂ ∧ r'.iphdr.key ≠ fraghdr.key
          ∧ findOldest fraghdr l (i + 1) oldest' = some (i + l₁.length, r'.timer) := by
      rintro oldest' ⟨l₁, r', l₂, rfl, hkey, hfound⟩
      refine ⟨r :: l₁, r', l₂, rfl, hkey, ?_⟩
      rw [hfound, List.length_cons, Nat.add_right_comm, Nat.add_assoc]
    -- the search goes on with `r` for the oldest, or with what it had
    have htake : r.iphdr.key ≠ fraghdr.key →
        ∃ l₁ r' l₂, r :: l = l₁ ++ r' :: l₂ ∧ r'.iphdr.key ≠ fraghdr.key
          ∧ findOldest fraghdr l (i + 1) (some (i, r.timer)) = some (i + l₁.length, r'.timer) := by
      intro hkey
      rcases ih (i + 1) (some (i, r.timer)) with ⟨hsame, _⟩ | hfound
      · exact ⟨[], r, l, rfl, hkey, hsame⟩
      · exact hshift _ hfound
    rw [findOldest_cons]
    by_cases hmatch : addressesAndIdMatch r.iphdr fraghdr
    · rw [if_pos hmatch]
      rcases ih (i + 1) oldest with ⟨hsame, hall⟩ | hfound
      · refine .inl ⟨hsame, fun hnone r' hr' => ?_⟩
        rcases List.mem_cons.mp hr' with rfl | hr'
        · exact (addressesAndIdMatch_iff _ _).mp hmatch
        · exact hall hnone r' hr'
      · exact .inr (hshift _ hfound)
    · rw [if_neg hmatch]
      have hkey : r.iphdr.key ≠ fraghdr.key := fun h => hmatch ((addressesAndIdMatch_iff _ _).mpr h)
      split
      · exact .inr (htake hkey)
      case isFalse hyounger =>
        rcases ih (i + 1) oldest with ⟨hsame, _⟩ | hfound
        · refine .inl ⟨hsame, fun hnone => absurd ?_ hyounger⟩
          simp [hnone]
        · exact .inr (hshift _ hfound)

/-- The loop frees other datagrams, until enough pbufs are free or there is no other. -/
theorem removeOldestLoop_spec (fraghdr : IpHdr) (pbufsNeeded : Nat) {s : Reass} {rounds : Nat}
    (pbufsFreed : Nat) (hs : s.Inv) (hrounds : s.datagrams.length ≤ rounds) :
    ∃ freed s', removeOldestLoop fraghdr pbufsNeeded rounds pbufsFreed s = .ok (freed, s')
      ∧ Freed s s' ∧ (∀ r ∈ s.datagrams, r.iphdr.key = fraghdr.key → r ∈ s'.datagrams)
      ∧ s'.pbufcount + freed = s.pbufcount + pbufsFreed
      ∧ (pbufsNeeded ≤ freed ∨ ∀ r ∈ s'.datagrams, r.iphdr.key = fraghdr.key) := by
  induction rounds generalizing s pbufsFreed with
  | zero =>
    have hnone : s.datagrams = [] := List.eq_nil_of_length_eq_zero (Nat.le_zero.mp hrounds)
    refine ⟨pbufsFreed, s, rfl, ⟨hs, List.Sublist.refl _⟩, fun r hr _ => hr, rfl, .inr ?_⟩
    simp [hnone]
  | succ rounds ih =>
    rw [removeOldestLoop]
    rcases findOldest_spec fraghdr s.datagrams 0 none with ⟨hnone, hall⟩ | ⟨l₁, r, l₂, hsplit, hkey, hfound⟩
    · rw [hnone]
      exact ⟨pbufsFreed, s, rfl, ⟨hs, List.Sublist.refl _⟩, fun r hr _ => hr, rfl, .inr (hall rfl)⟩
    · obtain ⟨s₁, hfree, hs₁, hfreed⟩ := ipReassFreeCompleteDatagram_spec hs hsplit
      have hkept : ∀ r' ∈ s.datagrams, r'.iphdr.key = fraghdr.key → r' ∈ s₁.datagrams := by
        intro r' hr' hkey'
        rw [hsplit] at hr'
        rw [hs₁]
        simp only [List.mem_append, List.mem_cons] at hr' ⊢
        rcases hr' with h | rfl | h
        · exact .inl h
        · exact absurd hkey' hkey
        · exact .inr h
      have hcount : s₁.pbufcount + r.clen = s.pbufcount := by
        rw [hfreed.inv.count, hs.count, hs₁, hsplit]
        simp only [clenSum_append, clenSum_cons]
        omega
      rw [hfound, Nat.zero_add]
      simp only [hfree, bind, Except.bind]
      split
      · obtain ⟨freed, s', hrun, hfreed', hkept', hcount', hdone⟩ :=
          ih (pbufsFreed + r.clen) hfreed.inv (by
            rw [hs₁]
            rw [hsplit] at hrounds
            simp only [List.length_append, List.length_cons] at hrounds ⊢
            omega)
        exact ⟨freed, s', hrun, hfreed.trans hfreed',
          fun r' hr' hkey' => hkept' r' (hkept r' hr' hkey') hkey', by omega, hdone⟩
      case isFalse hstop =>
        refine ⟨pbufsFreed + r.clen, s₁, rfl, hfreed, hkept, by omega, ?_⟩
        -- one other datagram was left, and that has been freed
        by_cases henough : pbufsNeeded ≤ pbufsFreed + r.clen
        · exact .inl henough
        · refine .inr fun r' hr' => ?_
          have hfew : ¬ 1 < s.datagrams.countP fun r => ¬ addressesAndIdMatch r.iphdr fraghdr :=
            fun h => hstop ⟨Nat.not_le.mp henough, h⟩
          by_contra hkey'
          have hone : 0 < s₁.datagrams.countP fun r => ¬ addressesAndIdMatch r.iphdr fraghdr :=
            List.countP_pos_iff.mpr ⟨r', hr', by simpa [addressesAndIdMatch_iff] using hkey'⟩
          rw [hs₁] at hone
          rw [hsplit] at hfew
          simp only [List.countP_append, List.countP_cons, addressesAndIdMatch_iff, hkey,
            not_false_eq_true, decide_true, if_true] at hfew hone
          omega

theorem ipReassRemoveOldestDatagram_spec (fraghdr : IpHdr) (pbufsNeeded : Nat) {s : Reass}
    (hs : s.Inv) :
    ∃ freed s', ipReassRemoveOldestDatagram s fraghdr pbufsNeeded = .ok (freed, s')
      ∧ Freed s s' ∧ (∀ r ∈ s.datagrams, r.iphdr.key = fraghdr.key → r ∈ s'.datagrams)
      ∧ s'.pbufcount + freed = s.pbufcount := by
  obtain ⟨freed, s', hrun, hfreed, hkept, hcount, _⟩ :=
    removeOldestLoop_spec fraghdr pbufsNeeded 0 hs (Nat.le_refl _)
  exact ⟨freed, s', hrun, hfreed, hkept, hcount⟩

end Lwip
