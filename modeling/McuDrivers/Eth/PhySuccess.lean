import McuDrivers.Eth.PhyTruth

set_option autoImplicit false

/-! # Ethernet: what `ETH_SUCCESS` does say

But for the end of the reset, the result can be relied on: the writes were over by one of their polls,
and with auto-negotiation the link was seen, and then the end of the negotiation. -/

namespace Eth

variable {answers : Nat → MiiAnswer} {phyAddress phyReg phyValue bit : BitVec 16} {s s' u : PhyState}
  {init init' : EthInitType} {n k : Nat}

/-! ## Transactions so far -/

/-- All writes were over by one of their polls. -/
def PhyState.WritesCompleted (answers : Nat → MiiAnswer) (s : PhyState) : Prop :=
  ∀ k t, s.transactions[k]? = some t → t.IsWrite → (answers k).Completed phyWriteTo

/-- The `k`-th transaction is a completed read of the status register that showed `bit`. -/
structure PhyState.StatusShown (answers : Nat → MiiAnswer) (bit : BitVec 16) (s : PhyState) (k : Nat) :
    Prop where
  read : CompletedRead answers s.transactions phyBsr k
  data : (answers k).data.setWidth 16 &&& bit ≠ 0

/-- `u` is as `s` was, or later: no transaction is lost, and the writes between were completed. -/
structure PhyState.Later (answers : Nat → MiiAnswer) (s u : PhyState) : Prop where
  transactions : s.transactions <+: u.transactions
  writes : s.WritesCompleted answers → u.WritesCompleted answers

theorem PhyState.Later.refl (answers : Nat → MiiAnswer) (s : PhyState) : s.Later answers s :=
  ⟨List.prefix_refl _, id⟩

theorem PhyState.Later.trans (h : s.Later answers s') (h' : s'.Later answers u) : s.Later answers u :=
  ⟨h.transactions.trans h'.transactions, h'.writes ∘ h.writes⟩

theorem PhyState.StatusShown.lt (h : s.StatusShown answers bit k) : k < s.transactions.length := by
  obtain ⟨t, ht, -⟩ := h.read.reads
  exact (List.getElem?_eq_some_iff.mp ht).1

/-- What a read has shown stays so. -/
theorem PhyState.StatusShown.later (h : s.StatusShown answers bit k) (hlater : s.Later answers u) :
    u.StatusShown answers bit k := by
  obtain ⟨t, ht, hreads⟩ := h.read.reads
  refine ⟨⟨⟨t, ?_, hreads⟩, h.read.completed⟩, h.data⟩
  rw [← ht]
  exact (List.prefix_iff_getElem?.mp hlater.transactions k h.lt).trans
    (List.getElem?_eq_getElem h.lt).symm

/-! ## One transaction -/

theorem MiiAnswer.InTime.completed {budget : Nat} {a : MiiAnswer} (h : a.InTime budget) :
    a.Completed budget := by
  obtain ⟨j, hj, hbusy⟩ := h
  exact ⟨j, by omega, hbusy⟩

theorem later_start {addr : Word} (hlast : MiiTransaction.IsWrite ⟨addr, s.macmiidt⟩ →
    (answers s.transactions.length).Completed phyWriteTo) : s.Later answers (s.start addr) := by
  refine ⟨List.prefix_append _ _, fun hwrites k t ht hwrite => ?_⟩
  unfold PhyState.start at ht
  rcases Nat.lt_or_ge k s.transactions.length with hold | hnew
  · rw [List.getElem?_append_left hold] at ht
    exact hwrites k t ht hwrite
  · rw [List.getElem?_append_right hnew, List.getElem?_singleton] at ht
    split at ht
    · next hk =>
        obtain rfl : k = s.transactions.length := by omega
        cases ht
        exact hlast hwrite
    · cases ht

theorem later_read (answers : Nat → MiiAnswer) (phyAddress : BitVec 16)
    (hreg : phyReg = phyBsr ∨ phyReg = phySr) (s : PhyState) :
    s.Later answers (ethReadPhyRegister answers phyAddress phyReg s).2 := by
  rw [ethReadPhyRegister_snd]
  exact later_start fun hwrite => absurd hwrite (reads_readAddr phyAddress hreg _ _).1

/-- A write that is reported as done was completed. -/
theorem later_write (hdone : (ethWritePhyRegister answers phyAddress phyReg phyValue s).1 ≠ 0) :
    s.Later answers (ethWritePhyRegister answers phyAddress phyReg phyValue s).2 := by
  rw [Ne, ethWritePhyRegister_fst, not_not] at hdone
  rw [ethWritePhyRegister_snd]
  have hdata : s.Later answers { s with macmiidt := phyValue.setWidth 32 } :=
    ⟨List.prefix_refl _, id⟩
  exact hdata.trans (later_start fun _ => hdone.completed)

/-- A poll that finds the bit has read it. -/
theorem statusShown_of_poll (hmet : (statusPoll answers phyAddress bit s).1 = true) :
    (statusPoll answers phyAddress bit s).2.StatusShown answers bit s.transactions.length := by
  rw [(statusPoll_pollsNext answers phyAddress bit).met, MiiAnswer.shows, decide_eq_true_eq,
    MiiAnswer.shown] at hmet
  split at hmet
  · next hintime =>
      refine ⟨⟨⟨⟨readAddr phyAddress phyBsr s.macmiiaddr, s.macmiidt⟩, ?_, ?_⟩, ?_⟩, hmet⟩
      · unfold statusPoll
        rw [ethReadPhyRegister_snd]
        exact List.getElem?_concat_length
      · exact reads_readAddr phyAddress (Or.inl rfl) _ _
      · exact hintime.completed
  · exact absurd (BitVec.zero_and ..) hmet

/-! ## The waits -/

theorem later_resetWait (answers : Nat → MiiAnswer) (phyAddress : BitVec 16) (n : Nat) (s : PhyState) :
    s.Later answers (pollUpTo (resetPoll answers phyAddress) n 0 s).state :=
  pollUpTo_keeps (fun u h => h.trans (later_read answers phyAddress (Or.inl rfl) u)) n 0
    (PhyState.Later.refl answers s)

theorem later_statusWait (answers : Nat → MiiAnswer) (phyAddress bit : BitVec 16) (n : Nat)
    (s : PhyState) : s.Later answers (pollUpTo (statusPoll answers phyAddress bit) n 0 s).state :=
  pollUpTo_keeps (fun u h => h.trans (later_read answers phyAddress (Or.inl rfl) u)) n 0
    (PhyState.Later.refl answers s)

/-- A wait that does not give up has been shown the bit by one of its own reads. -/
theorem statusWait_shown
    (hleft : (pollUpTo (statusPoll answers phyAddress bit) phyReadTo 0 s).timeout ≠ phyReadTo) :
    ∃ k, s.transactions.length ≤ k ∧
      (pollUpTo (statusPoll answers phyAddress bit) phyReadTo 0 s).state.StatusShown answers bit k := by
  have hmet := (statusPoll_pollsNext answers phyAddress bit).met_of_timeout phyReadTo_pos hleft
  refine pollUpTo_met (P := fun u => s.Later answers u)
    (Q := fun u => ∃ k, s.transactions.length ≤ k ∧ u.StatusShown answers bit k)
    (fun u h => h.trans (later_read answers phyAddress (Or.inl rfl) u)) ?_ phyReadTo 0
    (PhyState.Later.refl answers s) hmet
  intro u hlater hfound
  exact ⟨u.transactions.length, hlater.transactions.length_le, statusShown_of_poll hfound⟩

/-! ## `ETH_Init` -/

/-- The link was seen, and later the end of the negotiation. -/
def PhyState.Negotiated (answers : Nat → MiiAnswer) (s : PhyState) : Prop :=
  ∃ k l, k < l ∧ s.StatusShown answers phyLinkedStatus k ∧ s.StatusShown answers phyAutoNegoComplete l

theorem ethNegotiate_success (h : (ethNegotiate answers init phyAddress s).1 = some init') :
    s.Later answers (ethNegotiate answers init phyAddress s).2 ∧
      (ethNegotiate answers init phyAddress s).2.Negotiated answers := by
  unfold ethNegotiate at h ⊢
  simp only at h ⊢
  split_ifs at h ⊢ with hlinked hwrite hcomplete
  obtain ⟨k, -, hk⟩ := statusWait_shown hlinked
  obtain ⟨l, hl, hcompleted⟩ := statusWait_shown hcomplete
  have hwritten := later_write hwrite
  have hwaited := later_statusWait answers phyAddress phyAutoNegoComplete phyReadTo
    (ethWritePhyRegister answers phyAddress phyBcr phyAutoNegotiation
      (pollUpTo (statusPoll answers phyAddress phyLinkedStatus) phyReadTo 0 s).state).2
  have hread := later_read answers phyAddress (Or.inr rfl)
    (pollUpTo (statusPoll answers phyAddress phyAutoNegoComplete) phyReadTo 0
      (ethWritePhyRegister answers phyAddress phyBcr phyAutoNegotiation
        (pollUpTo (statusPoll answers phyAddress phyLinkedStatus) phyReadTo 0 s).state).2).state
  have hkl : k < l := lt_of_lt_of_le (hk.later hwritten).lt hl
  exact ⟨(later_statusWait answers phyAddress phyLinkedStatus phyReadTo s).trans
      (hwritten.trans (hwaited.trans hread)),
    k, l, hkl, hk.later (hwritten.trans (hwaited.trans hread)), hcompleted.later hread⟩

theorem ethInitPhy_success (h : (ethInitPhy answers init phyAddress s).1 = some init') :
    s.Later answers (ethInitPhy answers init phyAddress s).2 ∧
      (init.autoNegotiation ≠ ethAutoNegotiationDisable →
        (ethInitPhy answers init phyAddress s).2.Negotiated answers) := by
  unfold ethInitPhy at h ⊢
  simp only at h ⊢
  split_ifs at h ⊢ with hwrite hreset hauto
  · obtain ⟨hlater, hnegotiated⟩ := ethNegotiate_success h
    have hbefore := (later_write hwrite).trans (later_resetWait answers phyAddress phyReadTo _)
    exact ⟨hbefore.trans hlater, fun _ => hnegotiated⟩
  · have hbefore := (later_write hwrite).trans (later_resetWait answers phyAddress phyReadTo _)
    refine ⟨hbefore.trans ?_, fun h => absurd h hauto⟩
    unfold ethForce at h ⊢
    simp only at h ⊢
    split_ifs at h ⊢ with hmode
    exact later_write hmode

/-- **`ETH_SUCCESS` says that the writes were completed and, with auto-negotiation, that the link was
    seen and then the end of the negotiation.** -/
theorem ethInit_success {hclk : Word} {r : EthMac} (hs : s.transactions = [])
    (h : (ethInit answers init phyAddress hclk s r).value = ethSuccess) :
    (ethInit answers init phyAddress hclk s r).phy.WritesCompleted answers ∧
      (init.autoNegotiation ≠ ethAutoNegotiationDisable →
        (ethInit answers init phyAddress hclk s r).phy.Negotiated answers) := by
  have hnone : PhyState.WritesCompleted answers
      { s with macmiiaddr := (s.macmiiaddr &&& ethMacmiiarCrMask) ||| ethClockRange hclk } := by
    intro k t ht
    rw [hs] at ht
    cases ht
  unfold ethInit at h ⊢
  simp only at h ⊢
  split at h
  · cases h
  · next init' u hphy =>
      have hsuccess := ethInitPhy_success (congrArg Prod.fst hphy)
      rw [hphy] at hsuccess
      exact ⟨hsuccess.1.writes hnone, hsuccess.2⟩

end Eth
