import McuDrivers.Eth.Phy

set_option autoImplicit false

/-! # Ethernet: what `ETH_Init` says about the PHY

Whether it gives up is a matter of five waits, each of which looks at the answers from where the one
before has ended. Of the reset it learns nothing: it waits for `PHY_Reset` in the status register, and a
read that times out looks to it like a bit that is clear. -/

namespace Eth

/-! ## What the result says -/

def MiiTransaction.IsWrite (t : MiiTransaction) : Prop := t.addr &&& ethMacmiiaddrMiiw ≠ 0

/-- A read of a register of the PHY. -/
def MiiTransaction.Reads (phyReg : BitVec 16) (t : MiiTransaction) : Prop :=
  ¬ t.IsWrite ∧ (t.addr &&& ethMacmiiaddrMii) >>> 6 = phyReg.setWidth 32

/-- The transaction was over by one of its polls. -/
def MiiAnswer.Completed (budget : Nat) (a : MiiAnswer) : Prop := ∃ j < budget, a.busy j = false

section PhyReady

variable (answers : Nat → MiiAnswer) (transactions : List MiiTransaction)

/-- The `k`-th transaction is a completed read of a register. -/
structure CompletedRead (phyReg : BitVec 16) (k : Nat) : Prop where
  reads : ∃ t, transactions[k]? = some t ∧ t.Reads phyReg
  completed : (answers k).Completed phyReadTo

/-- Everything that is asked of the PHY has happened. The reset is transaction 0. -/
structure PhyReady (autoNegotiation : Word) : Prop where
  writes : ∀ k t, transactions[k]? = some t → t.IsWrite → (answers k).Completed phyWriteTo
  reset : ∃ k, 0 < k ∧ CompletedRead answers transactions phyBcr k ∧
    (answers k).data.setWidth 16 &&& phyReset = 0
  linked : autoNegotiation ≠ ethAutoNegotiationDisable → ∃ k l, k < l ∧
    CompletedRead answers transactions phyBsr k ∧
    (answers k).data.setWidth 16 &&& phyLinkedStatus ≠ 0 ∧
    CompletedRead answers transactions phyBsr l ∧
    (answers l).data.setWidth 16 &&& phyAutoNegoComplete ≠ 0

end PhyReady

/-- `ETH_SUCCESS` where everything has happened, `ETH_ERROR` where something has not. -/
structure EthInitResult.Truthful (answers : Nat → MiiAnswer) (autoNegotiation : Word)
    (result : EthInitResult) : Prop where
  success : result.value = ethSuccess →
    PhyReady answers result.phy.transactions autoNegotiation
  error : result.value = ethError →
    ¬ PhyReady answers result.phy.transactions autoNegotiation

/-! ## The waits -/

/-- The transaction is seen to be over: by one of its polls, and not only by the last. -/
def MiiAnswer.InTime (budget : Nat) (a : MiiAnswer) : Prop := ∃ j < budget - 1, a.busy j = false

instance (budget : Nat) (a : MiiAnswer) : Decidable (a.InTime budget) :=
  inferInstanceAs (Decidable (∃ j < budget - 1, a.busy j = false))

/-- What a read comes to. -/
def MiiAnswer.shown (a : MiiAnswer) : BitVec 16 :=
  if a.InTime phyReadTo then a.data.setWidth 16 else 0

def MiiAnswer.showsReset (a : MiiAnswer) : Bool := decide (a.shown &&& phyReset = 0)

def MiiAnswer.shows (bit : BitVec 16) (a : MiiAnswer) : Bool := decide (a.shown &&& bit ≠ 0)

/-- The waits with auto-negotiation, from the `n`-th transaction on. -/
def NegotiationSeen (answers : Nat → MiiAnswer) (n : Nat) : Prop :=
  ∃ m, pollNext (MiiAnswer.shows phyLinkedStatus) answers (phyReadTo - 1) n = some m ∧
    (answers m).InTime phyWriteTo ∧
    pollNext (MiiAnswer.shows phyAutoNegoComplete) answers (phyReadTo - 1) (m + 1) ≠ none

/-- No wait of `ETH_Init` fails. -/
def NoWaitFails (answers : Nat → MiiAnswer) (autoNegotiation : Word) : Prop :=
  (answers 0).InTime phyWriteTo ∧
    ∃ n, pollNext MiiAnswer.showsReset answers phyReadTo 1 = some n ∧
      if autoNegotiation ≠ ethAutoNegotiationDisable then NegotiationSeen answers n
      else (answers n).InTime phyWriteTo

variable {answers : Nat → MiiAnswer} {phyAddress phyReg phyValue bit : BitVec 16} {s : PhyState}
  {init : EthInitType}

/-! ## One transaction -/

theorem phyReadTo_pos : 0 < phyReadTo := by decide

theorem phyWriteTo_pos : 0 < phyWriteTo := by decide

theorem miiWait_eq_iff {budget : Nat} (hpos : 0 < budget) (a : MiiAnswer) :
    miiWait budget a = budget ↔ ¬ a.InTime budget := by
  have hpolls : PollsNext (fun i => (!a.busy i, i + 1)) id (fun b => !b) a.busy :=
    ⟨fun _ => rfl, fun _ => rfl⟩
  unfold miiWait MiiAnswer.InTime
  rw [hpolls.timeout_eq_budget hpos, pollNext_eq_none]
  simp

theorem ethReadPhyRegister_fst (answers : Nat → MiiAnswer) (phyAddress phyReg : BitVec 16)
    (s : PhyState) : (ethReadPhyRegister answers phyAddress phyReg s).1 =
      (answers s.transactions.length).shown := by
  simp only [ethReadPhyRegister, miiWait_eq_iff phyReadTo_pos, MiiAnswer.shown]
  by_cases h : (answers s.transactions.length).InTime phyReadTo
  · rw [if_neg (not_not.mpr h), if_pos h]
  · rw [if_pos h, if_neg h]
    rfl

theorem ethWritePhyRegister_fst (answers : Nat → MiiAnswer)
    (phyAddress phyReg phyValue : BitVec 16) (s : PhyState) :
    (ethWritePhyRegister answers phyAddress phyReg phyValue s).1 = 0 ↔
      ¬ (answers s.transactions.length).InTime phyWriteTo := by
  simp only [ethWritePhyRegister, miiWait_eq_iff phyWriteTo_pos]
  split
  · next h => simp [h, ethError]
  · next h => simp [h, ethSuccess]

/-- What `ETH_ReadPHYRegister` writes to `MACMIIADDR`. -/
def readAddr (phyAddress phyReg : BitVec 16) (cr : Word) : Word :=
  ((cr &&& ~~~ethMacmiiarCrMask) ||| ((phyAddress.setWidth 32 <<< 11) &&& ethMacmiiaddrPa) |||
    ((phyReg.setWidth 32 <<< 6) &&& ethMacmiiaddrMii)) &&& ~~~ethMacmiiaddrMiiw ||| ethMacmiiaddrMiib

theorem ethReadPhyRegister_snd (answers : Nat → MiiAnswer) (phyAddress phyReg : BitVec 16)
    (s : PhyState) : (ethReadPhyRegister answers phyAddress phyReg s).2 =
      s.start (readAddr phyAddress phyReg s.macmiiaddr) := by
  unfold ethReadPhyRegister
  exact (apply_ite Prod.snd ..).trans (ite_self _)

/-- A read of another register is not taken for one of `PHY_BCR`. -/
theorem reads_readAddr (phyAddress : BitVec 16) (hreg : phyReg = phyBsr ∨ phyReg = phySr) (cr data : Word) :
    MiiTransaction.Reads phyReg ⟨readAddr phyAddress phyReg cr, data⟩ := by
  constructor
  · unfold MiiTransaction.IsWrite readAddr
    rw [Mask.store_and_of_disjoint _ _ (by decide)]
    decide
  · have hother : ((cr &&& ~~~ethMacmiiarCrMask) |||
        ((phyAddress.setWidth 32 <<< 11) &&& ethMacmiiaddrPa)) &&& ethMacmiiaddrMii = 0 :=
      Mask.or_and_eq_zero (Mask.and_and_of_disjoint cr (by decide))
        (Mask.and_and_of_disjoint _ (by decide))
    unfold readAddr
    rw [Mask.store_and_of_subset _ (by decide) (by decide), BitVec.and_or_distrib_right, hother]
    rcases hreg with rfl | rfl <;> decide

/-- What `ETH_WritePHYRegister` writes to `MACMIIADDR`. -/
def writeAddr (phyAddress phyReg : BitVec 16) (cr : Word) : Word :=
  ((cr &&& ~~~ethMacmiiarCrMask) ||| ((phyAddress.setWidth 32 <<< 11) &&& ethMacmiiaddrPa) |||
    ((phyReg.setWidth 32 <<< 6) &&& ethMacmiiaddrMii)) ||| ethMacmiiaddrMiiw ||| ethMacmiiaddrMiib

theorem ethWritePhyRegister_snd (answers : Nat → MiiAnswer)
    (phyAddress phyReg phyValue : BitVec 16) (s : PhyState) :
    (ethWritePhyRegister answers phyAddress phyReg phyValue s).2 =
      { s with macmiidt := phyValue.setWidth 32 }.start (writeAddr phyAddress phyReg s.macmiiaddr) := by
  unfold ethWritePhyRegister
  exact (apply_ite Prod.snd ..).trans (ite_self _)

theorem isWrite_writeAddr (phyAddress phyReg : BitVec 16) (cr data : Word) :
    MiiTransaction.IsWrite ⟨writeAddr phyAddress phyReg cr, data⟩ := by
  unfold MiiTransaction.IsWrite writeAddr
  rw [Mask.or_and_of_disjoint _ (by decide), Mask.or_and_of_subset _ (by decide)]
  decide

theorem ethReadPhyRegister_length (answers : Nat → MiiAnswer) (phyAddress phyReg : BitVec 16)
    (s : PhyState) : (ethReadPhyRegister answers phyAddress phyReg s).2.transactions.length =
      s.transactions.length + 1 := by
  rw [ethReadPhyRegister_snd]
  simp [PhyState.start]

theorem ethWritePhyRegister_length (answers : Nat → MiiAnswer)
    (phyAddress phyReg phyValue : BitVec 16) (s : PhyState) :
    (ethWritePhyRegister answers phyAddress phyReg phyValue s).2.transactions.length =
      s.transactions.length + 1 := by
  rw [ethWritePhyRegister_snd]
  simp [PhyState.start]

/-! ## The result -/

theorem resetPoll_pollsNext (answers : Nat → MiiAnswer) (phyAddress : BitVec 16) :
    PollsNext (resetPoll answers phyAddress) (·.transactions.length) MiiAnswer.showsReset answers where
  met s := by rw [resetPoll, ethReadPhyRegister_fst]; rfl
  next s := ethReadPhyRegister_length answers phyAddress phyBsr s

theorem statusPoll_pollsNext (answers : Nat → MiiAnswer) (phyAddress bit : BitVec 16) :
    PollsNext (statusPoll answers phyAddress bit) (·.transactions.length) (MiiAnswer.shows bit)
      answers where
  met s := by rw [statusPoll, ethReadPhyRegister_fst]; rfl
  next s := ethReadPhyRegister_length answers phyAddress phyBsr s

theorem ethForce_isSome (init : EthInitType) (s : PhyState) :
    (ethForce answers init phyAddress s).1.isSome ↔
      (answers s.transactions.length).InTime phyWriteTo := by
  simp only [ethForce, ethWritePhyRegister_fst]
  split
  · next h => simp [h]
  · next h => simp [not_not.mp h]

theorem ethNegotiate_isSome (init : EthInitType) (s : PhyState) :
    (ethNegotiate answers init phyAddress s).1.isSome ↔
      NegotiationSeen answers s.transactions.length := by
  have hlinked := statusPoll_pollsNext answers phyAddress phyLinkedStatus
  have hcomplete := statusPoll_pollsNext answers phyAddress phyAutoNegoComplete
  simp only [ethNegotiate, NegotiationSeen, hlinked.timeout_eq_budget phyReadTo_pos,
    hcomplete.timeout_eq_budget phyReadTo_pos, ethWritePhyRegister_fst, ethWritePhyRegister_length]
  cases hm : pollNext (MiiAnswer.shows phyLinkedStatus) answers (phyReadTo - 1) s.transactions.length with
  | none => simp
  | some m =>
      have hpos := hlinked.pos_of_some 0 (pollNext_mono (Nat.sub_le phyReadTo 1) hm)
      simp only [hpos, Option.some.injEq, exists_eq_left', reduceCtorEq, if_false]
      split_ifs <;> simp_all

theorem ethInitPhy_isSome (phyAddress : BitVec 16) (init : EthInitType) (hs : s.transactions = []) :
    (ethInitPhy answers init phyAddress s).1.isSome ↔ NoWaitFails answers init.autoNegotiation := by
  have hreset := resetPoll_pollsNext answers phyAddress
  simp only [ethInitPhy, NoWaitFails, ethWritePhyRegister_fst, hreset.met_eq,
    ethWritePhyRegister_length, hs, List.length_nil, Nat.zero_add]
  by_cases hwrite : (answers 0).InTime phyWriteTo
  · cases hn : pollNext MiiAnswer.showsReset answers phyReadTo 1 with
    | none => simp [hwrite]
    | some n =>
        have hpos := hreset.pos_of_some 0 (s := (ethWritePhyRegister answers phyAddress phyBcr phyReset s).2)
          (n := phyReadTo) (k := n) (by rw [ethWritePhyRegister_length, hs]; exact hn)
        simp only [hwrite, not_true_eq_false, if_false, Option.isSome_some, reduceCtorEq, true_and,
          Option.some.injEq, exists_eq_left']
        split
        · rw [ethNegotiate_isSome, hpos]
        · rw [ethForce_isSome, hpos]
  · simp [hwrite]

/-! ## `PHY_BCR` is never read -/

def PhyState.NeverReadsBcr (s : PhyState) : Prop := ∀ t ∈ s.transactions, ¬ t.Reads phyBcr

theorem neverReadsBcr_start {addr : Word} (h : s.NeverReadsBcr)
    (haddr : ¬ MiiTransaction.Reads phyBcr ⟨addr, s.macmiidt⟩) : (s.start addr).NeverReadsBcr := by
  intro t ht
  rcases List.mem_append.mp ht with hold | hnew
  · exact h t hold
  · rw [List.mem_singleton.mp hnew]
    exact haddr

theorem neverReadsBcr_read (hreg : phyReg = phyBsr ∨ phyReg = phySr) (h : s.NeverReadsBcr) :
    (ethReadPhyRegister answers phyAddress phyReg s).2.NeverReadsBcr := by
  rw [ethReadPhyRegister_snd]
  refine neverReadsBcr_start h fun hbcr => ?_
  have hsame := hbcr.2.symm.trans (reads_readAddr phyAddress hreg s.macmiiaddr s.macmiidt).2
  rcases hreg with rfl | rfl <;> exact absurd hsame (by decide)

theorem neverReadsBcr_write (answers : Nat → MiiAnswer) (phyAddress phyReg phyValue : BitVec 16)
    (h : s.NeverReadsBcr) :
    (ethWritePhyRegister answers phyAddress phyReg phyValue s).2.NeverReadsBcr := by
  rw [ethWritePhyRegister_snd]
  exact neverReadsBcr_start (s := { s with macmiidt := _ }) h fun hbcr =>
    hbcr.1 (isWrite_writeAddr phyAddress phyReg s.macmiiaddr _)

theorem neverReadsBcr_status (answers : Nat → MiiAnswer) (phyAddress bit : BitVec 16)
    (h : s.NeverReadsBcr) (n : Nat) :
    (pollUpTo (statusPoll answers phyAddress bit) n 0 s).state.NeverReadsBcr :=
  pollUpTo_keeps (fun _ => neverReadsBcr_read (Or.inl rfl)) n 0 h

theorem neverReadsBcr_negotiate (init : EthInitType) (h : s.NeverReadsBcr) :
    (ethNegotiate answers init phyAddress s).2.NeverReadsBcr := by
  have hlinked := neverReadsBcr_status answers phyAddress phyLinkedStatus h phyReadTo
  have hwrite := neverReadsBcr_write answers phyAddress phyBcr phyAutoNegotiation hlinked
  have hcomplete := neverReadsBcr_status answers phyAddress phyAutoNegoComplete hwrite phyReadTo
  unfold ethNegotiate
  simp only
  split_ifs
  · exact hlinked
  · exact hwrite
  · exact hcomplete
  · exact neverReadsBcr_read (Or.inr rfl) hcomplete

theorem neverReadsBcr_initPhy (answers : Nat → MiiAnswer) (phyAddress : BitVec 16)
    (init : EthInitType) (h : s.NeverReadsBcr) :
    (ethInitPhy answers init phyAddress s).2.NeverReadsBcr := by
  have hwrite := neverReadsBcr_write answers phyAddress phyBcr phyReset h
  have hreset : (pollUpTo (resetPoll answers phyAddress) phyReadTo 0
      (ethWritePhyRegister answers phyAddress phyBcr phyReset s).2).state.NeverReadsBcr :=
    pollUpTo_keeps (fun _ => neverReadsBcr_read (Or.inl rfl)) phyReadTo 0 hwrite
  unfold ethInitPhy
  simp only
  split_ifs
  · exact hwrite
  · exact hreset
  · exact neverReadsBcr_negotiate init hreset
  · unfold ethForce
    simp only
    split_ifs <;> exact neverReadsBcr_write _ _ _ _ hreset

/-! ## The truth of the result -/

theorem ethInit_value (answers : Nat → MiiAnswer) (init : EthInitType) (phyAddress : BitVec 16)
    (hclk : Word) (hs : s.transactions = []) (r : EthMac) :
    (ethInit answers init phyAddress hclk s r).value = ethSuccess ↔
      NoWaitFails answers init.autoNegotiation := by
  rw [← ethInitPhy_isSome phyAddress
    (s := { s with macmiiaddr := (s.macmiiaddr &&& ethMacmiiarCrMask) ||| ethClockRange hclk }) init hs]
  simp only [ethInit]
  rcases ethInitPhy answers init phyAddress _ with ⟨_ | init', s'⟩ <;> simp [ethError, ethSuccess]

theorem ethInit_neverReadsBcr (answers : Nat → MiiAnswer) (init : EthInitType)
    (phyAddress : BitVec 16) (hclk : Word) (hs : s.transactions = []) (r : EthMac) :
    (ethInit answers init phyAddress hclk s r).phy.NeverReadsBcr := by
  have hphy := neverReadsBcr_initPhy answers phyAddress
    (s := { s with macmiiaddr := (s.macmiiaddr &&& ethMacmiiarCrMask) ||| ethClockRange hclk }) init
    (by intro t ht; rw [hs] at ht; cases ht)
  simp only [ethInit]
  revert hphy
  rcases ethInitPhy answers init phyAddress _ with ⟨_ | init', s'⟩ <;> exact id

theorem PhyState.NeverReadsBcr.not_ready (h : s.NeverReadsBcr) (answers : Nat → MiiAnswer)
    (autoNegotiation : Word) :
    ¬ PhyReady answers s.transactions autoNegotiation := by
  intro hready
  obtain ⟨k, -, ⟨⟨t, ht, hreads⟩, -⟩, -⟩ := hready.reset
  exact h t (List.mem_of_getElem? ht) hreads

/-- **`ETH_Init` tells the truth about the PHY exactly where one of its waits fails: it has never seen
    the end of the reset.** -/
theorem eth_init_truth_iff (answers : Nat → MiiAnswer) (init : EthInitType) (phyAddress : BitVec 16)
    (hclk macmiiaddr macmiidt : Word) (r : EthMac) :
    (ethInit answers init phyAddress hclk ⟨macmiiaddr, macmiidt, []⟩ r).Truthful answers
        init.autoNegotiation ↔
      ¬ NoWaitFails answers init.autoNegotiation := by
  have hnot := (ethInit_neverReadsBcr (s := ⟨macmiiaddr, macmiidt, []⟩) answers init phyAddress hclk
    rfl r).not_ready answers init.autoNegotiation
  rw [← ethInit_value (s := ⟨macmiiaddr, macmiidt, []⟩) answers init phyAddress hclk rfl r]
  constructor
  · intro htruthful hsuccess
    exact hnot (htruthful.success hsuccess)
  · intro hfailed
    exact ⟨fun hsuccess => absurd hsuccess hfailed, fun _ => hnot⟩

/-- A PHY that takes every write and answers no read. -/
def silentPhy (k : Nat) : MiiAnswer := ⟨fun _ => decide (k = 1), 0⟩

theorem noWaitFails_silentPhy : NoWaitFails silentPhy ethAutoNegotiationDisable := by
  have hread : ¬ (silentPhy 1).InTime phyReadTo := by
    rintro ⟨j, -, hj⟩
    cases hj
  have hshows : (silentPhy 1).showsReset = true := by
    rw [MiiAnswer.showsReset, MiiAnswer.shown, if_neg hread]
    rfl
  have hpolls : 0 < phyWriteTo - 1 := by
    unfold phyWriteTo
    omega
  refine ⟨⟨0, hpolls, rfl⟩, 2, pollNext_of_first phyReadTo_pos hshows, ?_⟩
  rw [if_neg (not_not.mpr rfl)]
  exact ⟨0, hpolls, rfl⟩

/-- The reset is never seen to end, and the result is `ETH_SUCCESS`. -/
theorem eth_init_untruthful :
    (ethInit silentPhy ethStructInit 0 120000000 ⟨0, 0, []⟩ ⟨0, 0, 0, 0, 0, 0, 0, 0⟩).value = ethSuccess ∧
      (∀ j, (silentPhy 1).busy j = true) ∧
      ¬ (ethInit silentPhy ethStructInit 0 120000000 ⟨0, 0, []⟩ ⟨0, 0, 0, 0, 0, 0, 0, 0⟩).Truthful
        silentPhy ethStructInit.autoNegotiation := by
  have hsuccess := (ethInit_value (s := ⟨0, 0, []⟩) silentPhy ethStructInit 0 120000000 rfl
    ⟨0, 0, 0, 0, 0, 0, 0, 0⟩).mpr noWaitFails_silentPhy
  have hnever := ethInit_neverReadsBcr (s := ⟨0, 0, []⟩) silentPhy ethStructInit 0 120000000 rfl
    ⟨0, 0, 0, 0, 0, 0, 0, 0⟩
  exact ⟨hsuccess, fun _ => rfl, fun htruthful => hnever.not_ready _ _ (htruthful.success hsuccess)⟩

end Eth
