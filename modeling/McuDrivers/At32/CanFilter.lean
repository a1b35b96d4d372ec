import McuDrivers.At32.Can
import McuDrivers.Library.Bits

set_option autoImplicit false

/-! # AT32F4xx: the CAN filter banks

The fourteen banks share the bitmaps of scale, mode, FIFO and activation. Whatever sequence of
`CAN_FilterInit` calls is made, each bank is as the last call that named it says, and its registers
were only written while it was not active. -/

namespace At32

/-! ## One bit of a bitmap -/

theorem filterBit_getLsbD (n : Fin 14) (i : Nat) :
    (filterBit n).getLsbD i = decide (i = n.val) := by
  have hn : n.val < 32 := by omega
  have hbit : filterBit n = BitVec.twoPow 32 n.val := by
    rw [BitVec.twoPow_eq]
    rfl
  rw [hbit, BitVec.getLsbD_twoPow]
  by_cases h : i = n.val
  · simp [h, hn]
  · simp [h, Ne.symm h]

theorem editBit_getLsbD (n : Fin 14) (set : Bool) (reg : Word) (i : Nat) :
    (editBit (filterBit n) set reg).getLsbD i = if i = n.val then set else reg.getLsbD i := by
  have hn : n.val < 32 := by omega
  cases set with
  | true =>
      simp only [editBit, if_true, BitVec.getLsbD_or, filterBit_getLsbD]
      by_cases h : i = n.val <;> simp [h]
  | false =>
      simp only [editBit, Bool.false_eq_true, if_false, BitVec.getLsbD_and, BitVec.getLsbD_not,
        filterBit_getLsbD]
      by_cases h : i = n.val
      · simp [h]
      · cases hi : reg.getLsbD i with
        | false => simp [h]
        | true => simp [h, BitVec.lt_of_getLsbD hi]

/-- With bit `n` cleared in `active`, nothing that an edit of bit `n` changes is active. -/
theorem editBit_inactive (n : Fin 14) (set : Bool) (reg active : Word) :
    (reg ^^^ editBit (filterBit n) set reg) &&& editBit (filterBit n) false active = 0 := by
  apply BitVec.eq_of_getLsbD_eq
  intro i hi
  rw [BitVec.getLsbD_and, BitVec.getLsbD_xor, editBit_getLsbD, editBit_getLsbD]
  by_cases h : i = n.val <;> simp [h]

theorem filterBit_inactive (n : Fin 14) (active : Word) :
    filterBit n &&& editBit (filterBit n) false active = 0 := by
  apply BitVec.eq_of_getLsbD_eq
  intro i hi
  rw [BitVec.getLsbD_and, filterBit_getLsbD, editBit_getLsbD]
  by_cases h : i = n.val <;> simp [h]

/-! ## Banks -/

/-- What the registers say of one bank. -/
structure FilterBank where
  scale : CanFilterScale
  mode : CanFilterMode
  fifo : Fin 2
  active : Bool
  ids : CanFilterRegister
  deriving DecidableEq

def Can.bank (n : Fin 14) (s : Can) : FilterBank where
  scale := if s.fs1.getLsbD n then .bit32 else .bit16
  mode := if s.fm1.getLsbD n then .idList else .idMask
  fifo := if s.ffa1.getLsbD n then canFifo1 else canFifo0
  active := s.fa1.getLsbD n
  ids := s.filterRegister n

/-- The identifiers in the packing of the scale: two pairs of halves, or two whole words. -/
def CanFilterInitType.ids (f : CanFilterInitType) : CanFilterRegister :=
  match f.filterScale with
  | .bit16 => ⟨f.filterMskIdLow ++ f.filterIdLow, f.filterMskIdHigh ++ f.filterIdHigh⟩
  | .bit32 => ⟨f.filterIdHigh ++ f.filterIdLow, f.filterMskIdHigh ++ f.filterMskIdLow⟩

/-- The bank that a call asks for. -/
def CanFilterInitType.bank (f : CanFilterInitType) : FilterBank where
  scale := f.filterScale
  mode := f.filterMode
  fifo := f.filterFifoAssignment
  active := f.filterActivation
  ids := f.ids

theorem wordOfHalves_eq (high low : BitVec 16) : wordOfHalves high low = high ++ low := by
  have hmask : (0x0000FFFF : Word) = (BitVec.allOnes 16).setWidth 32 := by decide
  apply BitVec.eq_of_getLsbD_eq
  intro i hi
  simp only [wordOfHalves, hmask, BitVec.getLsbD_or, BitVec.getLsbD_shiftLeft, BitVec.getLsbD_and,
    BitVec.getLsbD_setWidth, BitVec.getLsbD_allOnes, BitVec.getLsbD_append]
  by_cases hlow : i < 16
  · have hi' : i < 32 := hi
    simp [hlow, hi']
  · have hi' : i < 32 := hi
    have hsub : i - 16 < 32 := by omega
    have hsub' : i - 16 < 16 := by omega
    simp [hlow, hi', hsub, hsub']

/-! ## One call -/

variable (f : CanFilterInitType) (s : Can)

def canFilterStep (s : Can) (f : CanFilterInitType) : Can := ((canFilterInit f).exec s).2

theorem Can.disturb_eq {changed : Word} (h : changed &&& s.fa1 = 0) : s.disturb changed = s := by
  simp [Can.disturb, h]

/-- In initialization mode, with the bank not active. -/
def Can.deactivated (n : Fin 14) (s : Can) : Can :=
  { s with
    fm := editBit fmFinit true s.fm
    fa1 := editBit (filterBit n) false s.fa1 }

theorem canFilterIds_exec :
    (canFilterIds f).exec (s.deactivated f.filterNumber) =
      ((), { s.deactivated f.filterNumber with
        fs1 := editBit (filterBit f.filterNumber) (f.filterScale = .bit32) s.fs1
        filterRegister := Function.update s.filterRegister f.filterNumber f.ids }) := by
  cases h : f.filterScale with
  | bit16 =>
      simp [canFilterIds, CanFilterInitType.ids, h, editFs1, storeFs1, storeFbr, Can.deactivated,
        Can.disturb_eq, editBit_inactive, filterBit_inactive, wordOfHalves_eq]
  | bit32 =>
      simp [canFilterIds, CanFilterInitType.ids, h, editFs1, storeFs1, storeFbr, Can.deactivated,
        Can.disturb_eq, editBit_inactive, filterBit_inactive, wordOfHalves_eq]

/-- What a call leaves. -/
theorem canFilterStep_eq :
    canFilterStep s f =
      let bit := filterBit f.filterNumber
      { s with
        fm := editBit fmFinit false (editBit fmFinit true s.fm)
        fs1 := editBit bit (f.filterScale = .bit32) s.fs1
        fm1 := editBit bit (f.filterMode = .idList) s.fm1
        ffa1 := editBit bit (f.filterFifoAssignment = 1) s.ffa1
        fa1 := if f.filterActivation then editBit bit true (editBit bit false s.fa1)
          else editBit bit false s.fa1
        filterRegister := Function.update s.filterRegister f.filterNumber f.ids } := by
  have hfirst : (do
      editFm true
      editFa1 (filterBit f.filterNumber) false : CanProg Unit).exec s =
      ((), s.deactivated f.filterNumber) := rfl
  have hexec : canFilterInit f = (do
      (do
        editFm true
        editFa1 (filterBit f.filterNumber) false)
      canFilterIds f
      editFm1 (filterBit f.filterNumber) (f.filterMode = .idList)
      editFfa1 (filterBit f.filterNumber) (f.filterFifoAssignment = 1)
      canFilterActivate f
      editFm false) := rfl
  rw [canFilterStep, hexec, Prog.exec_bind, hfirst, Prog.exec_bind, canFilterIds_exec]
  cases hactive : f.filterActivation with
  | true =>
      simp [editFm1, storeFm1, editFfa1, storeFfa1, canFilterActivate, editFa1, editFm,
        Can.deactivated, Can.disturb_eq, editBit_inactive, hactive]
  | false =>
      simp [editFm1, storeFm1, editFfa1, storeFfa1, canFilterActivate, editFm, Can.deactivated,
        Can.disturb_eq, editBit_inactive, hactive]

/-- The bank that is named. -/
theorem canFilterStep_bank : (canFilterStep s f).bank f.filterNumber = f.bank := by
  rw [canFilterStep_eq]
  simp only [Can.bank, CanFilterInitType.bank, FilterBank.mk.injEq, editBit_getLsbD, if_true,
    Function.update_self, decide_eq_true_eq, and_true]
  refine ⟨?_, ?_, ?_, ?_⟩
  · cases f.filterScale <;> rfl
  · cases f.filterMode <;> rfl
  · match f.filterFifoAssignment with
    | 0 => rfl
    | 1 => rfl
  · cases f.filterActivation <;> simp [editBit_getLsbD]

/-- Every other bank. -/
theorem canFilterStep_other {n : Fin 14} (h : n ≠ f.filterNumber) :
    (canFilterStep s f).bank n = s.bank n := by
  have hval : n.val ≠ f.filterNumber.val := fun heq => h (Fin.ext heq)
  rw [canFilterStep_eq]
  simp only [Can.bank, editBit_getLsbD, hval, if_false, Function.update_of_ne h, FilterBank.mk.injEq,
    and_true, true_and]
  split <;> simp [editBit_getLsbD, hval]

theorem canFilterStep_disturbed : (canFilterStep s f).disturbed = s.disturbed := by
  rw [canFilterStep_eq]

theorem canFilterStep_finit : (canFilterStep s f).fm &&& fmFinit = 0 := by
  rw [canFilterStep_eq]
  exact Mask.and_and_of_disjoint _ (by decide)

/-! ## Sequences of calls -/

def canFilterRun (calls : List CanFilterInitType) (s : Can) : Can := calls.foldl canFilterStep s

/-- The last call that names bank `n`. -/
def lastNaming (n : Fin 14) (calls : List CanFilterInitType) : Option CanFilterInitType :=
  calls.reverse.find? fun f => f.filterNumber = n

theorem canFilterRun_concat (calls : List CanFilterInitType) :
    canFilterRun (calls ++ [f]) s = canFilterStep (canFilterRun calls s) f := by
  simp [canFilterRun]

theorem lastNaming_concat (n : Fin 14) (calls : List CanFilterInitType) :
    lastNaming n (calls ++ [f]) = if f.filterNumber = n then some f else lastNaming n calls := by
  simp only [lastNaming, List.reverse_append, List.reverse_singleton, List.singleton_append,
    List.find?_cons]
  by_cases h : f.filterNumber = n <;> simp [h]

/-- **After any calls, from any registers, each bank is as the last call that named it says, or as it
    was; no bank has been rewritten while it was active, and the initialization mode is off.** -/
theorem can_filter_banks (calls : List CanFilterInitType) (s : Can) :
    (∀ n, (canFilterRun calls s).bank n =
        match lastNaming n calls with
        | some f => f.bank
        | none => s.bank n) ∧
      (canFilterRun calls s).disturbed = s.disturbed ∧
      (calls ≠ [] → (canFilterRun calls s).fm &&& fmFinit = 0) := by
  induction calls using List.reverseRecOn with
  | nil => exact ⟨fun _ => rfl, rfl, fun h => absurd rfl h⟩
  | append_singleton calls f ih =>
      obtain ⟨hbanks, hdisturbed, -⟩ := ih
      rw [canFilterRun_concat]
      refine ⟨fun n => ?_, ?_, fun _ => canFilterStep_finit f _⟩
      · rw [lastNaming_concat]
        by_cases h : f.filterNumber = n
        · subst h
          simp [canFilterStep_bank]
        · rw [canFilterStep_other f _ (Ne.symm h), hbanks n, if_neg h]
      · rw [canFilterStep_disturbed, hdisturbed]

end At32
