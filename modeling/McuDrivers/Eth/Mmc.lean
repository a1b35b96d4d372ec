import McuDrivers.Eth.Basic

set_option autoImplicit false

/-! # Ethernet: the interrupts of the management counters

Each of the two registers of pending interrupts, `MMCRI` and `MMCTI`, has a register in which a 1 masks
an interrupt. `ETH_MMCITConfig` writes the masks, and `ETH_GetMMCITStatus` reads one of them, for either
direction the one of reception, and takes a 1 in it for enabled. -/

namespace Eth

/-! ## The functions -/

def ethMmcIntTgf : Word := 0x00200000
def ethMmcIntTgfmsc : Word := 0x00008000
def ethMmcIntTgfsc : Word := 0x00004000
def ethMmcIntRguf : Word := 0x10020000
def ethMmcIntRfae : Word := 0x10000040
def ethMmcIntRfce : Word := 0x10000020

/-- `IS_ETH_MMC_IT` -/
def isEthMmcIt (it : Word) : Prop :=
  (it &&& 0xFFDF3FFF = 0x00 ∨ it &&& 0xEFFDFF9F = 0x00) ∧ it ≠ 0x00

structure Mmc where
  mmcri : Word
  mmcti : Word
  mmcrim : Word
  mmctim : Word

def ethMmcItConfig (it : Word) (newState : Bool) (r : Mmc) : Mmc :=
  if it &&& 0x10000000 ≠ 0 then
    -- the bit that stands for reception is removed
    let it := it &&& 0xEFFFFFFF
    if newState then { r with mmcrim := r.mmcrim &&& ~~~it }
    else { r with mmcrim := r.mmcrim ||| it }
  else
    if newState then { r with mmctim := r.mmctim &&& ~~~it }
    else { r with mmctim := r.mmctim ||| it }

def ethGetMmcItStatus (it : Word) (r : Mmc) : Bool :=
  if it &&& 0x10000000 ≠ 0 then
    r.mmcri &&& it ≠ 0 ∧ r.mmcrim &&& it ≠ 0
  else
    r.mmcti &&& it ≠ 0 ∧ r.mmcrim &&& it ≠ 0

/-! ## Interrupts -/

inductive MmcInt where
  | tgf
  | tgfmsc
  | tgfsc
  | rguf
  | rfae
  | rfce

namespace MmcInt

def code : MmcInt → Word
  | tgf => ethMmcIntTgf
  | tgfmsc => ethMmcIntTgfmsc
  | tgfsc => ethMmcIntTgfsc
  | rguf => ethMmcIntRguf
  | rfae => ethMmcIntRfae
  | rfce => ethMmcIntRfce

/-- It is an interrupt of reception. -/
def rx : MmcInt → Bool
  | tgf | tgfmsc | tgfsc => false
  | rguf | rfae | rfce => true

/-- The bit of the interrupt in its registers. -/
def bit : MmcInt → Nat
  | tgf => 21
  | tgfmsc => 15
  | tgfsc => 14
  | rguf => 17
  | rfae => 6
  | rfce => 5

/-- The bit that stands for reception in the numbers of the interrupts. -/
def rxBit : Nat := 28

def Pending (i : MmcInt) (r : Mmc) : Prop :=
  (if i.rx then r.mmcri else r.mmcti).getLsbD i.bit = true

def Masked (i : MmcInt) (r : Mmc) : Prop :=
  (if i.rx then r.mmcrim else r.mmctim).getLsbD i.bit = true

/-- A call with the masks `it` is about the interrupt. -/
def NamedBy (i : MmcInt) (it : Word) : Prop := it &&& i.code = i.code

instance (i : MmcInt) (r : Mmc) : Decidable (i.Pending r) := inferInstanceAs (Decidable (_ = _))

instance (i : MmcInt) (r : Mmc) : Decidable (i.Masked r) := inferInstanceAs (Decidable (_ = _))

instance (i : MmcInt) (it : Word) : Decidable (i.NamedBy it) := inferInstanceAs (Decidable (_ = _))

/-- What the last call that named the interrupt made of it, if there is one. The calls are listed in the
    order in which they are made. -/
def enabledAfter (i : MmcInt) (calls : List (Word × Bool)) (before : Bool) : Bool :=
  calls.foldl (fun on call => if i.NamedBy call.1 then call.2 else on) before

end MmcInt

def Mmc.after (r : Mmc) (calls : List (Word × Bool)) : Mmc :=
  calls.foldl (fun r call => ethMmcItConfig call.1 call.2 r) r

def Mmc.AllMasked (r : Mmc) : Prop := ∀ i : MmcInt, i.Masked r

variable {r : Mmc} {it : Word} {calls : List (Word × Bool)} {k : Nat}

/-! ## Bits -/

theorem rx_eq : (0x10000000 : Word) = BitVec.twoPow 32 MmcInt.rxBit := by decide

theorem MmcInt.code_eq (i : MmcInt) :
    i.code = (if i.rx then BitVec.twoPow 32 rxBit else 0) ||| BitVec.twoPow 32 i.bit := by
  cases i <;> decide

theorem MmcInt.bit_lt (i : MmcInt) : i.bit < 28 := by cases i <;> decide

theorem MmcInt.getLsbD_code (i : MmcInt) (k : Nat) :
    i.code.getLsbD k = (i.rx && decide (k = rxBit) || decide (k = i.bit)) := by
  have hbit := i.bit_lt
  rw [i.code_eq, BitVec.getLsbD_or, BitVec.getLsbD_twoPow]
  cases i.rx with
  | false =>
      simp
      grind
  | true =>
      simp only [if_true, BitVec.getLsbD_twoPow, Bool.true_and, rxBit]
      grind

/-- A register has a bit of the number of an interrupt. -/
theorem MmcInt.and_code_ne_zero (i : MmcInt) (v : Word) :
    v &&& i.code ≠ 0 ↔ (i.rx = true ∧ v.getLsbD rxBit = true) ∨ v.getLsbD i.bit = true := by
  have hbit := i.bit_lt
  constructor
  · intro hne
    by_contra hnot
    refine hne (BitVec.eq_of_getLsbD_eq fun k hk => ?_)
    rw [BitVec.getLsbD_and, i.getLsbD_code]
    grind
  · intro hor hzero
    have hk : ∀ k, (v &&& i.code).getLsbD k = false := by
      intro k
      rw [hzero]
      simp
    rcases hor with ⟨hrx, hv⟩ | hv
    · have hrxBit := hk rxBit
      rw [BitVec.getLsbD_and, i.getLsbD_code, hrx, hv] at hrxBit
      simp at hrxBit
    · have hbit := hk i.bit
      rw [BitVec.getLsbD_and, i.getLsbD_code, hv] at hbit
      simp at hbit

theorem MmcInt.rx_code (i : MmcInt) : i.code &&& 0x10000000 ≠ 0 ↔ i.rx = true := by
  cases i <;> decide

/-- The masks of a call name an interrupt with all the bits of its number. -/
theorem MmcInt.namedBy_iff (i : MmcInt) (it : Word) :
    i.NamedBy it ↔ (i.rx = true → it.getLsbD rxBit = true) ∧ it.getLsbD i.bit = true := by
  unfold NamedBy
  constructor
  · intro h
    have hk : ∀ k, (it &&& i.code).getLsbD k = i.code.getLsbD k := fun k => by rw [h]
    simp only [BitVec.getLsbD_and, i.getLsbD_code] at hk
    refine ⟨fun hrx => ?_, ?_⟩
    · simpa [hrx] using hk rxBit
    · simpa using hk i.bit
  · rintro ⟨hrx, hbit⟩
    refine BitVec.eq_of_getLsbD_eq fun k _ => ?_
    rw [BitVec.getLsbD_and, i.getLsbD_code]
    grind

/-! ## The masks after a call -/

/-- A call with the bit of reception writes the bits that it names to the mask of reception. -/
theorem ethMmcItConfig_mmcrim (it : Word) (newState : Bool) (r : Mmc) (hk : k < 32) :
    (ethMmcItConfig it newState r).mmcrim.getLsbD k =
      if it.getLsbD MmcInt.rxBit = true ∧ k ≠ MmcInt.rxBit ∧ it.getLsbD k = true then !newState
      else r.mmcrim.getLsbD k := by
  have hstrip : (it &&& 0xEFFFFFFF).getLsbD k = (it.getLsbD k && decide (k ≠ MmcInt.rxBit)) := by
    have hmask : (0xEFFFFFFF : Word) = ~~~BitVec.twoPow 32 MmcInt.rxBit := by decide
    rw [hmask, BitVec.getLsbD_and, BitVec.getLsbD_not, BitVec.getLsbD_twoPow]
    unfold MmcInt.rxBit
    grind
  unfold ethMmcItConfig
  rw [rx_eq]
  simp only [Mask.and_twoPow_ne_zero it (show MmcInt.rxBit < 32 by decide)]
  by_cases hrx : it.getLsbD MmcInt.rxBit = true
  · rw [if_pos hrx]
    cases newState with
    | false =>
        simp only [Bool.false_eq_true, if_false, BitVec.getLsbD_or, hstrip]
        grind
    | true =>
        simp only [if_true, BitVec.getLsbD_and, BitVec.getLsbD_not, hstrip, hk]
        grind
  · have hno : ¬ (it.getLsbD MmcInt.rxBit = true ∧ k ≠ MmcInt.rxBit ∧ it.getLsbD k = true) :=
      fun h => hrx h.1
    rw [if_neg hrx, if_neg hno]
    cases newState <;> rfl

/-- What holds of the mask bit of an interrupt of reception, before a call and after it. -/
theorem MmcInt.rx_step (i : MmcInt) (hrx : i.rx = true) (it : Word) (newState : Bool) (r : Mmc) :
    (ethMmcItConfig it newState r).mmcrim.getLsbD i.bit =
      if i.NamedBy it then !newState else r.mmcrim.getLsbD i.bit := by
  have hbit := i.bit_lt
  have hne : i.bit ≠ rxBit := by
    unfold rxBit
    omega
  have hnamed : i.NamedBy it ↔
      it.getLsbD rxBit = true ∧ i.bit ≠ rxBit ∧ it.getLsbD i.bit = true := by
    rw [i.namedBy_iff, hrx]
    simp [hne]
  rw [ethMmcItConfig_mmcrim it newState r (by omega)]
  simp only [hnamed]

/-- In the mask of reception the bits of the interrupts of transmission are left alone. -/
theorem MmcInt.tx_step (i : MmcInt) (hrx : i.rx = false) (hit : isEthMmcIt it) (newState : Bool)
    (r : Mmc) : (ethMmcItConfig it newState r).mmcrim.getLsbD i.bit = r.mmcrim.getLsbD i.bit := by
  have hbit := i.bit_lt
  have hclear : ∀ {m : Word} {k : Nat}, it &&& m = 0 → m.getLsbD k = true →
      it.getLsbD k = false := by
    intro m k hzero hm
    have hk := congrArg (·.getLsbD k) hzero
    simpa [hm] using hk
  have hnot : ¬ (it.getLsbD rxBit = true ∧ i.bit ≠ rxBit ∧ it.getLsbD i.bit = true) := by
    rintro ⟨hsel, -, hon⟩
    rcases hit.1 with htx | hrx'
    · rw [hclear htx (by decide)] at hsel
      cases hsel
    · have hm : (0xEFFDFF9F : Word).getLsbD i.bit = true := by
        cases i with
        | tgf | tgfmsc | tgfsc => decide
        | rguf | rfae | rfce => cases hrx
      rw [hclear hrx' hm] at hon
      cases hon
  rw [ethMmcItConfig_mmcrim it newState r (by omega), if_neg hnot]

/-! ## The masks after a sequence of calls -/

theorem MmcInt.rx_after (i : MmcInt) (hrx : i.rx = true) (calls : List (Word × Bool))
    {before : Bool} (hr : r.mmcrim.getLsbD i.bit = !before) :
    (r.after calls).mmcrim.getLsbD i.bit = !i.enabledAfter calls before := by
  induction calls generalizing r before with
  | nil => exact hr
  | cons call calls ih =>
      refine ih ?_
      rw [i.rx_step hrx, hr]
      show (if i.NamedBy call.1 then !call.2 else !before) =
        !(if i.NamedBy call.1 then call.2 else before)
      split <;> rfl

theorem MmcInt.tx_after (i : MmcInt) (hrx : i.rx = false) (hcalls : ∀ c ∈ calls, isEthMmcIt c.1) :
    (r.after calls).mmcrim.getLsbD i.bit = r.mmcrim.getLsbD i.bit := by
  induction calls generalizing r with
  | nil => rfl
  | cons call calls ih =>
      obtain ⟨hcall, hcalls⟩ := List.forall_mem_cons.mp hcalls
      exact (ih hcalls).trans (i.tx_step hrx hcall call.2 r)

theorem rxBit_after (r : Mmc) (calls : List (Word × Bool)) :
    (r.after calls).mmcrim.getLsbD MmcInt.rxBit = r.mmcrim.getLsbD MmcInt.rxBit := by
  induction calls generalizing r with
  | nil => rfl
  | cons call calls ih =>
      refine (ih _).trans ?_
      rw [ethMmcItConfig_mmcrim _ _ _ (by decide), if_neg fun h => h.2.1 rfl]

/-! ## The status -/

theorem ethGetMmcItStatus_rx (i : MmcInt) (hrx : i.rx = true) (r : Mmc) :
    ethGetMmcItStatus i.code r = true ↔
      (r.mmcri.getLsbD MmcInt.rxBit = true ∨ r.mmcri.getLsbD i.bit = true) ∧
        (r.mmcrim.getLsbD MmcInt.rxBit = true ∨ r.mmcrim.getLsbD i.bit = true) := by
  unfold ethGetMmcItStatus
  rw [if_pos (i.rx_code.mpr hrx), decide_eq_true_iff, i.and_code_ne_zero, i.and_code_ne_zero]
  simp only [hrx, true_and]

theorem ethGetMmcItStatus_tx (i : MmcInt) (hrx : i.rx = false) (r : Mmc) :
    ethGetMmcItStatus i.code r = true ↔
      r.mmcti.getLsbD i.bit = true ∧ r.mmcrim.getLsbD i.bit = true := by
  have hno : ¬ i.code &&& 0x10000000 ≠ 0 := by
    rw [i.rx_code, hrx]
    simp
  unfold ethGetMmcItStatus
  rw [if_neg hno, decide_eq_true_iff, i.and_code_ne_zero, i.and_code_ne_zero]
  simp [hrx]

/-- The status of an interrupt is `SET` if it is pending and the last call that named it enabled it. -/
def MmcHonest (i : MmcInt) (calls : List (Word × Bool)) (r : Mmc) : Prop :=
  ethGetMmcItStatus i.code r = true ↔ i.Pending r ∧ i.enabledAfter calls false = true

/-- When that is so, where the calls were made from `start` on. For an interrupt of transmission it is the
    mask of reception, as it was in `start`, that has to agree with the calls. An interrupt of
    reception that is pending is right only by way of the bit that stands for reception. -/
def MmcInt.Agrees (i : MmcInt) (start : Mmc) (calls : List (Word × Bool)) (r : Mmc) : Prop :=
  if i.rx then
    if r.mmcri.getLsbD i.bit then
      i.enabledAfter calls false = true ∧ start.mmcrim.getLsbD rxBit = true
    else
      r.mmcri.getLsbD rxBit = true →
        i.enabledAfter calls false = true ∧ start.mmcrim.getLsbD rxBit = false
  else
    r.mmcti.getLsbD i.bit = true →
      (i.enabledAfter calls false = true ↔ start.mmcrim.getLsbD i.bit = true)

/-- **From all interrupts masked, the status is right after any calls if and only if the interrupt
    agrees.** -/
theorem mmc_status_iff (start : Mmc) (hstart : start.AllMasked) (calls : List (Word × Bool))
    (hcalls : ∀ c ∈ calls, isEthMmcIt c.1) (i : MmcInt) (mmcri mmcti : Word) :
    let r := { start.after calls with mmcri := mmcri, mmcti := mmcti }
    MmcHonest i calls r ↔ i.Agrees start calls r := by
  intro r
  unfold MmcHonest MmcInt.Agrees MmcInt.Pending
  cases hrx : i.rx with
  | false =>
      have hmask : r.mmcrim.getLsbD i.bit = start.mmcrim.getLsbD i.bit := i.tx_after hrx hcalls
      rw [ethGetMmcItStatus_tx i hrx, hmask]
      simp only [Bool.false_eq_true, if_false]
      grind
  | true =>
      have hmasked : start.mmcrim.getLsbD i.bit = !false := by
        simpa [MmcInt.Masked, hrx] using hstart i
      have hmask : r.mmcrim.getLsbD i.bit = !i.enabledAfter calls false :=
        i.rx_after hrx calls hmasked
      have hsel : r.mmcrim.getLsbD MmcInt.rxBit = start.mmcrim.getLsbD MmcInt.rxBit :=
        rxBit_after start calls
      rw [ethGetMmcItStatus_rx i hrx, hmask, hsel]
      simp only [if_true]
      grind

/-- Where the reserved bits read 0, it is not: no interrupt of reception may be pending, and none of
    transmission both pending and enabled. -/
theorem MmcInt.agrees_of_reserved (i : MmcInt) {start r : Mmc}
    (hsel : start.mmcrim.getLsbD rxBit = false)
    (htx : i.rx = false → start.mmcrim.getLsbD i.bit = false) (hr : r.mmcri.getLsbD rxBit = false) :
    i.Agrees start calls r ↔
      if i.rx then ¬ i.Pending r else ¬ (i.Pending r ∧ i.enabledAfter calls false = true) := by
  unfold Agrees Pending
  cases hrx : i.rx with
  | false => simp [htx hrx]
  | true => simp [hsel, hr]

/-- The interrupts masked, and nothing else in the masks. -/
def maskedMmc : Mmc where
  mmcri := 0
  mmcti := 0
  mmcrim := 0x00020060
  mmctim := 0x0020C000

theorem maskedMmc_allMasked : maskedMmc.AllMasked := by
  intro i
  cases i <;> decide

/-- An interrupt of reception that is enabled and not pending. -/
theorem mmc_status_idle :
    MmcHonest .rfce [(ethMmcIntRfce, true)]
        { maskedMmc.after [(ethMmcIntRfce, true)] with mmcri := 0, mmcti := 0 } ∧
      maskedMmc.AllMasked ∧ ∀ c ∈ [(ethMmcIntRfce, true)], isEthMmcIt c.1 := by
  have hcalls : ∀ c ∈ [(ethMmcIntRfce, true)], isEthMmcIt c.1 := by
    simp [isEthMmcIt, ethMmcIntRfce]
  refine ⟨?_, maskedMmc_allMasked, hcalls⟩
  refine (mmc_status_iff maskedMmc maskedMmc_allMasked _ hcalls .rfce 0 0).mpr ?_
  exact (MmcInt.agrees_of_reserved .rfce (by decide) (fun h => by cases h) (by decide)).mpr (by decide)

/-- An interrupt of reception that is enabled and pending is not reported. -/
theorem mmc_status_missed :
    ¬ ∀ (start : Mmc), start.AllMasked → ∀ calls : List (Word × Bool),
      (∀ c ∈ calls, isEthMmcIt c.1) → ∀ (i : MmcInt) (mmcri mmcti : Word),
        MmcHonest i calls { start.after calls with mmcri := mmcri, mmcti := mmcti } := by
  intro h
  have hcalls : ∀ c ∈ [(ethMmcIntRfce, true)], isEthMmcIt c.1 := by
    simp [isEthMmcIt, ethMmcIntRfce]
  have hstatus := h maskedMmc maskedMmc_allMasked [(ethMmcIntRfce, true)] hcalls .rfce 0x20 0
  exact absurd (hstatus.mpr (by decide)) (by decide)

end Eth
