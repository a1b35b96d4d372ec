import McuDrivers.At32.Flash
import McuDrivers.Library.Bits
import McuDrivers.Library.Calls
import McuDrivers.Library.Loop
import McuDrivers.Library.Slots

set_option autoImplicit false

/-! # AT32F4xx: GPIO

`GPIO_Init` configures the pins of a mask. A pin has four bits in `CTRLL`, or in `CTRLH` from pin 8 on,
and for the pull-up and the pull-down of an input its bit of the output latch is written as well. -/

namespace At32

open Calls

/-! ## `GPIO_Init` -/

def gpioMaxSpeed10MHz : Word := 1
def gpioMaxSpeed2MHz : Word := 2
def gpioMaxSpeed50MHz : Word := 2

def isGpioMaxSpeed (maxSpeed : Word) : Prop :=
  maxSpeed = gpioMaxSpeed10MHz ∨ maxSpeed = gpioMaxSpeed2MHz ∨ maxSpeed = gpioMaxSpeed50MHz

def gpioModeInAnalog : Word := 0x0
def gpioModeInFloating : Word := 0x04
def gpioModeInPd : Word := 0x28
def gpioModeInPu : Word := 0x48
def gpioModeOutOd : Word := 0x14
def gpioModeOutPp : Word := 0x10
def gpioModeAfOd : Word := 0x1C
def gpioModeAfPp : Word := 0x18

def isGpioMde (mde : Word) : Prop :=
  mde = gpioModeInAnalog ∨ mde = gpioModeInFloating ∨ mde = gpioModeInPd ∨ mde = gpioModeInPu ∨
    mde = gpioModeOutOd ∨ mde = gpioModeOutPp ∨ mde = gpioModeAfOd ∨ mde = gpioModeAfPp

def isGpioPins (pins : BitVec 16) : Prop := pins &&& 0x00 = 0x00 ∧ pins ≠ 0x00

/-- `GPIO_InitType` -/
structure GpioInitType where
  pins : BitVec 16
  maxSpeed : Word
  mode : Word

/-- What the asserts accept. The speed is looked at for an output only. -/
structure GpioInitType.Accepted (init : GpioInitType) : Prop where
  mode : isGpioMde init.mode
  pins : isGpioPins init.pins
  maxSpeed : init.mode &&& 0x10 ≠ 0x00 → isGpioMaxSpeed init.maxSpeed

structure Gpio where
  ctrll : Word
  ctrlh : Word
  /-- the output latch -/
  optdt : Word

/-- `GPIOx->BRE = v`: the 1s of the lower half clear bits of the latch. -/
def Gpio.storeBre (v : Word) (s : Gpio) : Gpio :=
  { s with optdt := s.optdt &&& ~~~(v &&& 0x0000FFFF) }

/-- `GPIOx->BSRE = v`: the 1s of the lower half set bits of the latch, those of the upper half clear. -/
def Gpio.storeBsre (v : Word) (s : Gpio) : Gpio :=
  { s with optdt := (s.optdt &&& ~~~(v >>> 16)) ||| (v &&& 0x0000FFFF) }

def GpioInitType.currentmode (init : GpioInitType) : Word :=
  let currentmode := init.mode &&& 0x0F
  if init.mode &&& 0x10 ≠ 0x00 then currentmode ||| init.maxSpeed else currentmode

/-- The bits of a pin in the control register that is built up. -/
def gpioStore (currentmode : Word) (pinpos : Nat) (tmpreg : Word) : Word :=
  let pos := pinpos <<< 2
  let pinmask := (0x0F : Word) <<< pos
  let tmpreg := tmpreg &&& ~~~pinmask
  tmpreg ||| (currentmode <<< pos)

/-- A turn of the loop over the eight low pins. -/
def gpioLowPin (init : GpioInitType) (pinpos : Nat) (t : Word × Gpio) : Word × Gpio :=
  let pos := (0x01 : Word) <<< pinpos
  let currentpin := init.pins.setWidth 32 &&& pos
  if currentpin = pos then
    let tmpreg := gpioStore init.currentmode pinpos t.1
    if init.mode = gpioModeInPd then (tmpreg, t.2.storeBre ((0x01 : Word) <<< pinpos))
    else if init.mode = gpioModeInPu then (tmpreg, t.2.storeBsre ((0x01 : Word) <<< pinpos))
    else (tmpreg, t.2)
  else t

/-- A turn of the loop over the eight high pins. -/
def gpioHighPin (init : GpioInitType) (pinpos : Nat) (t : Word × Gpio) : Word × Gpio :=
  let pos := (0x01 : Word) <<< (pinpos + 0x08)
  let currentpin := init.pins.setWidth 32 &&& pos
  if currentpin = pos then
    let tmpreg := gpioStore init.currentmode pinpos t.1
    let s := if init.mode = gpioModeInPd then t.2.storeBre ((0x01 : Word) <<< (pinpos + 0x08)) else t.2
    let s := if init.mode = gpioModeInPu then s.storeBsre ((0x01 : Word) <<< (pinpos + 0x08)) else s
    (tmpreg, s)
  else t

def gpioInitLow (init : GpioInitType) (s : Gpio) : Gpio :=
  if init.pins.setWidth 32 &&& 0x00FF ≠ (0x00 : Word) then
    let (tmpreg, s) := forLoop 8 (gpioLowPin init) (s.ctrll, s)
    { s with ctrll := tmpreg }
  else s

def gpioInitHigh (init : GpioInitType) (s : Gpio) : Gpio :=
  if init.pins > 0x00FF then
    let (tmpreg, s) := forLoop 8 (gpioHighPin init) (s.ctrlh, s)
    { s with ctrlh := tmpreg }
  else s

def gpioInit (init : GpioInitType) (s : Gpio) : Gpio := gpioInitHigh init (gpioInitLow init s)

/-! ## Pins -/

/-- The configuration of a pin. -/
def Gpio.config (pin : Nat) (s : Gpio) : BitVec 4 :=
  if pin < 8 then Slots.get 4 pin s.ctrll else Slots.get 4 (pin - 8) s.ctrlh

/-- The bit of a pin in the output latch. -/
def Gpio.latch (pin : Nat) (s : Gpio) : Bool := s.optdt.getLsbD pin

namespace GpioInitType

def Names (init : GpioInitType) (pin : Nat) : Prop := init.pins.getLsbD pin = true

instance (init : GpioInitType) (pin : Nat) : Decidable (init.Names pin) :=
  inferInstanceAs (Decidable (_ = _))

/-- The mode, with the speed if it is that of an output. -/
def code (init : GpioInitType) : BitVec 4 :=
  init.mode.setWidth 4 ||| if init.mode.getLsbD 4 then init.maxSpeed.setWidth 4 else 0

/-- The configuration that a call gives a pin, if it names it. -/
def configOf (pin : Nat) (init : GpioInitType) : Option (BitVec 4) :=
  if init.Names pin then some init.code else none

/-- What a call makes of the output latch of a pin, if it names it and selects a pull. -/
def latchOf (pin : Nat) (init : GpioInitType) : Option Bool :=
  if init.Names pin then
    if init.mode = gpioModeInPd then some false
    else if init.mode = gpioModeInPu then some true else none
  else none

end GpioInitType

variable {init : GpioInitType} {pin i j base : Nat}

/-! ## Values -/

theorem gpioStore_eq (currentmode : Word) (pinpos : Nat) (tmpreg : Word) :
    gpioStore currentmode pinpos tmpreg = Slots.put 4 pinpos currentmode tmpreg := by
  have hpos : pinpos <<< 2 = 4 * pinpos := by
    rw [Nat.shiftLeft_eq]
    omega
  unfold gpioStore Slots.put
  rw [hpos]
  rfl

/-- What is stored for a pin has four bits, and is the code. -/
theorem GpioInitType.Accepted.currentmode (h : init.Accepted) :
    init.currentmode.toNat < 2 ^ 4 ∧ init.currentmode.setWidth 4 = init.code := by
  have hmode : (init.mode &&& 0x0F).toNat < 2 ^ 4 ∧
      (init.mode &&& 0x0F).setWidth 4 = init.mode.setWidth 4 := by
    constructor
    · rw [BitVec.toNat_and]
      exact Nat.lt_of_le_of_lt Nat.and_le_right (by decide)
    · rw [BitVec.setWidth_and]
      exact BitVec.and_allOnes
  have hbit : init.mode &&& 0x10 ≠ 0x00 ↔ init.mode.getLsbD 4 = true := by
    rw [show (0x10 : Word) = BitVec.twoPow 32 4 by decide]
    exact Mask.and_twoPow_ne_zero init.mode (by decide)
  unfold GpioInitType.currentmode GpioInitType.code
  simp only [hbit]
  split
  · next hout =>
      rw [BitVec.setWidth_or, hmode.2]
      refine ⟨?_, rfl⟩
      rw [BitVec.toNat_or]
      refine Nat.or_lt_two_pow hmode.1 ?_
      rcases h.maxSpeed (hbit.mpr hout) with hs | hs | hs <;> rw [hs] <;> decide
  · simpa using hmode

theorem names_iff (init : GpioInitType) (hpin : pin < 16) :
    init.pins.setWidth 32 &&& (0x01 : Word) <<< pin = (0x01 : Word) <<< pin ↔ init.Names pin := by
  have hbit : (0x01 : Word) <<< pin = BitVec.twoPow 32 pin := (BitVec.twoPow_eq ..).symm
  rw [hbit, Mask.and_twoPow_eq _ (by omega), BitVec.getLsbD_setWidth]
  simp [GpioInitType.Names, show pin < 32 by omega]

/-! ## The output latch -/

/-- What a call does to the latch for a pin of its mask. -/
def GpioInitType.pull (init : GpioInitType) (pin : Nat) (s : Gpio) : Gpio :=
  if init.mode = gpioModeInPd then s.storeBre ((0x01 : Word) <<< pin)
  else if init.mode = gpioModeInPu then s.storeBsre ((0x01 : Word) <<< pin) else s

theorem getLsbD_bit (pin : Nat) (hj : j < 32) :
    ((0x01 : Word) <<< pin).getLsbD j = decide (pin = j) := by
  rw [show (0x01 : Word) <<< pin = BitVec.twoPow 32 pin from (BitVec.twoPow_eq ..).symm,
    BitVec.getLsbD_twoPow]
  rw [Bool.and_eq_right_iff_imp, decide_eq_true_eq, decide_eq_true_eq]
  rintro rfl
  exact hj

theorem getLsbD_lowerHalf (hj : j < 16) : (0x0000FFFF : Word).getLsbD j = true := by
  rw [show (0x0000FFFF : Word) = (BitVec.allOnes 16).setWidth 32 by decide, BitVec.getLsbD_setWidth,
    BitVec.getLsbD_allOnes]
  simp [hj, show j < 32 by omega]

theorem latch_storeBre (s : Gpio) (pin : Nat) (hj : j < 16) :
    (s.storeBre ((0x01 : Word) <<< pin)).latch j = if pin = j then false else s.latch j := by
  have hw : j < 32 := by omega
  simp only [Gpio.latch, Gpio.storeBre, BitVec.getLsbD_and, BitVec.getLsbD_not, getLsbD_bit pin hw,
    getLsbD_lowerHalf hj, hw, decide_true, Bool.true_and, Bool.and_true]
  split_ifs with h <;> simp [h]

theorem latch_storeBsre (s : Gpio) (hpin : pin < 16) (hj : j < 16) :
    (s.storeBsre ((0x01 : Word) <<< pin)).latch j = if pin = j then true else s.latch j := by
  have hw : j < 32 := by omega
  have hne : pin ≠ 16 + j := by omega
  simp only [Gpio.latch, Gpio.storeBsre, BitVec.getLsbD_or, BitVec.getLsbD_and, BitVec.getLsbD_not,
    BitVec.getLsbD_ushiftRight, getLsbD_bit pin hw, getLsbD_bit pin (show 16 + j < 32 by omega),
    getLsbD_lowerHalf hj, hw, hne, decide_true, decide_false, Bool.not_false, Bool.and_true]
  split_ifs with h <;> simp [h]

theorem latch_pull (s : Gpio) (hpin : pin < 16) (hnames : init.Names pin) (hj : j < 16) :
    (init.pull pin s).latch j = if pin = j then (init.latchOf j).getD (s.latch j) else s.latch j := by
  unfold GpioInitType.pull
  rcases eq_or_ne pin j with rfl | hne
  · unfold GpioInitType.latchOf
    rw [if_pos hnames, if_pos rfl]
    split_ifs
    · rw [latch_storeBre s pin hj, if_pos rfl]
      rfl
    · rw [latch_storeBsre s hpin hj, if_pos rfl]
      rfl
    · rfl
  · rw [if_neg hne]
    split_ifs
    · rw [latch_storeBre s pin hj, if_neg hne]
    · rw [latch_storeBsre s hpin hj, if_neg hne]
    · rfl

@[simp] theorem ctrll_pull (init : GpioInitType) (pin : Nat) (s : Gpio) :
    (init.pull pin s).ctrll = s.ctrll := by
  unfold GpioInitType.pull
  split_ifs <;> rfl

@[simp] theorem ctrlh_pull (init : GpioInitType) (pin : Nat) (s : Gpio) :
    (init.pull pin s).ctrlh = s.ctrlh := by
  unfold GpioInitType.pull
  split_ifs <;> rfl

/-! ## The two loops -/

/-- A turn of either loop, for eight pins from `base` on. -/
def gpioTurn (init : GpioInitType) (base i : Nat) (t : Word × Gpio) : Word × Gpio :=
  if init.Names (base + i) then (Slots.put 4 i init.currentmode t.1, init.pull (base + i) t.2) else t

theorem gpioLowPin_eq (init : GpioInitType) (hi : i < 8) : gpioLowPin init i = gpioTurn init 0 i := by
  funext t
  simp only [gpioLowPin, gpioTurn, names_iff init (show i < 16 by omega), gpioStore_eq,
    GpioInitType.pull, Nat.zero_add]
  split_ifs <;> rfl

/-- No mode is both the pull-down and the pull-up. -/
theorem gpioHighPin_eq (init : GpioInitType) (hi : i < 8) : gpioHighPin init i = gpioTurn init 8 i := by
  funext t
  simp only [gpioHighPin, gpioTurn, names_iff init (show i + 0x08 < 16 by omega), gpioStore_eq,
    GpioInitType.pull, Nat.add_comm 8 i]
  split_ifs with hnames hpd hpu
  · rw [hpd] at hpu
    exact absurd hpu (by decide)
  all_goals rfl

section Turns

variable {t : Word × Gpio}

/-- The slot of the pin is stored, and the others are kept. -/
theorem slot_gpioTurn (h : init.Accepted) (base : Nat) (hi : i < 8) (t : Word × Gpio) :
    Slots.get 4 j (gpioTurn init base i t).1 =
      if i = j then (init.configOf (base + j)).getD (Slots.get 4 j t.1) else Slots.get 4 j t.1 := by
  unfold gpioTurn GpioInitType.configOf
  rcases eq_or_ne i j with rfl | hne
  · rw [if_pos rfl]
    split_ifs
    · rw [Slots.get_put_self (by omega) h.currentmode.1, h.currentmode.2]
      rfl
    · rfl
  · rw [if_neg hne]
    split_ifs
    · exact Slots.get_put_of_ne hne h.currentmode.1 t.1
    · rfl

/-- So is the bit of the latch. -/
theorem latch_gpioTurn (init : GpioInitType) (hi : base + i < 16) (hj : j < 16) (t : Word × Gpio) :
    (gpioTurn init base i t).2.latch j =
      if base + i = j then (init.latchOf j).getD (t.2.latch j) else t.2.latch j := by
  unfold gpioTurn
  split_ifs with hnames heq heq
  · rw [latch_pull t.2 hi hnames hj, if_pos heq]
  · rw [latch_pull t.2 hi hnames hj, if_neg heq]
  · subst heq
    rw [GpioInitType.latchOf, if_neg hnames]
    rfl
  · rfl

theorem slot_gpioLoop (h : init.Accepted) (base : Nat) (hj : j < 8) (t : Word × Gpio) :
    Slots.get 4 j (forLoop 8 (gpioTurn init base) t).1 =
      (init.configOf (base + j)).getD (Slots.get 4 j t.1) :=
  forLoop_pointwise (gpioTurn init base) (fun j t => Slots.get 4 j t.1)
    (fun j v => (init.configOf (base + j)).getD v)
    (fun _ _ t hi _ => slot_gpioTurn h base hi t) t hj

theorem latch_gpioLoop (init : GpioInitType) (base : Nat) (hbase : base + 8 ≤ 16) (hj : j < 8)
    (t : Word × Gpio) :
    (forLoop 8 (gpioTurn init base) t).2.latch (base + j) =
      (init.latchOf (base + j)).getD (t.2.latch (base + j)) :=
  forLoop_pointwise (gpioTurn init base) (fun j t => t.2.latch (base + j))
    (fun j v => (init.latchOf (base + j)).getD v)
    (fun i j t hi hj => by
      simp only [latch_gpioTurn init (show base + i < 16 by omega)
        (show base + j < 16 by omega) t, Nat.add_left_cancel_iff]) t hj

/-- The bits of the other pins are kept. -/
theorem latch_gpioLoop_other (hbase : base + 8 ≤ 16) (hpin : pin < 16)
    (hother : pin < base ∨ base + 8 ≤ pin) (t : Word × Gpio) :
    (forLoop 8 (gpioTurn init base) t).2.latch pin = t.2.latch pin :=
  forLoop_induct (gpioTurn init base) (fun _ t' => t'.2.latch pin = t.2.latch pin) rfl
    fun i t' hi ht' => by
      rw [latch_gpioTurn init (by omega) hpin, if_neg (by omega), ht']

theorem registers_gpioLoop (init : GpioInitType) (base : Nat) (t : Word × Gpio) :
    (forLoop 8 (gpioTurn init base) t).2.ctrll = t.2.ctrll ∧
      (forLoop 8 (gpioTurn init base) t).2.ctrlh = t.2.ctrlh := by
  constructor
  · refine forLoop_keeps 8 _ (fun t => t.2.ctrll) (fun i t => ?_) t
    unfold gpioTurn
    split_ifs <;> simp
  · refine forLoop_keeps 8 _ (fun t => t.2.ctrlh) (fun i t => ?_) t
    unfold gpioTurn
    split_ifs <;> simp

end Turns

/-! ## The call -/

theorem configOf_eq_none (h : ¬ init.Names pin) : init.configOf pin = none := if_neg h

theorem latchOf_eq_none (h : ¬ init.Names pin) : init.latchOf pin = none := if_neg h

/-- The low half is passed over if none of its pins is named, -/
theorem not_names_low (h : ¬ init.pins.setWidth 32 &&& 0x00FF ≠ (0x00 : Word)) (hpin : pin < 8) :
    ¬ init.Names pin := by
  intro hnames
  have hbit := congrArg (·.getLsbD pin) (not_not.mp h)
  rw [show (0x00FF : Word) = (BitVec.allOnes 8).setWidth 32 by decide] at hbit
  simp only [BitVec.getLsbD_and, BitVec.getLsbD_setWidth, BitVec.getLsbD_allOnes] at hbit
  rw [GpioInitType.Names] at hnames
  simp [hnames, hpin, show pin < 32 by omega] at hbit

/-- and so is the high half. -/
theorem not_names_high (h : ¬ init.pins > 0x00FF) (hpin : 8 ≤ pin) : ¬ init.Names pin := by
  intro hnames
  have hle : init.pins.toNat ≤ 0x00FF := Nat.le_of_not_lt h
  have hpow : 2 ^ 8 ≤ 2 ^ pin := Nat.pow_le_pow_right (by decide) hpin
  have hbit : init.pins.toNat.testBit pin = false := Nat.testBit_lt_two_pow (by omega)
  exact absurd (hbit.symm.trans hnames) (by decide)

theorem gpioInitLow_eq (init : GpioInitType) (s : Gpio) :
    gpioInitLow init s =
      if init.pins.setWidth 32 &&& 0x00FF ≠ (0x00 : Word) then
        { (forLoop 8 (gpioTurn init 0) (s.ctrll, s)).2 with
          ctrll := (forLoop 8 (gpioTurn init 0) (s.ctrll, s)).1 }
      else s := by
  rw [gpioInitLow, forLoop_congr fun _ hi => gpioLowPin_eq init hi]

theorem gpioInitHigh_eq (init : GpioInitType) (s : Gpio) :
    gpioInitHigh init s =
      if init.pins > 0x00FF then
        { (forLoop 8 (gpioTurn init 8) (s.ctrlh, s)).2 with
          ctrlh := (forLoop 8 (gpioTurn init 8) (s.ctrlh, s)).1 }
      else s := by
  rw [gpioInitHigh, forLoop_congr fun _ hi => gpioHighPin_eq init hi]

theorem config_gpioInitLow (h : init.Accepted) (pin : Nat) (s : Gpio) :
    (gpioInitLow init s).config pin =
      if pin < 8 then (init.configOf pin).getD (s.config pin) else s.config pin := by
  rw [gpioInitLow_eq]
  unfold Gpio.config
  split_ifs with hlow hany hany
  · rw [slot_gpioLoop h 0 hlow, Nat.zero_add]
  · rw [configOf_eq_none (not_names_low hany hlow)]
    rfl
  · rw [(registers_gpioLoop init 0 (s.ctrll, s)).2]
  · rfl

theorem config_gpioInitHigh (h : init.Accepted) (hpin : pin < 16) (s : Gpio) :
    (gpioInitHigh init s).config pin =
      if pin < 8 then s.config pin else (init.configOf pin).getD (s.config pin) := by
  rw [gpioInitHigh_eq]
  unfold Gpio.config
  split_ifs with hlow hany hany
  · rw [(registers_gpioLoop init 8 (s.ctrlh, s)).1]
  · rfl
  · rw [slot_gpioLoop h 8 (show pin - 8 < 8 by omega), Nat.add_sub_cancel' (by omega)]
  · rw [configOf_eq_none (not_names_high hany (by omega))]
    rfl

theorem latch_gpioInitLow (init : GpioInitType) (hpin : pin < 16) (s : Gpio) :
    (gpioInitLow init s).latch pin =
      if pin < 8 then (init.latchOf pin).getD (s.latch pin) else s.latch pin := by
  rw [gpioInitLow_eq]
  split_ifs with hany hlow hlow
  · have hloop := latch_gpioLoop init 0 (by decide) hlow (s.ctrll, s)
    rwa [Nat.zero_add] at hloop
  · exact latch_gpioLoop_other (by decide) hpin (Or.inr (by omega)) (s.ctrll, s)
  · rw [latchOf_eq_none (not_names_low hany hlow)]
    rfl
  · rfl

theorem latch_gpioInitHigh (init : GpioInitType) (hpin : pin < 16) (s : Gpio) :
    (gpioInitHigh init s).latch pin =
      if pin < 8 then s.latch pin else (init.latchOf pin).getD (s.latch pin) := by
  rw [gpioInitHigh_eq]
  split_ifs with hany hlow hlow
  · exact latch_gpioLoop_other (by decide) hpin (Or.inl hlow) (s.ctrlh, s)
  · have hloop := latch_gpioLoop init 8 (by decide) (show pin - 8 < 8 by omega)
      (s.ctrlh, s)
    rwa [Nat.add_sub_cancel' (by omega)] at hloop
  · rfl
  · rw [latchOf_eq_none (not_names_high hany (by omega))]
    rfl

/-- A call configures the pins that it names, and no others. -/
theorem config_gpioInit (h : init.Accepted) (hpin : pin < 16) (s : Gpio) :
    (gpioInit init s).config pin = (init.configOf pin).getD (s.config pin) := by
  unfold gpioInit
  rw [config_gpioInitHigh h hpin, config_gpioInitLow h]
  split_ifs <;> rfl

/-- It changes the latch for those of them that it pulls. -/
theorem latch_gpioInit (init : GpioInitType) (hpin : pin < 16) (s : Gpio) :
    (gpioInit init s).latch pin = (init.latchOf pin).getD (s.latch pin) := by
  unfold gpioInit
  rw [latch_gpioInitHigh init hpin, latch_gpioInitLow init hpin]
  split_ifs <;> rfl

/-- **After any calls each pin is configured as the last call that named it has it, and its bit of the
    latch is as the last one made it that named it for a pull.** -/
theorem gpio_init_frame (calls : List GpioInitType) (hcalls : ∀ init ∈ calls, init.Accepted) (s : Gpio)
    (pin : Nat) (hpin : pin < 16) :
    (after gpioInit calls s).config pin =
        last (GpioInitType.configOf pin) calls (s.config pin) ∧
      (after gpioInit calls s).latch pin = last (GpioInitType.latchOf pin) calls (s.latch pin) :=
  ⟨after_eq_last (fun _ s h => config_gpioInit h hpin s) hcalls s,
    after_eq_last (fun init s _ => latch_gpioInit init hpin s) hcalls s⟩

/-- Two calls with pin 9 in common, the second an input with a pull-up. -/
theorem gpio_init_frame_pin9 :
    let calls : List GpioInitType := [⟨0x0201, gpioMaxSpeed50MHz, gpioModeOutPp⟩, ⟨0x0300, 0, gpioModeInPu⟩]
    let s := after gpioInit calls ⟨0x44444444, 0x44444444, 0x0001⟩
    s.config 9 = 0x8 ∧ s.latch 9 = true := by
  intro calls s
  have hcalls : ∀ init ∈ calls, init.Accepted := by
    intro init hinit
    rcases List.mem_cons.mp hinit with rfl | hinit
    · exact ⟨by simp [isGpioMde], by simp [isGpioPins], fun _ => by simp [isGpioMaxSpeed]⟩
    · rw [List.mem_singleton.mp hinit]
      exact ⟨by simp [isGpioMde], by simp [isGpioPins], fun h => absurd h (by decide)⟩
  exact gpio_init_frame calls hcalls ⟨0x44444444, 0x44444444, 0x0001⟩ 9 (by decide)

end At32
