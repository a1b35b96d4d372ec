import McuDrivers.At32.Rcc
import McuDrivers.Library.Bits

set_option autoImplicit false

/-! # AT32F4xx: I2C

`I2C_Init` puts a clock divider of 12 bits in `CLKCTRL`, beside the bits for the mode and the duty cycle.
In fast mode the quotient always fits. In standard mode nothing keeps a low bit rate from a quotient
that does not, and that is written to the mode bits as well. -/

namespace At32

/-! ## `I2C_Init` -/

def i2cCtrl1PenSet : BitVec 16 := 0x0001
def i2cCtrl1PenReset : BitVec 16 := 0xFFFE
def i2cCtrl1ClearMask : BitVec 16 := 0xFBF5
def i2cCtrl2ClkfreqReset : BitVec 16 := 0xFF00
def clkctrlFsmodeSet : BitVec 16 := 0x8000
def clkctrlClkctrlSet : BitVec 16 := 0x0FFF
def clkctrlFmduty : BitVec 16 := 0x4000

def i2cFmDutyCycle16_9 : BitVec 16 := 0x4000
def i2cFmDutyCycle2_1 : BitVec 16 := 0xBFFF

def isI2cBitRate (rate : Word) : Prop := 0x1 ≤ rate ∧ rate ≤ 400000

def isI2cFmDutyCycle (cycle : BitVec 16) : Prop :=
  cycle = i2cFmDutyCycle16_9 ∨ cycle = i2cFmDutyCycle2_1

/-- `I2C_InitType` -/
structure I2cInitType where
  bitRate : Word
  mode : BitVec 16
  fmDutyCycle : BitVec 16
  ownAddr1 : BitVec 16
  ack : BitVec 16
  addrMode : BitVec 16

structure I2c where
  ctrl1 : BitVec 16
  ctrl2 : BitVec 16
  oaddr1 : BitVec 16
  clkctrl : BitVec 16
  tmrise : BitVec 16

/-- Standard mode speed. -/
def i2cStandard (pclk1 bitRate : Word) : Option (BitVec 16) := do
  let quotient ← Checked.div pclk1 (bitRate <<< 1)
  let result := quotient.setWidth 16
  return if result < 0x04 then 0x04 else result

/-- Fast mode speed, with the duty cycle. -/
def i2cFast (pclk1 bitRate : Word) (fmDutyCycle : BitVec 16) : Option (BitVec 16) :=
  if fmDutyCycle = i2cFmDutyCycle2_1 then do
    let quotient ← Checked.div pclk1 (bitRate * 3)
    return quotient.setWidth 16
  else do
    let quotient ← Checked.div pclk1 (bitRate * 25)
    return quotient.setWidth 16 ||| i2cFmDutyCycle16_9

/-- The value of `CLKCTRL`. -/
def i2cClkctrl (pclk1 : Word) (init : I2cInitType) : Option (BitVec 16) :=
  if init.bitRate ≤ 100000 then i2cStandard pclk1 init.bitRate
  else do
    let result ← i2cFast pclk1 init.bitRate init.fmDutyCycle
    let result := if result &&& clkctrlClkctrlSet = 0 then result ||| 0x0001 else result
    return result ||| clkctrlFsmodeSet

/-- The value of `TMRISE`. -/
def i2cTmrise (freqrange : BitVec 16) (init : I2cInitType) : BitVec 16 :=
  if init.bitRate ≤ 100000 then freqrange + 1
  else (freqrange.setWidth 32 * 300 / 1000 + 1 : Word).setWidth 16

/-- `rccClocks` is what `RCC_GetClocksFreq` reports. -/
def i2cInit (rccClocks : RccClockType) (init : I2cInitType) (r : I2c) : Option I2c := do
  let pclk1 := rccClocks.apb1clkFreq
  let freqrange := (pclk1 / 1000000).setWidth 16
  let r := { r with ctrl2 := (r.ctrl2 &&& i2cCtrl2ClkfreqReset) ||| freqrange }
  let r := { r with ctrl1 := r.ctrl1 &&& i2cCtrl1PenReset }
  let clkctrl ← i2cClkctrl pclk1 init
  let r := { r with tmrise := i2cTmrise freqrange init, clkctrl := clkctrl }
  let r := { r with ctrl1 := r.ctrl1 ||| i2cCtrl1PenSet }
  let r := { r with ctrl1 := (r.ctrl1 &&& i2cCtrl1ClearMask) ||| (init.mode ||| init.ack) }
  return { r with oaddr1 := init.addrMode ||| init.ownAddr1 }

/-! ## What is asked for -/

def I2cInitType.Fast (init : I2cInitType) : Prop := 100000 < init.bitRate.toNat

/-- The divider, in numbers. -/
def I2cInitType.divider (init : I2cInitType) (pclk1 : Nat) : Nat :=
  if init.bitRate.toNat ≤ 100000 then max 4 (pclk1 / (2 * init.bitRate.toNat))
  else if init.fmDutyCycle = i2cFmDutyCycle16_9 then max 1 (pclk1 / (25 * init.bitRate.toNat))
  else max 1 (pclk1 / (3 * init.bitRate.toNat))

/-- `CLKCTRL` holds the divider, the mode and the duty cycle that are asked for, and nothing else. -/
structure I2cInitType.Holds (init : I2cInitType) (pclk1 : Nat) (clkctrl : BitVec 16) : Prop where
  divider : (clkctrl &&& clkctrlClkctrlSet).toNat = init.divider pclk1
  fsmode : clkctrl &&& clkctrlFsmodeSet ≠ 0 ↔ init.Fast
  fmduty : clkctrl &&& clkctrlFmduty ≠ 0 ↔ init.Fast ∧ init.fmDutyCycle = i2cFmDutyCycle16_9
  rest : clkctrl &&& ~~~(clkctrlClkctrlSet ||| clkctrlFsmodeSet ||| clkctrlFmduty) = 0

variable {init : I2cInitType} {pclk1 : Word} {v low : BitVec 16}

/-! ## The field -/

theorem toNat_and_clkctrl (v : BitVec 16) : (v &&& clkctrlClkctrlSet).toNat = v.toNat % 4096 := by
  rw [BitVec.toNat_and]
  exact Nat.and_two_pow_sub_one_eq_mod v.toNat 12

/-- What fits in the field has no other bits. -/
theorem and_outside_clkctrl (mask : BitVec 16) (h : low.toNat < 4096)
    (hmask : clkctrlClkctrlSet &&& mask = 0) : low &&& mask = 0 := by
  have hlow : low &&& clkctrlClkctrlSet = low := Mask.and_eq_self_of_lt (n := 12) (by decide) h
  rw [← hlow]
  exact Mask.and_and_of_disjoint low hmask

/-! ## Standard mode -/

theorem i2cStandard_eq (pclk1 : Word) {rate : Word} (hlow : 1 ≤ rate.toNat)
    (hhigh : rate.toNat ≤ 100000) :
    ∃ v, i2cStandard pclk1 rate = some v ∧
      v.toNat = max 4 (pclk1.toNat / (2 * rate.toNat) % 65536) := by
  have htwice : (rate <<< 1).toNat = 2 * rate.toNat := by
    rw [BitVec.toNat_shiftLeft, Nat.shiftLeft_eq]
    omega
  obtain ⟨q, hq, hqval⟩ := Checked.div_of_ne_zero pclk1 (b := rate <<< 1) (by omega)
  rw [htwice] at hqval
  refine ⟨_, by rw [i2cStandard, hq]; rfl, ?_⟩
  have htrunc : (q.setWidth 16).toNat = pclk1.toNat / (2 * rate.toNat) % 65536 := by
    rw [BitVec.toNat_setWidth, hqval]
  have hmin : q.setWidth 16 < 0x04 ↔ pclk1.toNat / (2 * rate.toNat) % 65536 < 4 := by
    rw [BitVec.lt_def, htrunc]
    rfl
  simp only [hmin]
  split
  · show 4 = _
    omega
  · rw [htrunc]
    omega

/-- The divider fits, or the bits above the field are set in its place. -/
theorem holds_standard_iff (hlow : 1 ≤ init.bitRate.toNat) (hhigh : init.bitRate.toNat ≤ 100000)
    (hv : v.toNat = max 4 (pclk1.toNat / (2 * init.bitRate.toNat) % 65536)) :
    init.Holds pclk1.toNat v ↔ pclk1.toNat < 8192 * init.bitRate.toNat := by
  have hslow : ¬ init.Fast := by
    unfold I2cInitType.Fast
    omega
  have hdivider : init.divider pclk1.toNat = max 4 (pclk1.toNat / (2 * init.bitRate.toNat)) :=
    if_pos hhigh
  have hfits : pclk1.toNat / (2 * init.bitRate.toNat) < 4096 ↔
      pclk1.toNat < 8192 * init.bitRate.toNat := by
    rw [Nat.div_lt_iff_lt_mul (by omega)]
    omega
  rw [← hfits]
  generalize pclk1.toNat / (2 * init.bitRate.toNat) = q at *
  constructor
  · intro h
    have hfield := h.divider
    rw [hdivider, toNat_and_clkctrl] at hfield
    omega
  · intro hq
    have hsmall : v.toNat < 4096 := by omega
    constructor
    · rw [hdivider, toNat_and_clkctrl]
      omega
    · simp [hslow, and_outside_clkctrl clkctrlFsmodeSet hsmall (by decide)]
    · simp [hslow, and_outside_clkctrl clkctrlFmduty hsmall (by decide)]
    · exact and_outside_clkctrl _ hsmall (by decide)

/-! ## Fast mode -/

/-- A quotient with a duty bit, after the test for the smallest value. -/
theorem atLeast_one {q : BitVec 16} (duty : BitVec 16) (hq : q.toNat < 4096)
    (hduty : duty &&& clkctrlClkctrlSet = 0) :
    ∃ low : BitVec 16, low.toNat = max 1 q.toNat ∧
      (if (q ||| duty) &&& clkctrlClkctrlSet = 0 then q ||| duty ||| 0x0001 else q ||| duty) =
        low ||| duty := by
  have hseen : ((q ||| duty) &&& clkctrlClkctrlSet).toNat = q.toNat := by
    rw [Mask.or_and_of_disjoint q hduty, toNat_and_clkctrl, Nat.mod_eq_of_lt hq]
  by_cases hzero : q = 0
  · refine ⟨1, by rw [hzero]; rfl, ?_⟩
    rw [if_pos (BitVec.eq_of_toNat_eq (by rw [hseen, hzero])), hzero, BitVec.or_comm]
    exact congrArg _ BitVec.zero_or
  · have hpos : q.toNat ≠ 0 := fun h => hzero (BitVec.eq_of_toNat_eq h)
    refine ⟨q, by omega, if_neg ?_⟩
    intro h
    rw [h] at hseen
    exact hpos hseen.symm

/-- The three parts of `CLKCTRL` in fast mode do not meet. -/
theorem holds_fast (hfast : 100000 < init.bitRate.toNat) {duty : BitVec 16}
    (hlow : low.toNat < 4096) (hdivider : low.toNat = init.divider pclk1.toNat)
    (hduty : duty = if init.fmDutyCycle = i2cFmDutyCycle16_9 then clkctrlFmduty else 0) :
    init.Holds pclk1.toNat (low ||| duty ||| clkctrlFsmodeSet) := by
  have hfast' : init.Fast := hfast
  have hseen : ∀ mask, clkctrlClkctrlSet &&& mask = 0 →
      (low ||| duty ||| clkctrlFsmodeSet) &&& mask = (duty ||| clkctrlFsmodeSet) &&& mask := by
    intro mask hmask
    rw [BitVec.or_assoc, BitVec.and_or_distrib_right, and_outside_clkctrl mask hlow hmask]
    exact BitVec.zero_or
  have hother : (duty ||| clkctrlFsmodeSet) &&& clkctrlClkctrlSet = 0 := by
    rw [hduty]
    split <;> decide
  constructor
  · rw [BitVec.or_assoc, Mask.or_and_of_disjoint low hother, toNat_and_clkctrl,
      Nat.mod_eq_of_lt hlow, hdivider]
  · rw [hseen _ (by decide), hduty]
    split <;> simp [hfast'] <;> decide
  · rw [hseen _ (by decide), hduty]
    split <;> simp_all <;> decide
  · rw [hseen _ (by decide), hduty]
    split <;> decide

theorem i2cFast_eq (hpclk1 : pclk1.toNat ≤ 120000000) (hlow : 100000 < init.bitRate.toNat)
    (hhigh : init.bitRate.toNat ≤ 400000) (hcycle : isI2cFmDutyCycle init.fmDutyCycle) :
    ∃ q : BitVec 16, q.toNat < 4096 ∧ max 1 q.toNat = init.divider pclk1.toNat ∧
      i2cFast pclk1 init.bitRate init.fmDutyCycle = some (q |||
        if init.fmDutyCycle = i2cFmDutyCycle16_9 then clkctrlFmduty else 0) := by
  have hfast : ¬ init.bitRate.toNat ≤ 100000 := by omega
  have hquotient : ∀ k : Word, 3 ≤ k.toNat → k.toNat ≤ 25 → ∃ q,
      Checked.div pclk1 (init.bitRate * k) = some q ∧ (q.setWidth 16).toNat < 4096 ∧
        (q.setWidth 16).toNat = pclk1.toNat / (k.toNat * init.bitRate.toNat) := by
    intro k hk3 hk25
    have hprod := Nat.mul_le_mul hhigh hk25
    have hpos := Nat.mul_le_mul (Nat.le_of_lt hlow) hk3
    have hmul : (init.bitRate * k).toNat = init.bitRate.toNat * k.toNat :=
      BitVec.toNat_mul_of_lt (by omega)
    obtain ⟨q, hq, hqval⟩ := Checked.div_of_ne_zero pclk1 (b := init.bitRate * k) (by omega)
    have hbound : q.toNat < 4096 := by
      rw [hqval, hmul, Nat.div_lt_iff_lt_mul (by omega)]
      omega
    have htrunc : (q.setWidth 16).toNat = q.toNat := by
      rw [BitVec.toNat_setWidth, Nat.mod_eq_of_lt (by omega)]
    refine ⟨q, hq, by omega, ?_⟩
    rw [htrunc, hqval, hmul, Nat.mul_comm]
  rcases hcycle with hcycle | hcycle
  · obtain ⟨q, hq, hsmall, hval⟩ := hquotient 25 (by decide) (by decide)
    refine ⟨q.setWidth 16, hsmall, ?_, ?_⟩
    · rw [I2cInitType.divider, if_neg hfast, if_pos hcycle, hval]
      rfl
    · rw [hcycle, i2cFast, if_neg (by decide), hq]
      rfl
  · have hother : init.fmDutyCycle ≠ i2cFmDutyCycle16_9 := by
      rw [hcycle]
      decide
    obtain ⟨q, hq, hsmall, hval⟩ := hquotient 3 (by decide) (by decide)
    refine ⟨q.setWidth 16, hsmall, ?_, ?_⟩
    · rw [I2cInitType.divider, if_neg hfast, if_neg hother, hval]
      rfl
    · rw [if_neg hother, i2cFast, if_pos hcycle, hq]
      exact congrArg some BitVec.or_zero.symm

/-! ## Both modes -/

theorem i2cClkctrl_holds_iff (hpclk1 : pclk1.toNat ≤ 120000000) (hrate : isI2cBitRate init.bitRate)
    (hcycle : isI2cFmDutyCycle init.fmDutyCycle) :
    ∃ v, i2cClkctrl pclk1 init = some v ∧
      (init.Holds pclk1.toNat v ↔
        100000 < init.bitRate.toNat ∨ pclk1.toNat < 8192 * init.bitRate.toNat) := by
  have hlow : 1 ≤ init.bitRate.toNat := hrate.1
  have hhigh : init.bitRate.toNat ≤ 400000 := hrate.2
  have hmode : init.bitRate ≤ 100000 ↔ init.bitRate.toNat ≤ 100000 := BitVec.le_def
  simp only [i2cClkctrl, hmode]
  split
  · next hslow =>
      obtain ⟨v, hv, hval⟩ := i2cStandard_eq pclk1 hlow hslow
      refine ⟨v, hv, ?_⟩
      rw [holds_standard_iff hlow hslow hval]
      omega
  · next hfast =>
      obtain ⟨q, hsmall, hdivider, hq⟩ := i2cFast_eq hpclk1 (by omega) hhigh hcycle
      obtain ⟨low, hmin, hlowEq⟩ := atLeast_one
        (if init.fmDutyCycle = i2cFmDutyCycle16_9 then clkctrlFmduty else 0) hsmall
        (by split <;> decide)
      have hfits : low.toNat < 4096 := by omega
      refine ⟨_, by rw [hq]; exact congrArg (some <| · ||| clkctrlFsmodeSet) hlowEq, ?_⟩
      simp only [holds_fast (by omega) hfits (hmin.trans hdivider) rfl, true_iff]
      omega

/-- **`I2C_Init` always writes the fast mode divider right, and the standard mode divider exactly where
    it fits: where the clock is below 8192 times the bit rate.** -/
theorem i2c_clkctrl_iff (rccClocks : RccClockType) (init : I2cInitType) (r : I2c)
    (hpclk1 : rccClocks.apb1clkFreq.toNat ≤ 120000000) (hrate : isI2cBitRate init.bitRate)
    (hcycle : isI2cFmDutyCycle init.fmDutyCycle) :
    ∃ r', i2cInit rccClocks init r = some r' ∧
      (init.Holds rccClocks.apb1clkFreq.toNat r'.clkctrl ↔
        100000 < init.bitRate.toNat ∨
          rccClocks.apb1clkFreq.toNat < 8192 * init.bitRate.toNat) := by
  obtain ⟨v, hv, hiff⟩ := i2cClkctrl_holds_iff hpclk1 hrate hcycle
  exact ⟨_, by rw [i2cInit, hv]; rfl, hiff⟩

/-- 100 kHz from 36 MHz. -/
theorem i2c_clkctrl_100k :
    let rccClocks : RccClockType := ⟨72000000, 72000000, 36000000, 72000000, 12000000⟩
    let init : I2cInitType := ⟨100000, 0, i2cFmDutyCycle2_1, 0, 0x0400, 0x4000⟩
    let r : I2c := ⟨0, 0, 0, 0, 0x0002⟩
    ∃ r', i2cInit rccClocks init r = some r' ∧
      (init.Holds 36000000 r'.clkctrl ↔ 100000 < 100000 ∨ 36000000 < 8192 * 100000) := by
  intro rccClocks init r
  exact i2c_clkctrl_iff rccClocks init r (by decide) ⟨by decide, by decide⟩ (Or.inr rfl)

/-- 1 kHz from 36 MHz: the divider of 18000 is read back as 1616, with the duty bit. -/
theorem i2c_clkctrl_1k :
    let rccClocks : RccClockType := ⟨72000000, 72000000, 36000000, 72000000, 12000000⟩
    let init : I2cInitType := ⟨1000, 0, i2cFmDutyCycle2_1, 0, 0x0400, 0x4000⟩
    let r : I2c := ⟨0, 0, 0, 0, 0x0002⟩
    rccClocks.apb1clkFreq.toNat ≤ 120000000 ∧ isI2cBitRate init.bitRate ∧
      isI2cFmDutyCycle init.fmDutyCycle ∧
      ∃ r', i2cInit rccClocks init r = some r' ∧ r'.clkctrl = 18000 ∧
        r'.clkctrl &&& clkctrlClkctrlSet = 1616 ∧ r'.clkctrl &&& clkctrlFmduty ≠ 0 ∧
        ¬ init.Holds 36000000 r'.clkctrl := by
  intro rccClocks init r
  refine ⟨by decide, ⟨by decide, by decide⟩, Or.inr rfl, _, rfl, by decide, by decide, by decide, ?_⟩
  intro h
  have hdivider : init.divider 36000000 = 18000 := by decide
  have hfield := h.divider
  rw [hdivider, toNat_and_clkctrl] at hfield
  omega

end At32
