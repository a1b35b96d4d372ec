import McuDrivers.At32.RccClocks
import McuDrivers.Library.Rounding

set_option autoImplicit false

/-! # AT32F4xx: I2S

`I2S_Init`, and how close the divider that it writes to `I2SCLKP` comes to the clock over the rate of the
bits. The divider is computed from a quotient in tenths. Its half is stored in two fields, around the bit
for an odd divider and the one for the master clock. -/

namespace At32

/-! ## `I2S_Init` -/

def i2sctrlClearMask : BitVec 16 := 0xF040
def i2sModeSel : BitVec 16 := 0x0800
def i2sFrameformatDl16BitChl16Bit : BitVec 16 := 0x0000
def i2sMclkoeEnable : BitVec 16 := 0x0200
def i2sMclkoeDisable : BitVec 16 := 0x0000
def i2sDivValueMax : BitVec 16 := 0x03FF
def i2sDivExtValueMask : BitVec 16 := 0x0300
def i2sDivExtValueLshiftOffset : Nat := 2
def i2sAudiofreqDefault : Word := 2

def isI2sMclkoe (mclkoe : BitVec 16) : Prop := mclkoe = i2sMclkoeEnable ∨ mclkoe = i2sMclkoeDisable

/-- `I2S_InitType` -/
structure I2sInitType where
  mode : BitVec 16
  audioProtocol : BitVec 16
  frameFormat : BitVec 16
  mclkoe : BitVec 16
  audioFreq : Word
  cpol : BitVec 16

structure I2s where
  i2sctrl : BitVec 16
  i2sclkp : BitVec 16

/-- The periods for each sample, of the master clock or of the bit clock. -/
def i2sBits (init : I2sInitType) : Word :=
  let packetlength : Word := if init.frameFormat = i2sFrameformatDl16BitChl16Bit then 1 else 2
  if init.mclkoe = i2sMclkoeEnable then 256 else 32 * packetlength

/-- `tmp`, in tenths and with a half added. -/
def i2sTenths (sourceclock bits audioFreq : Word) : Option (BitVec 16) := do
  let quotient ← Checked.div sourceclock bits
  let quotient ← Checked.mul quotient 10
  let quotient ← Checked.div quotient audioFreq
  let quotient ← Checked.add quotient 5
  return quotient.setWidth 16

/-- `i2sdiv` and `i2sodd` -/
def i2sHalves (tmp : Word) : BitVec 16 × BitVec 16 :=
  let tmp := tmp / 10
  let i2sodd := (tmp &&& 0x0001).setWidth 16
  let i2sdiv := ((tmp - i2sodd.setWidth 32) / 2).setWidth 16
  (i2sdiv, i2sodd <<< 8)

/-- The value written to `I2SCLKP`. -/
def i2sClkp (i2sdiv i2sodd mclkoe : BitVec 16) : BitVec 16 :=
  let (i2sdiv, i2sodd) :=
    if i2sdiv < 2 ∨ i2sdiv > i2sDivValueMax then (2, 0)
    else if i2sdiv &&& i2sDivExtValueMask ≠ 0 then
      let i2sdiv := i2sdiv ||| ((i2sdiv &&& i2sDivExtValueMask) <<< i2sDivExtValueLshiftOffset)
      (i2sdiv &&& ~~~i2sDivExtValueMask, i2sodd)
    else (i2sdiv, i2sodd)
  i2sdiv ||| (i2sodd ||| mclkoe)

/-- The value written to `I2SCTRL`, over the bits that were kept. -/
def i2sCtrl (init : I2sInitType) (tmpreg : BitVec 16) : BitVec 16 :=
  tmpreg ||| (i2sModeSel ||| (init.mode ||| (init.audioProtocol ||| (init.frameFormat ||| init.cpol))))

/-- `clocks` is what `RCC_GetClocksFreq` reports. -/
def i2sInit (clocks : RccClockType) (init : I2sInitType) (r : I2s) : Option I2s := do
  let r := { r with i2sctrl := r.i2sctrl &&& i2sctrlClearMask }
  let r := { r with i2sclkp := 0x0002 }
  let tmpreg := r.i2sctrl
  let (i2sdiv, i2sodd) ←
    if init.audioFreq = i2sAudiofreqDefault then pure (2, 0)
    else do
      let tmp ← i2sTenths clocks.sysclkFreq (i2sBits init) init.audioFreq
      pure (i2sHalves (tmp.setWidth 32))
  let r := { r with i2sclkp := i2sClkp i2sdiv i2sodd init.mclkoe }
  return { r with i2sctrl := i2sCtrl init tmpreg }

/-! ## The fields of `I2SCLKP` -/

namespace I2s

def divLow : BitField 16 := ⟨0, 8, by decide⟩
def odd : BitField 16 := ⟨8, 1, by decide⟩
def mclkoe : BitField 16 := ⟨9, 1, by decide⟩
def divExt : BitField 16 := ⟨10, 2, by decide⟩

/-- The divider that a value of the register stands for. -/
def divider (i2sclkp : BitVec 16) : Nat :=
  2 * ((divLow.get i2sclkp).toNat + 256 * (divExt.get i2sclkp).toNat) + (odd.get i2sclkp).toNat

end I2s

variable {i2sdiv parity mclkoe : BitVec 16}

/-- The upper bits of the half, before they are moved. -/
def i2sDivUpper : BitField 16 := ⟨8, 2, by decide⟩

/-- A half with its upper bits moved, if it has any. -/
def i2sSpread (i2sdiv : BitVec 16) : BitVec 16 :=
  (i2sdiv ||| ((i2sdiv &&& i2sDivExtValueMask) <<< i2sDivExtValueLshiftOffset)) &&& ~~~i2sDivExtValueMask

theorem i2sClkp_default (h : i2sdiv.toNat < 2) (i2sodd mclkoe : BitVec 16) :
    i2sClkp i2sdiv i2sodd mclkoe = 2 ||| (0 ||| mclkoe) := by
  rw [i2sClkp, if_pos (Or.inl (show i2sdiv < 2 from h))]

theorem i2sClkp_eq (h : 2 ≤ i2sdiv.toNat) (h' : i2sdiv.toNat < 2 ^ 10) (i2sodd mclkoe : BitVec 16) :
    i2sClkp i2sdiv i2sodd mclkoe = i2sSpread i2sdiv ||| (i2sodd ||| mclkoe) := by
  have hheld : ¬ (i2sdiv < 2 ∨ i2sdiv > i2sDivValueMax) := by
    rintro (hlt | hgt)
    · exact absurd (show i2sdiv.toNat < 2 from hlt) (by omega)
    · exact absurd (show 0x03FF < i2sdiv.toNat from hgt) (by omega)
  rw [i2sClkp, if_neg hheld]
  by_cases hupper : i2sdiv &&& i2sDivExtValueMask ≠ 0
  · rw [if_pos hupper]
    rfl
  · have hzero : i2sdiv &&& i2sDivExtValueMask = 0 := not_not.mp hupper
    have hkeep : i2sdiv &&& ~~~i2sDivExtValueMask = i2sdiv :=
      Mask.and_eq_self (by rwa [BitVec.not_not])
    have hspread : i2sSpread i2sdiv = i2sdiv := by
      rw [i2sSpread, hzero]
      exact (congrArg (· &&& ~~~i2sDivExtValueMask) BitVec.or_zero).trans hkeep
    rw [if_neg hupper, hspread]

theorem i2sSpread_eq (i2sdiv : BitVec 16) :
    i2sSpread i2sdiv =
      (i2sdiv ||| ((i2sDivUpper.get i2sdiv).setWidth 16 <<< 10)) &&& ~~~i2sDivExtValueMask := by
  have hmask : i2sDivExtValueMask = i2sDivUpper.mask := by decide
  rw [i2sSpread]
  conv_lhs => rw [hmask, BitField.and_mask, ← hmask]
  rw [← BitVec.shiftLeft_add]
  rfl

/-- The moved bits are in their field, and the bits for an odd divider and the master clock are free. -/
theorem get_i2sSpread (h : i2sdiv.toNat < 2 ^ 10) :
    I2s.divLow.get (i2sSpread i2sdiv) = I2s.divLow.get i2sdiv ∧
      (I2s.divExt.get (i2sSpread i2sdiv)).toNat = (i2sDivUpper.get i2sdiv).toNat ∧
      I2s.odd.get (i2sSpread i2sdiv) = 0 ∧ I2s.mclkoe.get (i2sSpread i2sdiv) = 0 := by
  rw [i2sSpread_eq]
  refine ⟨?_, ?_, BitField.get_and_of_zero (by decide) _, BitField.get_and_of_zero (by decide) _⟩
  · rw [BitField.get_and_of_ones (by decide),
      BitField.get_or_of_zero (BitField.get_shiftLeft_of_le (by decide) _)]
  · rw [BitField.get_and_of_ones (by decide), BitField.get_or,
      BitField.get_eq_zero_of_lt (f := I2s.divExt) h]
    refine congrArg BitVec.toNat ((BitVec.zero_or).trans ((BitField.get_shiftLeft I2s.divExt _).trans ?_))
    exact (BitVec.setWidth_setWidth_of_le _ (by decide)).trans (BitVec.setWidth_eq _)

/-- A word of ten bits, from its fields. -/
theorem toNat_i2sdiv (h : i2sdiv.toNat < 2 ^ 10) :
    (I2s.divLow.get i2sdiv).toNat + 256 * (i2sDivUpper.get i2sdiv).toNat = i2sdiv.toNat := by
  have hlow : (I2s.divLow.get i2sdiv).toNat = i2sdiv.toNat % 256 := by
    simp [BitField.get, I2s.divLow]
  have hupper : (i2sDivUpper.get i2sdiv).toNat = i2sdiv.toNat / 256 % 4 := by
    simp [BitField.get, i2sDivUpper, Nat.shiftRight_eq_div_pow]
  omega

theorem get_mclkoe (h : isI2sMclkoe mclkoe) :
    I2s.divLow.get mclkoe = 0 ∧ I2s.divExt.get mclkoe = 0 ∧ I2s.odd.get mclkoe = 0 := by
  rcases h with rfl | rfl <;> decide

theorem get_i2sodd (h : parity.toNat < 2) :
    I2s.divLow.get (parity <<< 8) = 0 ∧ I2s.divExt.get (parity <<< 8) = 0 ∧
      (I2s.odd.get (parity <<< 8)).toNat = parity.toNat ∧ I2s.mclkoe.get (parity <<< 8) = 0 := by
  refine ⟨BitField.get_shiftLeft_of_le (by decide) _, ?_, ?_, ?_⟩
  · exact BitField.get_shiftLeft_of_lt (k := 1) h (by decide)
  · rw [show (8 : Nat) = I2s.odd.lsb from rfl, BitField.get_shiftLeft, BitVec.toNat_setWidth]
    exact Nat.mod_eq_of_lt h
  · exact BitField.get_shiftLeft_of_lt (k := 1) h (by decide)

theorem divider_i2sClkp (h : 2 ≤ i2sdiv.toNat) (h' : i2sdiv.toNat < 2 ^ 10) (hparity : parity.toNat < 2)
    (hmclkoe : isI2sMclkoe mclkoe) :
    I2s.divider (i2sClkp i2sdiv (parity <<< 8) mclkoe) = 2 * i2sdiv.toNat + parity.toNat ∧
      (I2s.odd.get (i2sClkp i2sdiv (parity <<< 8) mclkoe)).toNat = parity.toNat ∧
      I2s.mclkoe.get (i2sClkp i2sdiv (parity <<< 8) mclkoe) = I2s.mclkoe.get mclkoe := by
  obtain ⟨hlow, hext, hodd, hout⟩ := get_i2sSpread h'
  obtain ⟨hlow₁, hext₁, hodd₁, hout₁⟩ := get_i2sodd hparity
  obtain ⟨hlow₂, hext₂, hodd₂⟩ := get_mclkoe hmclkoe
  rw [i2sClkp_eq h h']
  -- each of the three words is zero in the fields of the others
  generalize i2sSpread i2sdiv = spread at *
  have hrest {f : BitField 16} (hp : f.get (parity <<< 8) = 0) (hm : f.get mclkoe = 0) :
      f.get (parity <<< 8 ||| mclkoe) = 0 := by
    rw [BitField.get_or_of_zero hm, hp]
  have hodd₀ : (I2s.odd.get (spread ||| (parity <<< 8 ||| mclkoe))).toNat = parity.toNat := by
    rw [BitVec.or_comm, BitField.get_or_of_zero hodd, BitField.get_or_of_zero hodd₂, hodd₁]
  refine ⟨?_, hodd₀, ?_⟩
  · rw [I2s.divider, hodd₀, BitField.get_or_of_zero (hrest hlow₁ hlow₂), hlow,
      BitField.get_or_of_zero (hrest hext₁ hext₂), hext, toNat_i2sdiv h']
  · rw [BitVec.or_comm, BitField.get_or_of_zero hout, BitVec.or_comm, BitField.get_or_of_zero hout₁]

theorem divider_i2sClkp_default (h : i2sdiv.toNat < 2) (i2sodd : BitVec 16)
    (hmclkoe : isI2sMclkoe mclkoe) :
    I2s.divider (i2sClkp i2sdiv i2sodd mclkoe) = 4 ∧
      I2s.odd.get (i2sClkp i2sdiv i2sodd mclkoe) = 0 ∧
      I2s.mclkoe.get (i2sClkp i2sdiv i2sodd mclkoe) = I2s.mclkoe.get mclkoe := by
  rw [i2sClkp_default h]
  rcases hmclkoe with rfl | rfl <;> decide

/-! ## The divider that is computed -/

/-- 256 with the master clock, and the bits of the two channels without. -/
def I2sInitType.bits (init : I2sInitType) : Nat :=
  if init.mclkoe = i2sMclkoeEnable then 256
  else if init.frameFormat = i2sFrameformatDl16BitChl16Bit then 32 else 64

theorem toNat_i2sBits (init : I2sInitType) : (i2sBits init).toNat = init.bits := by
  unfold i2sBits I2sInitType.bits
  split_ifs <;> rfl

theorem I2sInitType.le_bits (init : I2sInitType) : 32 ≤ init.bits := by
  unfold I2sInitType.bits
  split_ifs <;> omega

/-- A quotient in tenths, with a half added. -/
def i2sScaled (clock bits freq : Nat) : Nat := clock / bits * 10 / freq + 5

/-- No value is cut off where it is stored in 16 bits. -/
structure I2sUntruncated (clock bits freq : Nat) : Prop where
  /-- `tmp` -/
  tmp : i2sScaled clock bits freq < 2 ^ 16
  /-- `i2sodd`, before and after it is shifted -/
  i2sodd : i2sScaled clock bits freq / 10 % 2 * 2 ^ 8 < 2 ^ 16
  /-- `i2sdiv`, -/
  i2sdiv : i2sScaled clock bits freq / 10 / 2 < 2 ^ 16
  /-- and with its upper bits moved -/
  extended : i2sScaled clock bits freq / 10 / 2 / 256 * 2 ^ 10 < 2 ^ 16

theorem i2sTenths_eq (sourceclock bits audioFreq : Word) (hbits : bits.toNat ≠ 0)
    (hfreq : audioFreq.toNat ≠ 0) (hclock : sourceclock.toNat / bits.toNat * 10 < 2 ^ 32)
    (htmp : i2sScaled sourceclock.toNat bits.toNat audioFreq.toNat < 2 ^ 16) :
    ∃ tmp, i2sTenths sourceclock bits audioFreq = some tmp ∧
      tmp.toNat = i2sScaled sourceclock.toNat bits.toNat audioFreq.toNat := by
  obtain ⟨q₁, hq₁, hval₁⟩ := Checked.div_of_ne_zero sourceclock hbits
  obtain ⟨q₂, hq₂, hval₂⟩ := Checked.mul_of_lt (a := q₁) (b := 10) (by rw [hval₁]; exact hclock)
  obtain ⟨q₃, hq₃, hval₃⟩ := Checked.div_of_ne_zero q₂ hfreq
  have hscaled : q₃.toNat + 5 = i2sScaled sourceclock.toNat bits.toNat audioFreq.toNat := by
    rw [hval₃, hval₂, hval₁]
    rfl
  obtain ⟨q₄, hq₄, hval₄⟩ := Checked.add_of_lt (a := q₃) (b := 5) (by
    show q₃.toNat + 5 < 2 ^ 32
    omega)
  have hval : q₄.toNat = i2sScaled sourceclock.toNat bits.toNat audioFreq.toNat := hval₄.trans hscaled
  refine ⟨q₄.setWidth 16, ?_, ?_⟩
  · simp only [i2sTenths, hq₁, hq₂, hq₃, hq₄, bind, Option.bind_some, pure]
  · rw [BitVec.toNat_setWidth, hval]
    exact Nat.mod_eq_of_lt htmp

theorem i2sHalves_eq (tmp : Word) (h : tmp.toNat < 2 ^ 16) :
    ∃ i2sdiv parity : BitVec 16, i2sHalves tmp = (i2sdiv, parity <<< 8) ∧
      i2sdiv.toNat = tmp.toNat / 10 / 2 ∧ parity.toNat = tmp.toNat / 10 % 2 := by
  have hquot : (tmp / 10).toNat = tmp.toNat / 10 := BitVec.toNat_udiv
  have hparity : ((tmp / 10) &&& 0x0001).toNat = tmp.toNat / 10 % 2 := by
    rw [BitVec.toNat_and, hquot]
    exact Nat.and_one_is_mod _
  have hstored : (((tmp / 10) &&& 0x0001).setWidth 16).toNat = tmp.toNat / 10 % 2 := by
    rw [BitVec.toNat_setWidth, hparity]
    omega
  refine ⟨_, _, rfl, ?_, hstored⟩
  have hwide : ((((tmp / 10) &&& 0x0001).setWidth 16).setWidth 32).toNat = tmp.toNat / 10 % 2 := by
    rw [BitVec.toNat_setWidth_of_le (by decide), hstored]
  have heven : (tmp / 10 - (((tmp / 10) &&& 0x0001).setWidth 16).setWidth 32).toNat =
      tmp.toNat / 10 - tmp.toNat / 10 % 2 := by
    rw [BitVec.toNat_sub_of_le, hquot, hwide]
    rw [BitVec.le_def, hquot, hwide]
    exact Nat.mod_le _ _
  rw [BitVec.toNat_setWidth, BitVec.toNat_udiv, heven]
  show (tmp.toNat / 10 - tmp.toNat / 10 % 2) / 2 % 2 ^ 16 = _
  omega

theorem i2sScaled_range {clock bits freq : Nat} (hclock : clock ≤ 240000000) (hbits : 32 ≤ bits)
    (hfreq : 8000 ≤ freq) :
    clock / bits * 10 ≤ 75000000 ∧ i2sScaled clock bits freq ≤ 9380 := by
  have hquot : clock / bits ≤ 240000000 / 32 := Nat.div_le_div hclock hbits (by decide)
  have htenfold : clock / bits * 10 ≤ 75000000 := by omega
  have hscaled : clock / bits * 10 / freq ≤ 75000000 / 8000 := Nat.div_le_div htenfold hfreq (by decide)
  unfold i2sScaled
  omega

/-- The value of `I2SCLKP`, for a clock. -/
structure I2sPrescaled (clock : Nat) (init : I2sInitType) (i2sclkp : BitVec 16) : Prop where
  untruncated : I2sUntruncated clock init.bits init.audioFreq.toNat
  /-- The divider is the default, for want of one that is large enough, or close. -/
  divider : I2s.divider i2sclkp = 4 ∧ i2sScaled clock init.bits init.audioFreq.toNat / 10 < 4 ∨
    |((I2s.divider i2sclkp * init.bits * init.audioFreq.toNat : Nat) : Int) - clock| ≤
      (init.bits * (init.audioFreq.toNat / 2 + 1) : Nat)
  odd : (I2s.odd.get i2sclkp).toNat =
    if i2sScaled clock init.bits init.audioFreq.toNat / 10 < 4 then 0
    else i2sScaled clock init.bits init.audioFreq.toNat / 10 % 2
  mclkoe : I2s.mclkoe.get i2sclkp = I2s.mclkoe.get init.mclkoe

/-- Where a frequency is asked for, the value of `I2SCLKP` is made from the scaled quotient. -/
theorem i2sInit_i2sclkp (clocks : RccClockType) (init : I2sInitType) (r : I2s)
    (hclock : clocks.sysclkFreq.toNat ≤ 240000000) (hfreq : 8000 ≤ init.audioFreq.toNat) :
    ∃ tmp, i2sInit clocks init r = some ⟨i2sCtrl init (r.i2sctrl &&& i2sctrlClearMask),
        i2sClkp (i2sHalves tmp).1 (i2sHalves tmp).2 init.mclkoe⟩ ∧
      tmp.toNat = i2sScaled clocks.sysclkFreq.toNat init.bits init.audioFreq.toNat := by
  obtain ⟨htenfold, hscaled⟩ := i2sScaled_range hclock init.le_bits hfreq
  have hbits := init.le_bits
  rw [← toNat_i2sBits] at htenfold hscaled hbits
  obtain ⟨tmp, htmp, hval⟩ := i2sTenths_eq clocks.sysclkFreq (i2sBits init) init.audioFreq
    (by omega) (by omega) (by omega) (by omega)
  have hasked : init.audioFreq ≠ i2sAudiofreqDefault := by
    intro h
    rw [h] at hfreq
    exact absurd hfreq (by decide)
  refine ⟨tmp.setWidth 32, ?_, ?_⟩
  · simp only [i2sInit, if_neg hasked, htmp]
    rfl
  · rw [BitVec.toNat_setWidth_of_le (by decide), hval, toNat_i2sBits]

/-- **Nothing is cut off, the divider is the default or close, and neither the bit for an odd divider nor
    the one for the master clock is disturbed.** -/
theorem i2s_prescaler_accurate (clocks : RccClockType) (init : I2sInitType) (r : I2s)
    (hclock : clocks.sysclkFreq.toNat ≤ 240000000) (hfreq : 8000 ≤ init.audioFreq.toNat)
    (hmclkoe : isI2sMclkoe init.mclkoe) :
    ∃ r', i2sInit clocks init r = some r' ∧
      I2sPrescaled clocks.sysclkFreq.toNat init r'.i2sclkp := by
  obtain ⟨tmp, hinit, htmp⟩ := i2sInit_i2sclkp clocks init r hclock hfreq
  obtain ⟨-, hscaled⟩ := i2sScaled_range hclock init.le_bits hfreq
  obtain ⟨i2sdiv, parity, hhalves, hdiv, hparity⟩ := i2sHalves_eq tmp (by omega)
  rw [hhalves] at hinit
  rw [htmp] at hdiv hparity
  refine ⟨_, hinit, ?_⟩
  -- the scaled quotient is rounded, however many digits it has
  have hnearest : i2sScaled clocks.sysclkFreq.toNat init.bits init.audioFreq.toNat / 10 =
      Rounding.nearest (clocks.sysclkFreq.toNat / init.bits) init.audioFreq.toNat :=
    Rounding.scaled_eq_nearest (c := 5) (by omega) (by decide)
  have hbits := init.le_bits
  have hclose := Rounding.nearest_div_error clocks.sysclkFreq.toNat (k := init.bits)
    (b := init.audioFreq.toNat) (by omega) (by omega)
  rw [← hnearest] at hclose
  have huntruncated : I2sUntruncated clocks.sysclkFreq.toNat init.bits init.audioFreq.toNat := by
    constructor <;> omega
  by_cases hsmall : i2sScaled clocks.sysclkFreq.toNat init.bits init.audioFreq.toNat / 10 < 4
  · obtain ⟨hdivider, hodd, hout⟩ :=
      divider_i2sClkp_default (show i2sdiv.toNat < 2 by omega) (parity <<< 8) hmclkoe
    refine ⟨huntruncated, .inl ⟨hdivider, hsmall⟩, ?_, hout⟩
    rw [if_pos hsmall, hodd]
    rfl
  · obtain ⟨hdivider, hodd, hout⟩ :=
      divider_i2sClkp (show 2 ≤ i2sdiv.toNat by omega) (by omega) (show parity.toNat < 2 by omega)
        hmclkoe
    have hsum : 2 * i2sdiv.toNat + parity.toNat =
        i2sScaled clocks.sysclkFreq.toNat init.bits init.audioFreq.toNat / 10 := by omega
    refine ⟨huntruncated, .inr ?_, ?_, hout⟩
    · rw [hdivider, hsum]
      exact hclose
    · rw [if_neg hsmall, hodd, hparity]

/-- 8 kHz from 240 MHz, where the half of the divider has ten bits. -/
theorem i2s_prescaler_8kHz :
    let clocks : RccClockType := ⟨240000000, 240000000, 120000000, 120000000, 15000000⟩
    let init : I2sInitType := ⟨0x0200, 0, 0, 0, 8000, 0⟩
    ∃ r', i2sInit clocks init ⟨0, 0⟩ = some r' ∧ I2sPrescaled 240000000 init r'.i2sclkp := by
  intro clocks init
  exact i2s_prescaler_accurate clocks init ⟨0, 0⟩ (by decide) (by decide) (.inr rfl)

end At32
