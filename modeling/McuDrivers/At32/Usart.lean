import McuDrivers.At32.RccClocks
import Mathlib.Tactic.Linarith

set_option autoImplicit false

/-! # AT32F4xx: USART

`USART_Init`, and how close the divider that it writes to `BAUDR` comes to the clock over the baud rate.
The divider is a number of sixteenths. It is computed from a quotient in thousandths, which is cut off
twice and then rounded. -/

namespace At32

/-! ## `USART_Init` -/

def ctrl1ClearMask : BitVec 16 := 0xE9F3
def ctrl2StopbClearMask : BitVec 16 := 0xCFFF
def ctrl3ClearMask : BitVec 16 := 0xFCFF

inductive UsartPeriph where
  | usart1
  | usart2
  | usart3
  | uart4
  | uart5
  | usart6
  | uart7
  | uart8

/-- `USART_InitType` -/
structure UsartInitType where
  baudRate : Word
  wordLength : BitVec 16
  stopBits : BitVec 16
  parity : BitVec 16
  mode : BitVec 16
  hardwareFlowControl : BitVec 16

structure Usart where
  baudr : BitVec 16
  ctrl1 : BitVec 16
  ctrl2 : BitVec 16
  ctrl3 : BitVec 16

/-- As for the AT32F403A and AT32F407. -/
def usartApbclock (clocks : RccClockType) : UsartPeriph → Word
  | .usart1 | .usart6 | .uart7 | .uart8 => clocks.apb2clkFreq
  | .usart2 | .usart3 | .uart4 | .uart5 => clocks.apb1clkFreq

/-- `integerdivider` and `fractionaldivider`, of a quotient in thousandths. -/
def usartDivider (tmpreg : Word) : Word × Word :=
  let integerdivider := tmpreg / 1000
  let fractionaldivider := 16 * (tmpreg % 1000)
  if fractionaldivider % 1000 < 500 then (integerdivider, fractionaldivider / 1000)
  else
    let fractionaldivider := fractionaldivider / 1000 + 1
    if fractionaldivider ≥ 16 then (integerdivider + 1, 0) else (integerdivider, fractionaldivider)

/-- The value written to `BAUDR`. The first quotient is computed in 64 bits. -/
def usartBaudr (apbclock baudRate : Word) : Option (BitVec 16) := do
  let tmpreg ← Checked.div (apbclock.setWidth 64 * 1000 / 16) (baudRate.setWidth 64)
  let (integerdivider, fractionaldivider) := usartDivider (tmpreg.setWidth 32)
  return (integerdivider <<< 4 ||| fractionaldivider).setWidth 16

/-- `clocks` is what `RCC_GetClocksFreq` reports. -/
def usartInit (clocks : RccClockType) (x : UsartPeriph) (init : UsartInitType) (r : Usart) :
    Option Usart := do
  let r := { r with ctrl2 := (r.ctrl2 &&& ctrl2StopbClearMask) ||| init.stopBits }
  let r := { r with
    ctrl1 := (r.ctrl1 &&& ctrl1ClearMask) ||| (init.wordLength ||| init.parity ||| init.mode) }
  let r := { r with ctrl3 := (r.ctrl3 &&& ctrl3ClearMask) ||| init.hardwareFlowControl }
  let baudr ← usartBaudr (usartApbclock clocks x) init.baudRate
  return { r with baudr := baudr }

/-! ## The divider in natural numbers -/

/-- The quotient in thousandths. -/
def scaledDivider (clock baud : Nat) : Nat := clock * 1000 / 16 / baud

/-- Thousandths, rounded to sixteenths. -/
def sixteenths (scaled : Nat) : Nat := (16 * scaled + 500) / 1000

variable {clock baud scaled : Nat}

/-- Rounding the fraction, with the carry, is rounding the number. -/
theorem sixteenths_split (scaled : Nat) :
    sixteenths scaled = 16 * (scaled / 1000) + (16 * (scaled % 1000) + 500) / 1000 := by
  unfold sixteenths
  omega

theorem scaledDivider_bounds (clock : Nat) (hbaud : 0 < baud) :
    scaledDivider clock baud * (16 * baud) ≤ clock * 1000 ∧
      clock * 1000 < (scaledDivider clock baud + 1) * (16 * baud) := by
  have hpos : 0 < 16 * baud := by omega
  rw [scaledDivider, Nat.div_div_eq_div_mul]
  constructor
  · exact Nat.div_mul_le_self _ _
  · rw [Nat.mul_comm _ (16 * baud)]
    exact Nat.lt_mul_div_succ _ hpos

theorem scaledDivider_range (hbaud : 0 < baud) (hlow : 16 * baud ≤ clock)
    (hhigh : clock ≤ 65535 * baud) :
    1000 ≤ scaledDivider clock baud ∧ scaledDivider clock baud ≤ 4095937 := by
  have hpos : 0 < 16 * baud := by omega
  rw [scaledDivider, Nat.div_div_eq_div_mul]
  constructor
  · rw [Nat.le_div_iff_mul_le hpos]
    omega
  · have hlt : clock * 1000 < 16 * baud * 4095938 := by omega
    exact Nat.le_of_lt_succ (Nat.div_lt_of_lt_mul hlt)

/-- Half a sixteenth for the rounding, and a thousandth of the whole for what is cut off before it. -/
theorem sixteenths_error (hbaud : 0 < baud) :
    1000 * |((sixteenths (scaledDivider clock baud) * baud : Nat) : Int) - clock| ≤ 516 * baud := by
  obtain ⟨hle, hlt⟩ := scaledDivider_bounds clock hbaud
  have hround : 16 * scaledDivider clock baud ≤ 1000 * sixteenths (scaledDivider clock baud) + 499 ∧
      1000 * sixteenths (scaledDivider clock baud) ≤ 16 * scaledDivider clock baud + 500 := by
    unfold sixteenths
    omega
  generalize scaledDivider clock baud = q at *
  generalize sixteenths q = v at *
  have hlow := Nat.mul_le_mul_right baud hround.1
  have hhigh := Nat.mul_le_mul_right baud hround.2
  -- everything is linear in the two products from here on
  have hq : q * (16 * baud) = 16 * (q * baud) := by rw [Nat.mul_left_comm]
  rw [Nat.add_mul] at hlow hhigh hlt
  rw [Nat.mul_assoc] at hlow hhigh
  rw [Nat.mul_assoc] at hlow hhigh
  generalize v * baud = vb at *
  generalize q * baud = qb at *
  have habs : |(vb : Int) - clock| * 1000 ≤ 516 * baud := by
    rcases abs_cases ((vb : Int) - clock) with ⟨habs, -⟩ | ⟨habs, -⟩ <;> rw [habs] <;> omega
  omega

/-! ## The divider in words -/

/-- The two parts, which fit in their words whatever they are computed from. -/
theorem usartDivider_parts (tmpreg : Word) :
    (usartDivider tmpreg).2.toNat < 16 ∧ (usartDivider tmpreg).1.toNat < 2 ^ 28 ∧
      16 * (usartDivider tmpreg).1.toNat + (usartDivider tmpreg).2.toNat =
        sixteenths tmpreg.toNat := by
  have hlt := tmpreg.isLt
  have hquot : (tmpreg / 1000).toNat = tmpreg.toNat / 1000 := BitVec.toNat_udiv
  have hrem : (tmpreg % 1000).toNat = tmpreg.toNat % 1000 := BitVec.toNat_umod
  have hfrac : (16 * (tmpreg % 1000)).toNat = 16 * (tmpreg.toNat % 1000) := by
    rw [BitVec.toNat_mul_of_lt, hrem]
    · rfl
    · rw [hrem]
      exact Nat.lt_of_le_of_lt (Nat.mul_le_mul_left _ (Nat.le_of_lt_succ (Nat.mod_lt _ (by decide))))
        (by decide)
  have hfracQuot : (16 * (tmpreg % 1000) / 1000).toNat = 16 * (tmpreg.toNat % 1000) / 1000 := by
    rw [BitVec.toNat_udiv, hfrac]
    rfl
  have hfracRem : (16 * (tmpreg % 1000) % 1000).toNat = 16 * (tmpreg.toNat % 1000) % 1000 := by
    rw [BitVec.toNat_umod, hfrac]
    rfl
  have hdown : 16 * (tmpreg % 1000) % 1000 < 500 ↔ 16 * (tmpreg.toNat % 1000) % 1000 < 500 := by
    rw [BitVec.lt_def, hfracRem]
    rfl
  have hup : (16 * (tmpreg % 1000) / 1000 + 1).toNat = 16 * (tmpreg.toNat % 1000) / 1000 + 1 := by
    rw [BitVec.toNat_add_of_lt, hfracQuot]
    · rfl
    · rw [hfracQuot]
      show 16 * (tmpreg.toNat % 1000) / 1000 + 1 < 2 ^ 32
      omega
  have hcarry : 16 * (tmpreg % 1000) / 1000 + 1 ≥ 16 ↔
      16 ≤ 16 * (tmpreg.toNat % 1000) / 1000 + 1 := by
    rw [ge_iff_le, BitVec.le_def, hup]
    rfl
  have hnext : (tmpreg / 1000 + 1).toNat = tmpreg.toNat / 1000 + 1 := by
    rw [BitVec.toNat_add_of_lt, hquot]
    · rfl
    · rw [hquot]
      show tmpreg.toNat / 1000 + 1 < 2 ^ 32
      omega
  rw [sixteenths_split]
  simp only [usartDivider, hdown, hcarry]
  split
  · rw [hquot, hfracQuot]
    omega
  · split
    · -- the fraction is a whole one
      have hzero : (0 : Word).toNat = 0 := rfl
      simp only [hnext, hzero]
      omega
    · rw [hquot, hup]
      omega

theorem toNat_shiftLeft_four_or {i f : Word} (hi : i.toNat < 2 ^ 28) (hf : f.toNat < 16) :
    (i <<< 4 ||| f).toNat = 16 * i.toNat + f.toNat := by
  have hshift : i.toNat <<< 4 < 2 ^ 32 := by
    rw [Nat.shiftLeft_eq]
    omega
  rw [BitVec.toNat_or, BitVec.toNat_shiftLeft, Nat.mod_eq_of_lt hshift,
    ← Nat.shiftLeft_add_eq_or_of_lt hf, Nat.shiftLeft_eq, Nat.mul_comm]

/-- No intermediate value is cut off where it is stored. -/
structure Untruncated (clock baud : Nat) : Prop where
  /-- `(uint64_t)apbclock * 1000` -/
  product : clock * 1000 < 2 ^ 64
  /-- `tmpreg` -/
  scaled : scaledDivider clock baud < 2 ^ 32
  /-- `16 * (tmpreg % 1000)` -/
  fraction : 16 * (scaledDivider clock baud % 1000) < 2 ^ 32
  /-- `(integerdivider << 4) | fractionaldivider` -/
  baudr : sixteenths (scaledDivider clock baud) < 2 ^ 16

theorem untruncated (hclock : clock < 2 ^ 32) (hbaud : 0 < baud) (hlow : 16 * baud ≤ clock)
    (hhigh : clock ≤ 65535 * baud) : Untruncated clock baud := by
  obtain ⟨-, hscaled⟩ := scaledDivider_range hbaud hlow hhigh
  constructor
  · omega
  · omega
  · omega
  · unfold sixteenths
    omega

/-- What `USART_Init` writes, as a number: the quotient in thousandths, rounded to sixteenths. -/
theorem usartBaudr_eq {apbclock baudRate : Word} (hbaud : 0 < baudRate.toNat)
    (h : Untruncated apbclock.toNat baudRate.toNat) :
    ∃ v, usartBaudr apbclock baudRate = some v ∧
      v.toNat = sixteenths (scaledDivider apbclock.toNat baudRate.toNat) := by
  have hclock : (apbclock.setWidth 64).toNat = apbclock.toNat :=
    BitVec.toNat_setWidth_of_le (by decide)
  have hrate : (baudRate.setWidth 64).toNat = baudRate.toNat :=
    BitVec.toNat_setWidth_of_le (by decide)
  have hdividend : (apbclock.setWidth 64 * 1000 / 16).toNat = apbclock.toNat * 1000 / 16 := by
    rw [BitVec.toNat_udiv, BitVec.toNat_mul_of_lt, hclock]
    · rfl
    · rw [hclock]
      exact h.product
  obtain ⟨q, hq, hqval⟩ := Checked.div_of_ne_zero (apbclock.setWidth 64 * 1000 / 16)
    (b := baudRate.setWidth 64) (by omega)
  rw [hdividend, hrate] at hqval
  have hscaled : (q.setWidth 32).toNat = scaledDivider apbclock.toNat baudRate.toNat := by
    rw [BitVec.toNat_setWidth, hqval]
    exact Nat.mod_eq_of_lt h.scaled
  obtain ⟨hf, hi, hsum⟩ := usartDivider_parts (q.setWidth 32)
  rw [hscaled] at hsum
  refine ⟨((usartDivider (q.setWidth 32)).1 <<< 4 ||| (usartDivider (q.setWidth 32)).2).setWidth 16,
    ?_, ?_⟩
  · rw [usartBaudr, hq]
    rfl
  · rw [BitVec.toNat_setWidth, toNat_shiftLeft_four_or hi hf, hsum]
    exact Nat.mod_eq_of_lt h.baudr

/-! ## The clock -/

theorem apbahbPsc_le {field top cfg psc : Word} {pos : Nat}
    (h : apbahbPsc field top pos cfg = some psc) : psc.toNat ≤ 9 := by
  unfold apbahbPsc at h
  split at h
  · have hmem := List.mem_of_getElem? h
    have htable : ∀ psc ∈ apbahbPscTable, psc.toNat ≤ 9 := by simp [apbahbPscTable]
    exact htable psc hmem
  · cases h
    decide

theorem hseDiv_le (misc2 : Word) : numberOf rccHseDivs 2 (misc2 &&& rccHseDivMask) ≤ 5 :=
  BitField.forall_and_mask ⟨12, 2, by decide⟩ (by decide) (fun r => numberOf rccHseDivs 2 r ≤ 5)
    (by decide) misc2

theorem pllMultOf_pos (cfg : Word) : 0 < pllMultOf (cfg &&& rccCfgPllmult) :=
  BitField.forall_and_masks ⟨18, 4, by decide⟩ ⟨29, 2, by decide⟩ (by decide)
    (fun r => 0 < pllMultOf r) (by decide +kernel) cfg

theorem pllEntry_ge {hseValue entry : Word} (hhse : 2000000 ≤ hseValue.toNat) {s : Rcc}
    (h : pllEntry hseValue s = some entry) : 2 ^ 18 ≤ entry.toNat := by
  simp only [pllEntry] at h
  split_ifs at h with hrc hpsc
  · cases h
    decide
  · obtain ⟨divisor, hadd, hval⟩ := hseDiv_eq s.misc2
    simp only [hadd, Option.bind_eq_bind, Option.bind_some] at h
    have hle := hseDiv_le s.misc2
    have hpos := hseDiv_ne_zero s.misc2
    rw [Checked.toNat_of_div h, hval, Nat.le_div_iff_mul_le (by omega)]
    have hmul := Nat.mul_le_mul_left (2 ^ 18) hle
    omega
  · cases h
    omega

theorem pllFreq_ge {hseValue freq : Word} (hhse : 2000000 ≤ hseValue.toNat) {s : Rcc}
    (h : pllFreq hseValue s = some freq) : 2 ^ 18 ≤ freq.toNat := by
  obtain ⟨mult, hmult, hval⟩ := rccGetPllmult_eq s.cfg
  have hpos := pllMultOf_pos s.cfg
  unfold pllFreq at h
  simp only [hmult, bind, Option.bind_some, Option.bind_eq_some_iff] at h
  obtain ⟨entry, hentry, product, hproduct, hfixed⟩ := h
  have hle : entry.toNat ≤ product.toNat := by
    rw [Checked.toNat_of_mul hproduct, hval]
    exact Nat.le_mul_of_pos_right _ hpos
  have hge := pllEntry_ge hhse hentry
  cases hfixed
  unfold fixRange
  split
  · decide
  · omega

theorem sysclkFreq_ge {hseValue freq : Word} (hhse : 2000000 ≤ hseValue.toNat) {s : Rcc}
    (h : sysclkFreq hseValue s = some freq) : 2 ^ 18 ≤ freq.toNat := by
  have hhsi : 2 ^ 18 ≤ hsiValue.toNat := by decide
  simp only [sysclkFreq, hsiFreq] at h
  split_ifs at h
  · rw [Checked.toNat_of_mul h]
    exact hhsi.trans (Nat.le_mul_of_pos_right _ (by decide))
  · cases h
    exact hhsi
  · cases h
    omega
  · exact pllFreq_ge hhse h
  · cases h
    exact hhsi

/-- `RCC_GetClocksFreq` reports no clock of 0 Hz. -/
theorem usartApbclock_pos {hseValue : Word} (hhse : 2000000 ≤ hseValue.toNat) {s : Rcc}
    {clocks : RccClockType} (h : rccGetClocksFreq hseValue s = some clocks) (x : UsartPeriph) :
    0 < (usartApbclock clocks x).toNat := by
  unfold rccGetClocksFreq at h
  simp only [bind, Option.bind_eq_some_iff] at h
  obtain ⟨sysclk, hsysclk, ahbPsc, hahb, apb1Psc, hapb1, apb2Psc, hapb2, psc, -, adcclk, -, hclocks⟩ := h
  have hfreq := sysclkFreq_ge hhse hsysclk
  have hshift : ∀ psc : Word, psc.toNat ≤ 9 → 0 < (sysclk >>> ahbPsc >>> psc).toNat := by
    intro psc hpsc
    have hle := apbahbPsc_le hahb
    -- the two prescalers shift by 18 at most
    have hpow : 2 ^ (ahbPsc.toNat + psc.toNat) ≤ 2 ^ 18 := Nat.pow_le_pow_right (by decide) (by omega)
    rw [BitVec.ushiftRight_eq', BitVec.ushiftRight_eq', BitVec.toNat_ushiftRight,
      BitVec.toNat_ushiftRight, ← Nat.shiftRight_add, Nat.shiftRight_eq_div_pow]
    exact Nat.div_pos (by omega) (Nat.two_pow_pos _)
  cases hclocks
  cases x
  case usart1 | usart6 | uart7 | uart8 => exact hshift apb2Psc (apbahbPsc_le hapb2)
  case usart2 | usart3 | uart4 | uart5 => exact hshift apb1Psc (apbahbPsc_le hapb1)

/-- **Where the clock is 16 to 65535 times the baud rate, nothing is cut off, the integer part is not 0,
    and the divider comes within 0.516 of the quotient.** -/
theorem usart_baudr_accurate (clocks : RccClockType) (x : UsartPeriph) (init : UsartInitType)
    (r : Usart) (hrunning : 0 < (usartApbclock clocks x).toNat)
    (hlow : 16 * init.baudRate.toNat ≤ (usartApbclock clocks x).toNat)
    (hhigh : (usartApbclock clocks x).toNat ≤ 65535 * init.baudRate.toNat) :
    ∃ r', usartInit clocks x init r = some r' ∧
      Untruncated (usartApbclock clocks x).toNat init.baudRate.toNat ∧
      r'.baudr.toNat =
        sixteenths (scaledDivider (usartApbclock clocks x).toNat init.baudRate.toNat) ∧
      1 ≤ r'.baudr.toNat / 16 ∧
      1000 * |((r'.baudr.toNat * init.baudRate.toNat : Nat) : Int) - (usartApbclock clocks x).toNat|
        ≤ 516 * init.baudRate.toNat := by
  have hbaud : 0 < init.baudRate.toNat := by omega
  have huncut := untruncated (usartApbclock clocks x).isLt hbaud hlow hhigh
  obtain ⟨v, hv, hval⟩ := usartBaudr_eq hbaud huncut
  refine ⟨_, by rw [usartInit, hv]; rfl, huncut, hval, ?_, ?_⟩
  · obtain ⟨hscaled, -⟩ := scaledDivider_range hbaud hlow hhigh
    show 1 ≤ v.toNat / 16
    rw [hval, sixteenths]
    omega
  · show 1000 * |((v.toNat * _ : Nat) : Int) - _| ≤ _
    rw [hval]
    exact sixteenths_error hbaud

/-- 115200 baud from 120 MHz. -/
theorem usart_baudr_115200 :
    let clocks : RccClockType := ⟨240000000, 240000000, 120000000, 120000000, 15000000⟩
    let init : UsartInitType := ⟨115200, 0, 0, 0, 0x000C, 0⟩
    let r : Usart := ⟨0, 0, 0, 0⟩
    ∃ r', usartInit clocks .usart1 init r = some r' ∧
      Untruncated 120000000 115200 ∧
      r'.baudr.toNat = sixteenths (scaledDivider 120000000 115200) ∧
      1 ≤ r'.baudr.toNat / 16 ∧
      1000 * |((r'.baudr.toNat * 115200 : Nat) : Int) - 120000000| ≤ 516 * 115200 := by
  intro clocks init r
  exact usart_baudr_accurate clocks .usart1 init r (by decide) (by decide) (by decide)

end At32
