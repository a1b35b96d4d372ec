import McuDrivers.At32.RccClocks

set_option autoImplicit false

/-! # AT32F4xx: clock tree of the AT32F415 and AT32F421

These have a register `PLL` beside `CFG`, with a factor `ns` and two divisors `ms` and `fr`.
`RCC_PLLconfig2` checks them in megahertz and stores them. `RCC_GetClocksFreq` reads them back and
multiplies by `ns` in hertz, in a word, where the product may not fit. -/

namespace At32

/-! ## Constants -/

def pllFrMask : Word := 0x00000007
def pllFr1 : Word := 0x00000000
def pllFr2 : Word := 0x00000001
def pllFr4 : Word := 0x00000002
def pllFr8 : Word := 0x00000003
def pllFr16 : Word := 0x00000004
def pllFr32 : Word := 0x00000005
def pllMsPos : Nat := 4
def pllMsMask : Word := 0x000000F0
def pllNsPos : Nat := 8
def pllNsMask : Word := 0x0001FF00
def pllFrefMask : Word := 0x07000000
def pllCfgenEnable : Word := 0x80000000
def pllCfgenMask : Word := 0x80000000

def isRccFr (fr : Word) : Prop :=
  fr = pllFr1 ∨ fr = pllFr2 ∨ fr = pllFr4 ∨ fr = pllFr8 ∨ fr = pllFr16 ∨ fr = pllFr32

def isRccMsValue (value : Word) : Prop := 0x1 ≤ value ∧ value ≤ 0xF

def isRccNsValue (value : Word) : Prop := 0x1F ≤ value ∧ value ≤ 0x1F4

def isRccResultValue (value : Word) : Prop := 0x1F4 ≤ value ∧ value ≤ 0x3E8

/-- `RCC_FR_VALUE` -/
def rccFrValue (value : Word) : Word :=
  if value = pllFr1 then 1
  else if value = pllFr2 then 2
  else if value = pllFr4 then 4
  else if value = pllFr8 then 8
  else if value = pllFr16 then 16
  else if value = pllFr32 then 32
  else 1

/-! ## `RCC_PLLconfig2` -/

structure RccPll extends Rcc where
  pll : Word

/-- The clock that goes into the PLL. -/
def pllrcfreq (hseValue cfg : Word) : Word :=
  let pllrefclk := cfg &&& rccCfgPllrc
  if pllrefclk = 0x00 then hsiValue >>> 1
  else if cfg &&& rccCfgPllhsepsc ≠ 0 then hseValue >>> 1
  else hseValue

/-- What the `assert_param` lines let through. -/
structure RccPllconfig2Accepted (hseValue pllNs pllMs pllFr cfg : Word) : Prop where
  fr : isRccFr pllFr
  ns : isRccNsValue pllNs
  ms : isRccMsValue pllMs
  result : isRccResultValue (pllrcfreq hseValue cfg / 1000000 * pllNs / pllMs)

def pllConfig2Mask : Word := pllFrMask ||| pllMsMask ||| pllNsMask ||| pllFrefMask ||| pllCfgenMask

def rccPllconfig2 (pllNs pllMs pllFr : Word) (s : RccPll) : RccPll :=
  let pllReg := s.pll &&& ~~~pllConfig2Mask
  let pllReg := pllReg ||| (pllNs <<< pllNsPos ||| pllMs <<< pllMsPos ||| pllFr)
  let pllReg := pllReg ||| pllCfgenEnable
  { s with pll := pllReg }

/-! ## `RCC_GetClocksFreq` -/

namespace RccPll

def pllFreq (hseValue : Word) (s : RccPll) : Option Word :=
  let pllcfgen := s.pll &&& pllCfgenMask
  if pllcfgen = pllCfgenEnable then
    let pllns := s.pll &&& pllNsMask
    let pllms := s.pll &&& pllMsMask
    let pllfr := s.pll &&& pllFrMask
    let retfr := rccFrValue pllfr
    Checked.div (pllrcfreq hseValue s.cfg * (pllns >>> pllNsPos)) ((pllms >>> pllMsPos) * retfr)
  else do
    let pllmult ← rccGetPllmult (s.cfg &&& rccCfgPllmult)
    return pllrcfreq hseValue s.cfg * pllmult

def sysclkFreq (hseValue : Word) (s : RccPll) : Option Word :=
  let tmp := s.cfg &&& rccCfgSysclksts
  if tmp = 0x00 then hsiFreq s.toRcc
  else if tmp = 0x04 then some hseValue
  else if tmp = 0x08 then s.pllFreq hseValue
  else some hsiValue

def rccGetClocksFreq (hseValue : Word) (s : RccPll) : Option RccClockType := do
  let sysclk ← s.sysclkFreq hseValue
  let ahbPsc ← apbahbPsc rccCfgAhbpsc rccCfgAhbpsc3 4 s.cfg
  let ahbclk := sysclk >>> ahbPsc
  let apb1Psc ← apbahbPsc rccCfgApb1psc rccCfgApb1psc2 8 s.cfg
  let apb1clk := ahbclk >>> apb1Psc
  let apb2Psc ← apbahbPsc rccCfgApb2psc rccCfgApb2psc2 11 s.cfg
  let apb2clk := ahbclk >>> apb2Psc
  let psc ← adcPsc s.cfg
  let adcclk ← Checked.div apb2clk psc
  return ⟨sysclk, ahbclk, apb1clk, apb2clk, adcclk⟩

/-- `s'` is reached from `s` by selecting the PLL as system clock. -/
structure OnPll (s s' : RccPll) : Prop where
  pll : s'.pll = s.pll
  entry : s'.cfg &&& pllRefClkMask = s.cfg &&& pllRefClkMask
  selected : s'.cfg &&& rccCfgSysclksts = 0x08

end RccPll

/-- The clock that goes into the PLL, as a number. -/
def pllSource (hse : Nat) (cfg : Word) : Nat :=
  if cfg &&& rccCfgPllrc = 0 then 4000000
  else if cfg &&& rccCfgPllhsepsc ≠ 0 then hse / 2
  else hse

variable {hseValue pllNs pllMs pllFr cfg cfg' : Word} {s s' : RccPll}

/-! ## The register -/

theorem rccFrValue_eq (h : isRccFr pllFr) :
    (rccFrValue pllFr).toNat = 2 ^ pllFr.toNat ∧ pllFr.toNat ≤ 5 := by
  rcases h with rfl | rfl | rfl | rfl | rfl | rfl <;> decide

/-- The parts of `PLL` after `RCC_PLLconfig2`, each beside its mask. -/
def pllParts (pllNs pllMs pllFr pll : Word) : List (Word × Word) := [
  (pllNsMask, pllNs <<< pllNsPos), (pllMsMask, pllMs <<< pllMsPos), (pllFrMask, pllFr),
  (pllCfgenMask, pllCfgenEnable), (~~~pllConfig2Mask, pll &&& ~~~pllConfig2Mask)]

theorem rccPllconfig2_pll (s : RccPll) :
    (rccPllconfig2 pllNs pllMs pllFr s).pll = Mask.pack (pllParts pllNs pllMs pllFr s.pll) := by
  simp only [rccPllconfig2, pllParts, Mask.pack, List.foldr]
  ac_rfl

theorem pllParts_packed (hns : isRccNsValue pllNs) (hms : isRccMsValue pllMs) (hfr : isRccFr pllFr)
    (pll : Word) : Mask.Packed (pllParts pllNs pllMs pllFr pll) := by
  have hnsLow : pllNs &&& 0x1FF = pllNs :=
    Mask.and_eq_self_of_lt (n := 9) (by decide) (Nat.lt_of_le_of_lt hns.2 (by decide))
  have hmsLow : pllMs &&& 0xF = pllMs :=
    Mask.and_eq_self_of_lt (n := 4) (by decide) (Nat.lt_of_le_of_lt hms.2 (by decide))
  refine ⟨by simp only [pllParts, List.map]; decide, ?_⟩
  simp only [pllParts, List.forall_mem_cons, List.not_mem_nil, false_imp_iff, implies_true, and_true]
  refine ⟨?_, ?_, ?_, by decide, by rw [BitVec.and_assoc, BitVec.and_self]⟩
  · rw [show pllNsMask = (0x1FF : Word) <<< pllNsPos by decide, ← BitVec.shiftLeft_and_distrib, hnsLow]
  · rw [show pllMsMask = (0xF : Word) <<< pllMsPos by decide, ← BitVec.shiftLeft_and_distrib, hmsLow]
  · rcases hfr with rfl | rfl | rfl | rfl | rfl | rfl <;> decide

/-- What `RCC_PLLconfig2` stores is what `RCC_GetClocksFreq` reads, and the rest is kept. -/
structure PllHolds (pllNs pllMs pllFr pll pll' : Word) : Prop where
  cfgen : pll' &&& pllCfgenMask = pllCfgenEnable
  ns : (pll' &&& pllNsMask) >>> pllNsPos = pllNs
  ms : (pll' &&& pllMsMask) >>> pllMsPos = pllMs
  fr : pll' &&& pllFrMask = pllFr
  rest : pll' &&& ~~~pllConfig2Mask = pll &&& ~~~pllConfig2Mask

theorem rccPllconfig2_holds (hns : isRccNsValue pllNs) (hms : isRccMsValue pllMs)
    (hfr : isRccFr pllFr) (s : RccPll) :
    PllHolds pllNs pllMs pllFr s.pll (rccPllconfig2 pllNs pllMs pllFr s).pll := by
  have hpacked := pllParts_packed hns hms hfr s.pll
  have hnsLe : pllNs.toNat ≤ 0x1F4 := hns.2
  have hmsLe : pllMs.toNat ≤ 0xF := hms.2
  rw [rccPllconfig2_pll]
  constructor
  · exact hpacked.unpack (p := (pllCfgenMask, pllCfgenEnable)) (by simp [pllParts])
  · rw [hpacked.unpack (p := (pllNsMask, pllNs <<< pllNsPos)) (by simp [pllParts])]
    exact Mask.shiftLeft_ushiftRight_self (by unfold pllNsPos; omega)
  · rw [hpacked.unpack (p := (pllMsMask, pllMs <<< pllMsPos)) (by simp [pllParts])]
    exact Mask.shiftLeft_ushiftRight_self (by unfold pllMsPos; omega)
  · exact hpacked.unpack (p := (pllFrMask, pllFr)) (by simp [pllParts])
  · exact hpacked.unpack (p := (~~~pllConfig2Mask, s.pll &&& ~~~pllConfig2Mask)) (by simp [pllParts])

/-! ## The frequency -/

theorem pllrcfreq_toNat (hseValue cfg : Word) :
    (pllrcfreq hseValue cfg).toNat = pllSource hseValue.toNat cfg := by
  simp only [pllrcfreq, pllSource]
  split_ifs
  · rfl
  · exact Nat.shiftRight_eq_div_pow _ 1
  · rfl

theorem pllSource_eq_of_entry (hse : Nat) (h : cfg' &&& pllRefClkMask = cfg &&& pllRefClkMask) :
    pllSource hse cfg' = pllSource hse cfg := by
  have hrc : cfg' &&& rccCfgPllrc = cfg &&& rccCfgPllrc := by
    rw [← Mask.and_and_of_subset cfg' (b := pllRefClkMask) (by decide), h,
      Mask.and_and_of_subset cfg (by decide)]
  have hpsc : cfg' &&& rccCfgPllhsepsc = cfg &&& rccCfgPllhsepsc := by
    rw [← Mask.and_and_of_subset cfg' (b := pllRefClkMask) (by decide), h,
      Mask.and_and_of_subset cfg (by decide)]
  simp only [pllSource, hrc, hpsc]

/-- Cutting off a product below a divisor is seen in the quotient. -/
theorem mod_div_eq_iff {n d : Nat} (hpos : 0 < d) (hd : d ≤ 2 ^ 32) :
    n % 2 ^ 32 / d = n / d ↔ n < 2 ^ 32 := by
  constructor
  · intro h
    by_contra hge
    have hle : n % 2 ^ 32 + d ≤ n := by omega
    have hnext : n % 2 ^ 32 / d + 1 ≤ n / d := by
      rw [← Nat.add_div_right _ hpos]
      exact Nat.div_le_div_right hle
    omega
  · intro h
    rw [Nat.mod_eq_of_lt h]

namespace RccPll

theorem pllFreq_eq (hseValue : Word) (hms : isRccMsValue pllMs) (hfr : isRccFr pllFr)
    {pll : Word} (hpll : PllHolds pllNs pllMs pllFr pll s.pll) :
    ∃ freq, s.pllFreq hseValue = some freq ∧
      freq.toNat = pllSource hseValue.toNat s.cfg * pllNs.toNat % 2 ^ 32 /
        (pllMs.toNat * 2 ^ pllFr.toNat) := by
  obtain ⟨hvalue, hfrLe⟩ := rccFrValue_eq hfr
  have hmsPos : 1 ≤ pllMs.toNat := hms.1
  have hmsLe : pllMs.toNat ≤ 0xF := hms.2
  have hpow : 2 ^ pllFr.toNat ≤ 2 ^ 5 := Nat.pow_le_pow_right (by decide) hfrLe
  have hbound := Nat.mul_le_mul hmsLe hpow
  have hdivisor : (pllMs * rccFrValue pllFr).toNat = pllMs.toNat * 2 ^ pllFr.toNat := by
    rw [BitVec.toNat_mul_of_lt, hvalue]
    rw [hvalue]
    omega
  have hpos : 0 < pllMs.toNat * 2 ^ pllFr.toNat := Nat.mul_pos hmsPos (Nat.two_pow_pos _)
  obtain ⟨freq, hfreq, hval⟩ := Checked.div_of_ne_zero (pllrcfreq hseValue s.cfg * pllNs)
    (b := pllMs * rccFrValue pllFr) (by omega)
  refine ⟨freq, ?_, ?_⟩
  · simp only [pllFreq, hpll.cfgen, hpll.ns, hpll.ms, hpll.fr, if_true, hfreq]
  · rw [hval, hdivisor, BitVec.toNat_mul, pllrcfreq_toNat]

/-- The other clocks always have a value. -/
theorem rccGetClocksFreq_sysclk {freq : Word} (h : s.sysclkFreq hseValue = some freq) :
    ∃ clocks, s.rccGetClocksFreq hseValue = some clocks ∧ clocks.sysclkFreq = freq := by
  obtain ⟨ahbPsc, hahb, -⟩ := (ahbPsc_shifts s.cfg).exists freq
  obtain ⟨apb1Psc, hapb1, -⟩ := (apb1Psc_shifts s.cfg).exists freq
  obtain ⟨apb2Psc, hapb2, -⟩ := (apb2Psc_shifts s.cfg).exists freq
  obtain ⟨adcPsc, hadc, hadcNat⟩ := adcPsc_eq s.cfg
  have hne : adcPsc.toNat ≠ 0 := by
    rw [hadcNat]
    exact adcDivOf_ne_zero s.cfg
  obtain ⟨adcclk, hdiv, -⟩ := Checked.div_of_ne_zero (freq >>> ahbPsc >>> apb2Psc) hne
  refine ⟨⟨freq, freq >>> ahbPsc, freq >>> ahbPsc >>> apb1Psc, freq >>> ahbPsc >>> apb2Psc, adcclk⟩,
    ?_, rfl⟩
  simp only [rccGetClocksFreq, h, hahb, hapb1, hapb2, hadc, hdiv, Option.bind_eq_bind,
    Option.bind_some, Option.pure_def]

end RccPll

/-- **The frequency that `RCC_GetClocksFreq` reports on the PLL is exact where the clock times `ns` fits
    in a word, and nowhere else.** -/
theorem rcc_pllconfig2_iff (hseValue pllNs pllMs pllFr : Word) (s s' : RccPll)
    (haccepted : RccPllconfig2Accepted hseValue pllNs pllMs pllFr s.cfg)
    (hon : (rccPllconfig2 pllNs pllMs pllFr s).OnPll s') :
    ((∃ clocks, s'.rccGetClocksFreq hseValue = some clocks ∧
        clocks.sysclkFreq.toNat = pllSource hseValue.toNat s.cfg * pllNs.toNat /
          (pllMs.toNat * 2 ^ pllFr.toNat)) ∧
      (rccPllconfig2 pllNs pllMs pllFr s).pll &&& ~~~pllConfig2Mask =
        s.pll &&& ~~~pllConfig2Mask) ↔
      pllSource hseValue.toNat s.cfg * pllNs.toNat < 2 ^ 32 := by
  obtain ⟨hfr, hns, hms, -⟩ := haccepted
  have hholds := rccPllconfig2_holds hns hms hfr s
  have hpll : PllHolds pllNs pllMs pllFr s.pll s'.pll := hon.pll ▸ hholds
  have hsource : pllSource hseValue.toNat s'.cfg = pllSource hseValue.toNat s.cfg :=
    pllSource_eq_of_entry _ hon.entry
  obtain ⟨freq, hfreq, hval⟩ := RccPll.pllFreq_eq hseValue hms hfr hpll
  have hsysclk : s'.sysclkFreq hseValue = some freq := by
    rw [RccPll.sysclkFreq, hon.selected]
    exact hfreq
  obtain ⟨clocks, hclocks, hclocksFreq⟩ := RccPll.rccGetClocksFreq_sysclk hsysclk
  have hmsPos : 1 ≤ pllMs.toNat := hms.1
  have hmsLe : pllMs.toNat ≤ 0xF := hms.2
  have hpow : 2 ^ pllFr.toNat ≤ 2 ^ 5 :=
    Nat.pow_le_pow_right (by decide) (rccFrValue_eq hfr).2
  have hbound := Nat.mul_le_mul hmsLe hpow
  rw [hsource] at hval
  simp only [hholds.rest, and_true, hclocks, Option.some.injEq, exists_eq_left', hclocksFreq, hval]
  exact mod_div_eq_iff (Nat.mul_pos hmsPos (Nat.two_pow_pos _)) (by omega)

/-- 150 MHz from a crystal of 8 MHz. -/
theorem rcc_pllconfig2_150Mhz :
    let s : RccPll := ⟨⟨0x00010000, 0, 0⟩, 0x02001F10⟩
    let s' : RccPll := ⟨⟨0x0001000A, 0, 0⟩, 0x80004B12⟩
    ((∃ clocks, s'.rccGetClocksFreq 8000000 = some clocks ∧
        clocks.sysclkFreq.toNat = pllSource 8000000 s.cfg * 75 / (1 * 2 ^ 2)) ∧
      (rccPllconfig2 75 1 pllFr4 s).pll &&& ~~~pllConfig2Mask = s.pll &&& ~~~pllConfig2Mask) ↔
      pllSource 8000000 s.cfg * 75 < 2 ^ 32 := by
  intro s s'
  have hfr : isRccFr pllFr4 := Or.inr (Or.inr (Or.inl rfl))
  refine rcc_pllconfig2_iff 8000000 75 1 pllFr4 s s' ⟨hfr, ⟨?_, ?_⟩, ⟨?_, ?_⟩, ?_, ?_⟩
    ⟨?_, ?_, ?_⟩ <;> decide

/-- 150 MHz from a crystal of 25 MHz, as 25 times 192 over 8 and 4: reported as less than 16 MHz. -/
theorem rcc_pllconfig2_25Mhz :
    let s : RccPll := ⟨⟨0x00010000, 0, 0⟩, 0x02001F10⟩
    let s' : RccPll := ⟨⟨0x0001000A, 0, 0⟩, 0x8000C082⟩
    RccPllconfig2Accepted 25000000 192 8 pllFr4 s.cfg ∧
      (rccPllconfig2 192 8 pllFr4 s).OnPll s' ∧
      pllSource 25000000 s.cfg * 192 / (8 * 2 ^ pllFr4.toNat) = 150000000 ∧
      ∃ clocks, s'.rccGetClocksFreq 25000000 = some clocks ∧
        clocks.sysclkFreq.toNat = 15782272 := by
  intro s s'
  have hfr : isRccFr pllFr4 := Or.inr (Or.inr (Or.inl rfl))
  have hsysclk : s'.sysclkFreq 25000000 = some 15782272 := by decide
  obtain ⟨clocks, hclocks, hfreq⟩ := RccPll.rccGetClocksFreq_sysclk hsysclk
  refine ⟨⟨hfr, ⟨?_, ?_⟩, ⟨?_, ?_⟩, ?_, ?_⟩, ⟨?_, ?_, ?_⟩, ?_, clocks, hclocks, by rw [hfreq]; rfl⟩ <;>
    decide

end At32
