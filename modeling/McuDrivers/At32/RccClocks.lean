import McuDrivers.At32.RccSettings

set_option autoImplicit false

/-! # AT32F4xx: the frequencies of the clock tree

`ClockSettings.freqs` says in plain numbers which frequencies follow from the settings, and
`RCC_GetClocksFreq` computes these from `CFG`, through its two tables. -/

namespace At32

/-! ## What follows from the settings -/

/-- `RCC_HSE_DIV_2` to `RCC_HSE_DIV_5` -/
def rccHseDivs : List (Word × Nat) := [
  (0x00000000, 2), (0x00001000, 3), (0x00002000, 4), (0x00003000, 5)]

/-- What the frequencies depend on beside the settings: the crystal, and `MISC` and `MISC2`. -/
structure ClockInputs where
  hse : Nat
  hseDiv : Nat
  hsi48Mhz : Bool

def Rcc.inputs (hseValue : Word) (s : Rcc) : ClockInputs where
  hse := hseValue.toNat
  hseDiv := numberOf rccHseDivs 2 (s.misc2 &&& rccHseDivMask)
  hsi48Mhz := decide (s.misc &&& rccHsiDivEn ≠ 0 ∧ s.misc2 &&& rccHsiSysCtrl ≠ 0)

structure ClockFreqs where
  sysclk : Nat
  ahbclk : Nat
  apb1clk : Nat
  apb2clk : Nat
  adcclk : Nat
  deriving DecidableEq

namespace ClockSettings

def pllEntry (t : ClockSettings) (i : ClockInputs) : Nat :=
  match t.pllSource with
  | .hsiDiv2 => 4000000
  | .hse => i.hse
  | .hseDiv => i.hse / i.hseDiv

def pll (t : ClockSettings) (i : ClockInputs) : Nat :=
  if t.above72Mhz then t.pllEntry i * t.pllMult else min (t.pllEntry i * t.pllMult) 72000000

def sysclk (t : ClockSettings) (i : ClockInputs) : Nat :=
  match t.source with
  | .hsi => if i.hsi48Mhz then 48000000 else 8000000
  | .hse => i.hse
  | .pll => t.pll i
  | .reserved => 8000000

def freqs (t : ClockSettings) (i : ClockInputs) : ClockFreqs where
  sysclk := t.sysclk i
  ahbclk := t.sysclk i / t.ahbDiv
  apb1clk := t.sysclk i / t.ahbDiv / t.apb1Div
  apb2clk := t.sysclk i / t.ahbDiv / t.apb2Div
  adcclk := t.sysclk i / t.ahbDiv / t.apb2Div / t.adcDiv

end ClockSettings

def RccClockType.freqs (c : RccClockType) : ClockFreqs where
  sysclk := c.sysclkFreq.toNat
  ahbclk := c.ahbclkFreq.toNat
  apb1clk := c.apb1clkFreq.toNat
  apb2clk := c.apb2clkFreq.toNat
  adcclk := c.adcclkFreq.toNat

theorem ClockSettings.pllEntry_le (t : ClockSettings) {i : ClockInputs} (h : i.hse ≤ 32000000) :
    t.pllEntry i ≤ 32000000 := by
  unfold ClockSettings.pllEntry
  cases t.pllSource with
  | hsiDiv2 => simp
  | hse => exact h
  | hseDiv => exact (Nat.div_le_self _ _).trans h

/-! ## Prescalers -/

theorem apbahbPsc_and {field top : Word} (hlow : field &&& (field ^^^ top) = field ^^^ top)
    (htop : field &&& top = top) (pos : Nat) (cfg : Word) :
    apbahbPsc field top pos (cfg &&& field) = apbahbPsc field top pos cfg := by
  unfold apbahbPsc
  rw [BitVec.and_assoc, hlow, BitVec.and_assoc, htop]

/-- The shift that the table gives for a field divides by the number that stands beside its value. -/
def Shifts (psc : Option Word) (div : Nat) : Prop := psc.map (2 ^ ·.toNat) = some div

instance (psc : Option Word) (div : Nat) : Decidable (Shifts psc div) :=
  inferInstanceAs (Decidable (_ = _))

theorem ahbPsc_shifts (cfg : Word) :
    Shifts (apbahbPsc rccCfgAhbpsc rccCfgAhbpsc3 4 cfg) (ahbDivOf (cfg &&& rccCfgAhbpsc)) := by
  rw [← apbahbPsc_and (by decide) (by decide)]
  exact BitField.forall_and_mask ⟨4, 4, by decide⟩ (by decide)
    (fun r => Shifts (apbahbPsc rccCfgAhbpsc rccCfgAhbpsc3 4 r) (ahbDivOf r)) (by decide) cfg

theorem apb1Psc_shifts (cfg : Word) :
    Shifts (apbahbPsc rccCfgApb1psc rccCfgApb1psc2 8 cfg) (apbDivOf (cfg &&& rccCfgApb1psc)) := by
  rw [← apbahbPsc_and (by decide) (by decide)]
  exact BitField.forall_and_mask ⟨8, 3, by decide⟩ (by decide)
    (fun r => Shifts (apbahbPsc rccCfgApb1psc rccCfgApb1psc2 8 r) (apbDivOf r)) (by decide) cfg

theorem apb2Psc_shifts (cfg : Word) :
    Shifts (apbahbPsc rccCfgApb2psc rccCfgApb2psc2 11 cfg)
      (apbDivOf ((cfg &&& rccCfgApb2psc) >>> 3)) := by
  rw [← apbahbPsc_and (by decide) (by decide)]
  exact BitField.forall_and_mask ⟨11, 3, by decide⟩ (by decide)
    (fun r => Shifts (apbahbPsc rccCfgApb2psc rccCfgApb2psc2 11 r) (apbDivOf (r >>> 3)))
    (by decide) cfg

theorem adcPsc_and (cfg : Word) : adcPsc (cfg &&& rccCfgAdcpsc) = adcPsc cfg := by
  have hlow : rccCfgAdcpsc &&& cfgAdcpscSetMask = cfgAdcpscSetMask := by decide
  have hbit2 : rccCfgAdcpsc &&& cfgAdcpscBit2SetMask = cfgAdcpscBit2SetMask := by decide
  unfold adcPsc
  rw [BitVec.and_assoc, hlow, BitVec.and_assoc, hbit2]

theorem adcPsc_eq (cfg : Word) :
    ∃ psc, adcPsc cfg = some psc ∧ psc.toNat = adcDivOf (cfg &&& rccCfgAdcpsc) := by
  rw [← adcPsc_and]
  exact Option.map_eq_some_iff.mp <|
    BitField.forall_and_masks ⟨14, 2, by decide⟩ ⟨28, 1, by decide⟩ (by decide)
      (fun r => (adcPsc r).map BitVec.toNat = some (adcDivOf r)) (by decide) cfg

/-! ## The PLL -/

theorem rccGetPllmult_eq (cfg : Word) :
    ∃ mult, rccGetPllmult (cfg &&& rccCfgPllmult) = some mult ∧
      mult.toNat = pllMultOf (cfg &&& rccCfgPllmult) :=
  Option.map_eq_some_iff.mp <|
    BitField.forall_and_masks ⟨18, 4, by decide⟩ ⟨29, 2, by decide⟩ (by decide)
      (fun r => (rccGetPllmult r).map BitVec.toNat = some (pllMultOf r)) (by decide +kernel) cfg

theorem pllMultOf_le (cfg : Word) : pllMultOf (cfg &&& rccCfgPllmult) ≤ 64 :=
  BitField.forall_and_masks ⟨18, 4, by decide⟩ ⟨29, 2, by decide⟩ (by decide)
    (fun r => pllMultOf r ≤ 64) (by decide +kernel) cfg

theorem hseDiv_eq (misc2 : Word) :
    ∃ divisor, Checked.add ((misc2 &&& rccHseDivMask) >>> rccHseDivPos) 2 = some divisor ∧
      divisor.toNat = numberOf rccHseDivs 2 (misc2 &&& rccHseDivMask) :=
  Option.map_eq_some_iff.mp <|
    BitField.forall_and_mask ⟨12, 2, by decide⟩ (by decide)
      (fun r => (Checked.add (r >>> rccHseDivPos) 2).map BitVec.toNat = some (numberOf rccHseDivs 2 r))
      (by decide) misc2

theorem hseDiv_ne_zero (misc2 : Word) : numberOf rccHseDivs 2 (misc2 &&& rccHseDivMask) ≠ 0 :=
  BitField.forall_and_mask ⟨12, 2, by decide⟩ (by decide) (fun r => numberOf rccHseDivs 2 r ≠ 0)
    (by decide) misc2

/-- Which clock goes into the PLL: without `PLLRC` it does not matter what `PLLHSEPSC` is. -/
theorem pllRefClk_cases (cfg : Word) :
    (cfg &&& rccCfgPllrc = 0 ∧ pllSourceOf (cfg &&& pllRefClkMask) = .hsiDiv2) ∨
    (cfg &&& rccCfgPllrc ≠ 0 ∧ cfg &&& rccCfgPllhsepsc = 0 ∧
      pllSourceOf (cfg &&& pllRefClkMask) = .hse) ∨
    (cfg &&& rccCfgPllrc ≠ 0 ∧ cfg &&& rccCfgPllhsepsc ≠ 0 ∧
      pllSourceOf (cfg &&& pllRefClkMask) = .hseDiv) := by
  rw [← Mask.and_and_of_subset cfg (by decide : pllRefClkMask &&& rccCfgPllrc = rccCfgPllrc),
    ← Mask.and_and_of_subset cfg
      (by decide : pllRefClkMask &&& rccCfgPllhsepsc = rccCfgPllhsepsc)]
  exact BitField.forall_and_mask ⟨16, 2, by decide⟩ (by decide)
    (fun r =>
      (r &&& rccCfgPllrc = 0 ∧ pllSourceOf r = .hsiDiv2) ∨
      (r &&& rccCfgPllrc ≠ 0 ∧ r &&& rccCfgPllhsepsc = 0 ∧ pllSourceOf r = .hse) ∨
      (r &&& rccCfgPllrc ≠ 0 ∧ r &&& rccCfgPllhsepsc ≠ 0 ∧ pllSourceOf r = .hseDiv))
    (by decide) cfg

theorem pllEntry_eq (hseValue : Word) (s : Rcc) :
    ∃ entry, pllEntry hseValue s = some entry ∧
      entry.toNat = (ClockSettings.ofCfg s.cfg).pllEntry (s.inputs hseValue) := by
  unfold pllEntry ClockSettings.pllEntry
  rcases pllRefClk_cases s.cfg with ⟨hrc, hsource⟩ | ⟨hrc, hpsc, hsource⟩ | ⟨hrc, hpsc, hsource⟩
  · refine ⟨hsiValue >>> 1, if_pos hrc, ?_⟩
    simp only [ClockSettings.ofCfg, hsource]
    decide
  · refine ⟨hseValue, ?_, ?_⟩
    · simp only [if_neg hrc, hpsc, ne_eq, not_true_eq_false, if_false]
    · simp only [ClockSettings.ofCfg, hsource, Rcc.inputs]
  · obtain ⟨divisor, hadd, hdivisor⟩ := hseDiv_eq s.misc2
    have hne : divisor.toNat ≠ 0 := by
      rw [hdivisor]
      exact hseDiv_ne_zero s.misc2
    obtain ⟨entry, hdiv, hentry⟩ := Checked.div_of_ne_zero hseValue hne
    refine ⟨entry, ?_, ?_⟩
    · simp only [if_neg hrc, if_pos hpsc, hadd, Option.bind_eq_bind, Option.bind_some, hdiv]
    · simp only [ClockSettings.ofCfg, hsource, Rcc.inputs, hentry, hdivisor]

theorem pllRange_cases (cfg : Word) :
    cfg &&& rccCfgPllrange = 0 ∨ cfg &&& rccCfgPllrange = rccRangeGreatThan72Mhz :=
  BitField.forall_and_mask ⟨31, 1, by decide⟩ (by decide)
    (fun r => r = 0 ∨ r = rccRangeGreatThan72Mhz) (by decide) cfg

theorem fixRange_toNat (s : Rcc) (freq : Word) :
    (fixRange s freq).toNat =
      if (ClockSettings.ofCfg s.cfg).above72Mhz then freq.toNat else min freq.toNat 72000000 := by
  unfold fixRange
  rcases pllRange_cases s.cfg with hrange | hrange
  · have hbelow : (ClockSettings.ofCfg s.cfg).above72Mhz = false := by
      simp only [ClockSettings.ofCfg, hrange]
      decide
    rw [hbelow]
    by_cases hlt : rccPllRange < freq
    · rw [if_pos ⟨hrange, hlt⟩]
      have hle : 72000000 ≤ freq.toNat := Nat.le_of_lt hlt
      simp [hle, rccPllRange]
    · rw [if_neg fun h => hlt h.2]
      have hle : freq.toNat ≤ 72000000 := Nat.le_of_not_lt hlt
      simp [hle]
  · have habove : (ClockSettings.ofCfg s.cfg).above72Mhz = true := by
      simp only [ClockSettings.ofCfg, hrange, decide_true]
    have hne : ¬ (s.cfg &&& rccCfgPllrange = 0) := by
      rw [hrange]
      decide
    rw [habove, if_neg fun h => hne h.1, if_pos rfl]

/-- The product stays in 32 bits: 64 times 32 MHz is less than 2 ^ 32. -/
theorem pllFreq_eq {hseValue : Word} (hhse : hseValue.toNat ≤ 32000000) (s : Rcc) :
    ∃ freq, pllFreq hseValue s = some freq ∧
      freq.toNat = (ClockSettings.ofCfg s.cfg).pll (s.inputs hseValue) := by
  obtain ⟨mult, hmult, hmultNat⟩ := rccGetPllmult_eq s.cfg
  obtain ⟨entry, hentry, hentryNat⟩ := pllEntry_eq hseValue s
  have hentryLe : entry.toNat ≤ 32000000 := by
    rw [hentryNat]
    exact ClockSettings.pllEntry_le _ hhse
  have hmultLe : mult.toNat ≤ 64 := by
    rw [hmultNat]
    exact pllMultOf_le s.cfg
  have hprod : entry.toNat * mult.toNat < 2 ^ 32 :=
    lt_of_le_of_lt (Nat.mul_le_mul hentryLe hmultLe) (by decide)
  obtain ⟨freq, hfreq, hfreqNat⟩ := Checked.mul_of_lt hprod
  refine ⟨fixRange s freq, ?_, ?_⟩
  · simp only [pllFreq, hmult, hentry, hfreq, Option.bind_eq_bind, Option.bind_some, Option.pure_def]
  · rw [fixRange_toNat, hfreqNat, hentryNat, hmultNat]
    rfl

/-! ## `RCC_GetClocksFreq` -/

/-- Which case of the `switch` is taken, once the hardware has switched to what is selected. -/
theorem sysclk_cases {s : Rcc} (h : s.Switched) :
    (s.cfg &&& rccCfgSysclksts = 0x00 ∧
      sysclkSourceOf (s.cfg &&& rccCfgSysclksel) = .hsi) ∨
    (s.cfg &&& rccCfgSysclksts = 0x04 ∧
      sysclkSourceOf (s.cfg &&& rccCfgSysclksel) = .hse) ∨
    (s.cfg &&& rccCfgSysclksts = 0x08 ∧
      sysclkSourceOf (s.cfg &&& rccCfgSysclksel) = .pll) ∨
    (s.cfg &&& rccCfgSysclksts = 0x0C ∧
      sysclkSourceOf (s.cfg &&& rccCfgSysclksel) = .reserved) := by
  rw [h]
  exact BitField.forall_and_mask ⟨0, 2, by decide⟩ (by decide)
    (fun r =>
      (r <<< 2 = 0x00 ∧ sysclkSourceOf r = .hsi) ∨ (r <<< 2 = 0x04 ∧ sysclkSourceOf r = .hse) ∨
      (r <<< 2 = 0x08 ∧ sysclkSourceOf r = .pll) ∨
      (r <<< 2 = 0x0C ∧ sysclkSourceOf r = .reserved))
    (by decide) s.cfg

theorem hsiFreq_eq (s : Rcc) (hseValue : Word) :
    ∃ freq, hsiFreq s = some freq ∧
      freq.toNat = if (s.inputs hseValue).hsi48Mhz then 48000000 else 8000000 := by
  unfold hsiFreq
  by_cases h : s.misc &&& rccHsiDivEn ≠ 0 ∧ s.misc2 &&& rccHsiSysCtrl ≠ 0
  · refine ⟨48000000, (if_pos h).trans (by decide), ?_⟩
    have hhsi : (s.inputs hseValue).hsi48Mhz = true := decide_eq_true h
    rw [hhsi, if_pos rfl]
    decide
  · refine ⟨hsiValue, if_neg h, ?_⟩
    have hhsi : (s.inputs hseValue).hsi48Mhz = false := decide_eq_false h
    rw [hhsi, if_neg Bool.false_ne_true]
    decide

theorem sysclkFreq_eq {hseValue : Word} (hhse : hseValue.toNat ≤ 32000000) {s : Rcc}
    (hs : s.Switched) :
    ∃ freq, sysclkFreq hseValue s = some freq ∧
      freq.toNat = (ClockSettings.ofCfg s.cfg).sysclk (s.inputs hseValue) := by
  unfold sysclkFreq ClockSettings.sysclk
  rcases sysclk_cases hs with ⟨hsts, hsource⟩ | ⟨hsts, hsource⟩ | ⟨hsts, hsource⟩ | ⟨hsts, hsource⟩
  · obtain ⟨freq, hfreq, hfreqNat⟩ := hsiFreq_eq s hseValue
    refine ⟨freq, (if_pos hsts).trans hfreq, ?_⟩
    simp only [ClockSettings.ofCfg, hsource, hfreqNat]
  · refine ⟨hseValue, ?_, ?_⟩
    · rw [hsts]
      exact (if_neg (by decide)).trans (if_pos rfl)
    · simp only [ClockSettings.ofCfg, hsource, Rcc.inputs]
  · obtain ⟨freq, hfreq, hfreqNat⟩ := pllFreq_eq hhse s
    refine ⟨freq, ?_, ?_⟩
    · rw [hsts]
      exact (if_neg (by decide)).trans ((if_neg (by decide)).trans ((if_pos rfl).trans hfreq))
    · have hsource' : (ClockSettings.ofCfg s.cfg).source = .pll := hsource
      rw [hsource', hfreqNat]
  · refine ⟨hsiValue, ?_, ?_⟩
    · rw [hsts]
      exact (if_neg (by decide)).trans ((if_neg (by decide)).trans (if_neg (by decide)))
    · simp only [ClockSettings.ofCfg, hsource]
      decide

theorem Shifts.exists {psc : Option Word} {div : Nat} (h : Shifts psc div) (freq : Word) :
    ∃ shift, psc = some shift ∧ (freq >>> shift).toNat = freq.toNat / div := by
  obtain ⟨shift, hpsc, hdiv⟩ := Option.map_eq_some_iff.mp h
  refine ⟨shift, hpsc, ?_⟩
  rw [← hdiv]
  exact Nat.shiftRight_eq_div_pow freq.toNat shift.toNat

theorem adcDivOf_ne_zero (cfg : Word) : adcDivOf (cfg &&& rccCfgAdcpsc) ≠ 0 :=
  BitField.forall_and_masks ⟨14, 2, by decide⟩ ⟨28, 1, by decide⟩ (by decide)
    (fun r => adcDivOf r ≠ 0) (by decide) cfg

/-- The frequencies that the settings in `CFG` imply are computed, without overflow and without a
    division by zero. -/
theorem rccGetClocksFreq_eq {hseValue : Word} (hhse : hseValue.toNat ≤ 32000000) {s : Rcc}
    (hs : s.Switched) :
    (rccGetClocksFreq hseValue s).map RccClockType.freqs =
      some ((ClockSettings.ofCfg s.cfg).freqs (s.inputs hseValue)) := by
  obtain ⟨sysclk, hsysclk, hsysclkNat⟩ := sysclkFreq_eq hhse hs
  obtain ⟨ahbPsc, hahb, hahbNat⟩ := (ahbPsc_shifts s.cfg).exists sysclk
  obtain ⟨apb1Psc, hapb1, hapb1Nat⟩ := (apb1Psc_shifts s.cfg).exists (sysclk >>> ahbPsc)
  obtain ⟨apb2Psc, hapb2, hapb2Nat⟩ := (apb2Psc_shifts s.cfg).exists (sysclk >>> ahbPsc)
  obtain ⟨adcPsc, hadc, hadcNat⟩ := adcPsc_eq s.cfg
  have hne : adcPsc.toNat ≠ 0 := by
    rw [hadcNat]
    exact adcDivOf_ne_zero s.cfg
  obtain ⟨adcclk, hdiv, hdivNat⟩ := Checked.div_of_ne_zero (sysclk >>> ahbPsc >>> apb2Psc) hne
  simp only [rccGetClocksFreq, hsysclk, hahb, hapb1, hapb2, hadc, hdiv, Option.bind_eq_bind,
    Option.bind_some, Option.pure_def, Option.map_some, RccClockType.freqs, ClockSettings.freqs,
    hdivNat, hadcNat, hapb1Nat, hapb2Nat, hahbNat, hsysclkNat, ClockSettings.ofCfg]

theorem inputs_rccRun (hseValue : Word) (steps : List RccStep) (s : Rcc) :
    (rccRun steps s).inputs hseValue = s.inputs hseValue := by
  obtain ⟨hmisc, hmisc2⟩ := rccRun_misc steps s
  simp only [Rcc.inputs, hmisc, hmisc2]

/-- After any accepted calls, `RCC_GetClocksFreq` computes the frequencies that the last settings of
    each kind imply, and each setter has changed its own fields only. -/
theorem rcc_clocks_freq (hseValue : Word) (hhse : hseValue.toNat ≤ 32000000)
    (steps : List RccStep) (hsteps : ∀ c, RccStep.call c ∈ steps → c.Accepted) (s : Rcc)
    (hs : (rccRun steps s).Switched) :
    (rccGetClocksFreq hseValue (rccRun steps s)).map RccClockType.freqs =
      some ((settingsAfter steps (ClockSettings.ofCfg s.cfg)).freqs (s.inputs hseValue)) ∧
    ∀ c : RccCall, c.Accepted → ∀ t : Rcc,
      (c.run t).cfg &&& ~~~c.fields = t.cfg &&& ~~~c.fields := by
  constructor
  · rw [rccGetClocksFreq_eq hhse hs, ofCfg_rccRun steps s hsteps, inputs_rccRun]
  · intro c hc t
    exact hc.run_other BitVec.and_self t

/-- 240 MHz from a crystal of 8 MHz, set up over a `CFG` that is full of other bits. -/
theorem rcc_clocks_freq_240Mhz :
    (rccGetClocksFreq 8000000 (rccRun
      [.call (.ahbclk 0x00), .call (.apb2clk 0x400), .call (.apb1clk 0x400),
        .call (.pll 0x00010000 0x20340000 0x80000000), .call (.sysclk 0x02), .switched 2]
      ⟨0xFFFFFFFF, 0, 0⟩)).map RccClockType.freqs =
    some ⟨240000000, 240000000, 120000000, 120000000, 7500000⟩ := by
  refine (rcc_clocks_freq 8000000 (by decide) _ ?_ ⟨0xFFFFFFFF, 0, 0⟩ ?_).1.trans ?_
  · simp only [List.mem_cons, RccStep.call.injEq, List.not_mem_nil, or_false, reduceCtorEq]
    rintro c (rfl | rfl | rfl | rfl | rfl)
    · exact List.mem_map.mpr ⟨(0x00, 1), by decide, rfl⟩
    · exact List.mem_map.mpr ⟨(0x400, 2), by decide, rfl⟩
    · exact List.mem_map.mpr ⟨(0x400, 2), by decide, rfl⟩
    · have hmult : (0x20340000 : Word) &&& ~~~rccCfgPllmult = 0 := by decide
      exact ⟨Or.inr (Or.inl rfl), hmult, Or.inr rfl⟩
    · exact Or.inr (Or.inr rfl)
  · unfold Rcc.Switched
    decide
  · decide

end At32
