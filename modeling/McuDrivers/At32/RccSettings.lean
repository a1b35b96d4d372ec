import McuDrivers.At32.Rcc
import McuDrivers.Library.BitField
import McuDrivers.Library.Bits

set_option autoImplicit false

/-! # AT32F4xx: what the clock tree is set up for

`ClockSettings` holds what the last call of each setter asked for. Each setter stores its own fields
of `RCC->CFG` and no other, so that after any run `CFG` holds the settings (`ofCfg_rccRun`). -/

namespace At32

/-! ## Settings -/

inductive SysclkSource
  | hsi
  | hse
  | pll
  | reserved
  deriving DecidableEq

inductive PllSource
  | hsiDiv2
  | hse
  | hseDiv
  deriving DecidableEq

structure ClockSettings where
  source : SysclkSource
  pllSource : PllSource
  pllMult : Nat
  above72Mhz : Bool
  ahbDiv : Nat
  apb1Div : Nat
  apb2Div : Nat
  adcDiv : Nat

def sysclkSourceOf (select : Word) : SysclkSource :=
  if select = rccSysclkSelctionHsi then .hsi
  else if select = rccSysclkSelctionHse then .hse
  else if select = rccSysclkSelctionPll then .pll
  else .reserved

def pllSourceOf (refClk : Word) : PllSource :=
  if refClk = rccPllRefClkHseDiv1 then .hse
  else if refClk = rccPllRefClkHseDiv2 then .hseDiv
  else .hsiDiv2

/-- The number that stands beside an argument, and `other` where the argument has no name. -/
def numberOf (table : List (Word × Nat)) (other : Nat) (arg : Word) : Nat :=
  (table.lookup arg).getD other

/-- `RCC_PLLConfig` accepts one value without a name, which reads as 16 like the one before it. -/
def pllMultOf (mult : Word) : Nat := numberOf rccPllMults 16 mult

def ahbDivOf (div : Word) : Nat := numberOf rccSysclkDivs 1 div

def apbDivOf (div : Word) : Nat := numberOf rccAhbclkDivs 1 div

/-- The two values without a name read as the ones without their highest bit. -/
def adcDivOf (div : Word) : Nat :=
  if div = 0x10008000 then 8 else numberOf rccApb2clkDivs 2 div

def pllRefClkMask : Word := rccCfgPllrc ||| rccCfgPllhsepsc

namespace ClockSettings

/-- What `CFG` is found to hold, before any call. -/
def ofCfg (cfg : Word) : ClockSettings where
  source := sysclkSourceOf (cfg &&& rccCfgSysclksel)
  pllSource := pllSourceOf (cfg &&& pllRefClkMask)
  pllMult := pllMultOf (cfg &&& rccCfgPllmult)
  above72Mhz := decide (cfg &&& rccCfgPllrange = rccRangeGreatThan72Mhz)
  ahbDiv := ahbDivOf (cfg &&& rccCfgAhbpsc)
  apb1Div := apbDivOf (cfg &&& rccCfgApb1psc)
  apb2Div := apbDivOf ((cfg &&& rccCfgApb2psc) >>> 3)
  adcDiv := adcDivOf (cfg &&& rccCfgAdcpsc)

/-- What a call asks for. The USB clock is not among the frequencies. -/
def apply (t : ClockSettings) : RccCall → ClockSettings
  | .pll refClk mult range =>
      { t with
        pllSource := pllSourceOf refClk
        pllMult := pllMultOf mult
        above72Mhz := decide (range = rccRangeGreatThan72Mhz) }
  | .sysclk select => { t with source := sysclkSourceOf select }
  | .ahbclk div => { t with ahbDiv := ahbDivOf div }
  | .apb1clk div => { t with apb1Div := apbDivOf div }
  | .apb2clk div => { t with apb2Div := apbDivOf div }
  | .usbclk _ => t
  | .adcclk div => { t with adcDiv := adcDivOf div }

end ClockSettings

/-! ## Runs -/

/-- Between the calls the hardware changes `SYSCLKSTS` as it switches. -/
inductive RccStep
  | call (c : RccCall)
  | switched (sts : BitVec 2)

def RccStep.run : RccStep → Rcc → Rcc
  | .call c, s => c.run s
  | .switched sts, s =>
      { s with cfg := (s.cfg &&& ~~~rccCfgSysclksts) ||| (sts.setWidth 32 <<< 2) }

def RccStep.settings : RccStep → ClockSettings → ClockSettings
  | .call c, t => t.apply c
  | .switched _, t => t

def rccRun (steps : List RccStep) (s : Rcc) : Rcc := steps.foldl (fun s step => step.run s) s

/-- The settings after the steps: of each kind the last one, or else what was there before. -/
def settingsAfter (steps : List RccStep) (t : ClockSettings) : ClockSettings :=
  steps.foldl (fun t step => step.settings t) t

/-- `SYSCLKSTS` mirrors `SYSCLKSEL`. -/
def Rcc.Switched (s : Rcc) : Prop :=
  s.cfg &&& rccCfgSysclksts = (s.cfg &&& rccCfgSysclksel) <<< 2

/-! ## What a setter stores -/

namespace RccCall

def pllFields : Word := pllRefClkMask ||| rccCfgPllmult ||| rccCfgPllrange

/-- The fields that the function is for. -/
def fields : RccCall → Word
  | pll _ _ _ => pllFields
  | sysclk _ => rccCfgSysclksel
  | ahbclk _ => rccCfgAhbpsc
  | apb1clk _ => rccCfgApb1psc
  | apb2clk _ => rccCfgApb2psc
  | usbclk _ => rccCfgUsbpsc
  | adcclk _ => rccCfgAdcpsc

/-- What is stored in them. -/
def bits : RccCall → Word
  | pll refClk mult range => refClk ||| mult ||| range
  | sysclk select => select
  | ahbclk div => div
  | apb1clk div => div
  | apb2clk div => div <<< 3
  | usbclk select => select
  | adcclk div => div

theorem run_eq (c : RccCall) (s : Rcc) :
    c.run s = { s with cfg := (s.cfg &&& ~~~c.fields) ||| c.bits } := by
  cases c with
  | pll refClk mult range =>
      have hmask : rccCfgPllcfgMask = ~~~pllFields := by decide
      simp only [run, rccPllConfig, Rcc.storeCfg, fields, bits, hmask]
  | _ => rfl

theorem refClk_bits {refClk : Word} (h : isRccPllCfg refClk) : refClk &&& ~~~pllRefClkMask = 0 := by
  rcases h with rfl | rfl | rfl <;> decide

theorem range_bits {range : Word} (h : isRccPllRange range) : range &&& ~~~rccCfgPllrange = 0 := by
  rcases h with rfl | rfl <;> decide

theorem of_mem_table {table : List (Word × Nat)} {arg : Word} (h : arg ∈ table.map Prod.fst)
    (P : Word → Prop) (hall : ∀ p ∈ table, P p.1) : P arg := by
  obtain ⟨p, hp, rfl⟩ := List.mem_map.mp h
  exact hall p hp

/-- An accepted argument has no bits outside of the fields. -/
theorem Accepted.bits_within {c : RccCall} (h : c.Accepted) : c.bits &&& ~~~c.fields = 0 := by
  cases c with
  | pll refClk mult range =>
      obtain ⟨href, hmult, hrange⟩ := h
      have href' : refClk &&& ~~~pllFields = 0 :=
        Mask.and_eq_zero_of_subset (refClk_bits href) (by decide)
      have hmult' : mult &&& ~~~pllFields = 0 :=
        Mask.and_eq_zero_of_subset hmult (by decide)
      have hrange' : range &&& ~~~pllFields = 0 :=
        Mask.and_eq_zero_of_subset (range_bits hrange) (by decide)
      exact Mask.or_and_eq_zero (Mask.or_and_eq_zero href' hmult') hrange'
  | sysclk select => rcases h with rfl | rfl | rfl <;> decide
  | ahbclk div =>
      exact of_mem_table h (· &&& ~~~rccCfgAhbpsc = 0) (by decide)
  | apb1clk div =>
      exact of_mem_table h (· &&& ~~~rccCfgApb1psc = 0) (by decide)
  | apb2clk div =>
      exact of_mem_table h (fun div => (div <<< 3) &&& ~~~rccCfgApb2psc = 0) (by decide)
  | usbclk select =>
      have hall : rccUsbclkSelections.all (· &&& ~~~rccCfgUsbpsc = 0) = true := by decide
      exact of_decide_eq_true (List.all_eq_true.mp hall select h)
  | adcclk div =>
      exact of_mem_table h (· &&& ~~~rccCfgAdcpsc = 0) (by decide)

/-- Outside of its fields, a setter keeps `CFG`. -/
theorem Accepted.run_other {c : RccCall} (h : c.Accepted) {m : Word} (hm : ~~~c.fields &&& m = m)
    (s : Rcc) : (c.run s).cfg &&& m = s.cfg &&& m := by
  rw [run_eq]
  exact Mask.store_and_of_subset s.cfg hm (Mask.and_eq_zero_of_subset h.bits_within hm)

/-- In its fields, it stores its bits. -/
theorem run_own (c : RccCall) {m : Word} (hm : ~~~c.fields &&& m = 0) (s : Rcc) :
    (c.run s).cfg &&& m = c.bits &&& m := by
  rw [run_eq]
  exact Mask.store_and_of_disjoint s.cfg c.bits hm

/-- A setter for one field stores its argument there. -/
theorem Accepted.run_field {c : RccCall} (h : c.Accepted) (s : Rcc) :
    (c.run s).cfg &&& c.fields = c.bits := by
  rw [run_own c (BitVec.not_and_self _), Mask.and_eq_self h.bits_within]

section Pll

variable {refClk mult range : Word} (h : (pll refClk mult range).Accepted) (s : Rcc)

include h

theorem pll_refClk : ((pll refClk mult range).run s).cfg &&& pllRefClkMask = refClk := by
  obtain ⟨href, hmult, hrange⟩ := h
  have hmult' : mult &&& pllRefClkMask = 0 := Mask.and_eq_zero_of_subset hmult (by decide)
  have hrange' : range &&& pllRefClkMask = 0 :=
    Mask.and_eq_zero_of_subset (range_bits hrange) (by decide)
  calc ((pll refClk mult range).run s).cfg &&& pllRefClkMask
      = (refClk ||| mult ||| range) &&& pllRefClkMask :=
        run_own (pll refClk mult range) (by decide : ~~~pllFields &&& pllRefClkMask = 0) s
    _ = refClk &&& pllRefClkMask := by
        rw [Mask.or_and_of_disjoint _ hrange', Mask.or_and_of_disjoint _ hmult']
    _ = refClk := Mask.and_eq_self (refClk_bits href)

theorem pll_mult : ((pll refClk mult range).run s).cfg &&& rccCfgPllmult = mult := by
  obtain ⟨href, hmult, hrange⟩ := h
  have href' : refClk &&& rccCfgPllmult = 0 :=
    Mask.and_eq_zero_of_subset (refClk_bits href) (by decide)
  have hrange' : range &&& rccCfgPllmult = 0 :=
    Mask.and_eq_zero_of_subset (range_bits hrange) (by decide)
  calc ((pll refClk mult range).run s).cfg &&& rccCfgPllmult
      = (refClk ||| mult ||| range) &&& rccCfgPllmult :=
        run_own (pll refClk mult range) (by decide : ~~~pllFields &&& rccCfgPllmult = 0) s
    _ = mult &&& rccCfgPllmult := by
        rw [Mask.or_and_of_disjoint _ hrange', BitVec.or_comm, Mask.or_and_of_disjoint _ href']
    _ = mult := Mask.and_eq_self hmult

theorem pll_range : ((pll refClk mult range).run s).cfg &&& rccCfgPllrange = range := by
  obtain ⟨href, hmult, hrange⟩ := h
  have hrest : (refClk ||| mult) &&& rccCfgPllrange = 0 :=
    Mask.or_and_eq_zero (Mask.and_eq_zero_of_subset (refClk_bits href) (by decide))
      (Mask.and_eq_zero_of_subset hmult (by decide))
  calc ((pll refClk mult range).run s).cfg &&& rccCfgPllrange
      = (refClk ||| mult ||| range) &&& rccCfgPllrange :=
        run_own (pll refClk mult range) (by decide : ~~~pllFields &&& rccCfgPllrange = 0) s
    _ = range &&& rccCfgPllrange := by rw [BitVec.or_comm, Mask.or_and_of_disjoint _ hrest]
    _ = range := Mask.and_eq_self (range_bits hrange)

end Pll

end RccCall

namespace ClockSettings

/-- A setter changes the settings as its argument asks, and those of no other field. -/
theorem ofCfg_run {c : RccCall} (h : c.Accepted) (s : Rcc) :
    ofCfg (c.run s).cfg = (ofCfg s.cfg).apply c := by
  have hother := fun m hm => h.run_other (m := m) hm s
  have hfield := h.run_field s
  cases c with
  | pll refClk mult range =>
      replace hother : ∀ m, ~~~RccCall.pllFields &&& m = m → _ := hother
      simp (disch := decide) only [ofCfg, apply, RccCall.pll_refClk h, RccCall.pll_mult h,
        RccCall.pll_range h, hother]
  | sysclk select =>
      replace hother : ∀ m, ~~~rccCfgSysclksel &&& m = m → _ := hother
      replace hfield : _ &&& rccCfgSysclksel = select := hfield
      simp (disch := decide) only [ofCfg, apply, hfield, hother]
  | ahbclk div =>
      replace hother : ∀ m, ~~~rccCfgAhbpsc &&& m = m → _ := hother
      replace hfield : _ &&& rccCfgAhbpsc = div := hfield
      simp (disch := decide) only [ofCfg, apply, hfield, hother]
  | apb1clk div =>
      replace hother : ∀ m, ~~~rccCfgApb1psc &&& m = m → _ := hother
      replace hfield : _ &&& rccCfgApb1psc = div := hfield
      simp (disch := decide) only [ofCfg, apply, hfield, hother]
  | apb2clk div =>
      replace hother : ∀ m, ~~~rccCfgApb2psc &&& m = m → _ := hother
      replace hfield : _ &&& rccCfgApb2psc = div <<< 3 := hfield
      have hback : (div <<< 3) >>> 3 = div :=
        RccCall.of_mem_table h (fun div => (div <<< 3) >>> 3 = div) (by decide)
      simp (disch := decide) only [ofCfg, apply, hfield, hback, hother]
  | usbclk select =>
      replace hother : ∀ m, ~~~rccCfgUsbpsc &&& m = m → _ := hother
      simp (disch := decide) only [ofCfg, apply, hother]
  | adcclk div =>
      replace hother : ∀ m, ~~~rccCfgAdcpsc &&& m = m → _ := hother
      replace hfield : _ &&& rccCfgAdcpsc = div := hfield
      simp (disch := decide) only [ofCfg, apply, hfield, hother]

end ClockSettings

/-! ## What a run leaves -/

theorem ofCfg_step {step : RccStep} (h : ∀ c, step = .call c → c.Accepted) (s : Rcc) :
    ClockSettings.ofCfg (step.run s).cfg = step.settings (ClockSettings.ofCfg s.cfg) := by
  cases step with
  | call c => exact ClockSettings.ofCfg_run (h c rfl) s
  | switched sts =>
      have hsts : ∀ sts : BitVec 2, (sts.setWidth 32 <<< 2) &&& ~~~rccCfgSysclksts = 0 := by decide
      have hother : ∀ m, ~~~rccCfgSysclksts &&& m = m →
          ((RccStep.switched sts).run s).cfg &&& m = s.cfg &&& m := by
        intro m hm
        exact Mask.store_and_of_subset s.cfg hm (Mask.and_eq_zero_of_subset (hsts sts) hm)
      simp (disch := decide) only [ClockSettings.ofCfg, RccStep.settings, hother]

/-- However the calls and the switching follow each other, `CFG` holds the last settings. -/
theorem ofCfg_rccRun (steps : List RccStep) (s : Rcc)
    (h : ∀ c, RccStep.call c ∈ steps → c.Accepted) :
    ClockSettings.ofCfg (rccRun steps s).cfg =
      settingsAfter steps (ClockSettings.ofCfg s.cfg) := by
  induction steps generalizing s with
  | nil => rfl
  | cons step rest ih =>
      have hstep : ∀ c, step = .call c → c.Accepted := by
        rintro c rfl
        exact h c List.mem_cons_self
      have hrest : ∀ c, RccStep.call c ∈ rest → c.Accepted :=
        fun c hc => h c (List.mem_cons_of_mem step hc)
      calc ClockSettings.ofCfg (rccRun rest (step.run s)).cfg
          = settingsAfter rest (ClockSettings.ofCfg (step.run s).cfg) := ih (step.run s) hrest
        _ = settingsAfter rest (step.settings (ClockSettings.ofCfg s.cfg)) := by
            rw [ofCfg_step hstep]

/-- The frequencies also depend on `MISC` and `MISC2`, which no step touches. -/
theorem rccRun_misc (steps : List RccStep) (s : Rcc) :
    (rccRun steps s).misc = s.misc ∧ (rccRun steps s).misc2 = s.misc2 := by
  induction steps generalizing s with
  | nil => exact ⟨rfl, rfl⟩
  | cons step rest ih =>
      have hstep : (step.run s).misc = s.misc ∧ (step.run s).misc2 = s.misc2 := by
        cases step with
        | call c => rw [RccStep.run, RccCall.run_eq]; exact ⟨rfl, rfl⟩
        | switched sts => exact ⟨rfl, rfl⟩
      rw [← hstep.1, ← hstep.2]
      exact ih (step.run s)

end At32
