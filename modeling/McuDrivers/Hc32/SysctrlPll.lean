import McuDrivers.Hc32.Sysctrl
import McuDrivers.Library.Calls

set_option autoImplicit false

/-! # HC32L13x: the limit of the PLL

`Sysctrl_SetPLLFreq` refuses a configuration that would drive the PLL beyond 48 MHz from the clock it
finds. `Sysctrl_SetRCHTrim` changes that clock later and checks nothing, so the limit holds in a run
exactly where each frequency it loads under an accepted configuration still fits the multiplier. -/

namespace Hc32

def pllMax : Nat := 48 * 1000 * 1000

/-- The multipliers and sources that the enumerations name. -/
structure NamedPllCfg extends PllCfg where
  mul_ge : 2 ≤ enPllMul
  mul_le : enPllMul ≤ 12
  src_mem : enPllClkSrc ∈ [0, 2, sysctrlPllRch]

/-! ## One configuration -/

theorem sysctrlSetPllFreq_refused {cfg : PllCfg} {s : Sysctrl} (h : cfg.refused s = true) :
    (sysctrlSetPllFreq cfg).exec s = (.errorInvalidMode, s) := by
  simp [sysctrlSetPllFreq, h]

theorem sysctrlSetPllFreq_accepted {cfg : PllCfg} {s : Sysctrl} (h : cfg.refused s = false) :
    (sysctrlSetPllFreq cfg).exec s = (.ok, { s with
      pllCr := PllCr.refsel.set (.ofNat _ cfg.enPllClkSrc) (PllCr.divn.set (.ofNat _ cfg.enPllMul)
        (PllCr.fosc.set (.ofNat _ cfg.enOutFreq)
          (PllCr.frsel.set (.ofNat _ cfg.enInFreq) s.pllCr))) }) := by
  simp [sysctrlSetPllFreq, h]

/-- XTH is too fast for every multiplier. -/
theorem NamedPllCfg.src_of_accepted {cfg : NamedPllCfg} {s : Sysctrl}
    (h : cfg.toPllCfg.refused s = false) : cfg.enPllClkSrc = sysctrlPllRch := by
  by_contra hsrc
  have hge := cfg.mul_ge
  have hle := cfg.mul_le
  have hmod : systemXth * cfg.enPllMul % 2 ^ 32 = systemXth * cfg.enPllMul :=
    Nat.mod_eq_of_lt (by unfold systemXth; omega)
  simp only [PllCfg.refused, hsrc, if_false, hmod] at h
  have hfast := of_decide_eq_false h
  unfold systemXth at hfast
  omega

/-- An accepted multiplier fits the frequency that RCH has. -/
theorem NamedPllCfg.mul_of_accepted {cfg : NamedPllCfg} {s : Sysctrl}
    (h : cfg.toPllCfg.refused s = false) : rchFreq s * cfg.enPllMul ≤ pllMax := by
  have hsrc := NamedPllCfg.src_of_accepted h
  have hle := cfg.mul_le
  simp only [PllCfg.refused, hsrc, if_true] at h
  have hfits := of_decide_eq_false h
  push Not at hfits
  obtain ⟨h24, h22, h16, h8⟩ := hfits
  unfold rchFreq rchFreqOf pllMax
  split_ifs with htrim htrim htrim htrim
  · have := h24 htrim.symm
    omega
  · have := h22 htrim.symm
    omega
  · have := h16 htrim.symm
    omega
  · have := h8 htrim.symm
    omega
  · omega

/-! ## Sequences of calls -/

/-- The registers, and whether the last `Sysctrl_SetPLLFreq` so far returned `Ok`. -/
structure PllRun where
  regs : Sysctrl
  lastOk : Bool

inductive PllCall where
  | setRchTrim (enRchFreq : Nat)
  | setPllFreq (cfg : NamedPllCfg)

def PllCall.body : PllCall → SysctrlProg SysctrlResult
  | setRchTrim enRchFreq => sysctrlSetRchTrim enRchFreq
  | setPllFreq cfg => sysctrlSetPllFreq cfg.toPllCfg

def pllStep (c : PllCall) (s : PllRun) : PllRun where
  regs := (c.body.exec s.regs).2
  lastOk := match c with
    | .setRchTrim _ => s.lastOk
    | .setPllFreq _ => (c.body.exec s.regs).1 = .ok

/-- What is to hold after a call made in `s` that ends in `s'`. -/
structure PllCall.WithinLimit (c : PllCall) (s s' : PllRun) : Prop where
  limit : s'.lastOk = true → pllFreq s'.regs ≤ pllMax
  refused : ∀ cfg, c = setPllFreq cfg → (c.body.exec s.regs).1 ≠ .ok →
    s'.regs.pllCr = s.regs.pllCr

/-- The frequency of the trim value that `Sysctrl_SetRCHTrim` loads. -/
def trimFreq (s : Sysctrl) (enRchFreq : Nat) : Nat :=
  rchFreqOf s (((s.trim enRchFreq).setWidth RchCr.trim.len).setWidth 16)

/-- The frequency that a call loads under an accepted configuration fits the multiplier stored. -/
def PllCall.FitsMultiplier (s : PllRun) : PllCall → Prop
  | setRchTrim enRchFreq => s.lastOk = true →
      trimFreq s.regs enRchFreq * (PllCr.divn.get s.regs.pllCr).toNat ≤ pllMax
  | setPllFreq _ => True

/-- An accepted configuration takes RCH, as nothing else passes the check. -/
def PllRun.FromRch (s : PllRun) : Prop :=
  s.lastOk = true → PllCr.refsel.get s.regs.pllCr = .ofNat _ sysctrlPllRch

theorem pllFreq_of_rch {s : Sysctrl} (h : PllCr.refsel.get s.pllCr = .ofNat _ sysctrlPllRch) :
    pllFreq s = rchFreq s * (PllCr.divn.get s.pllCr).toNat := by
  rw [pllFreq, if_pos h]

theorem sysctrlSetRchTrim_freq (enRchFreq : Nat) (s : Sysctrl) :
    rchFreq ((sysctrlSetRchTrim enRchFreq).exec s).2 = trimFreq s enRchFreq := by
  simp only [sysctrlSetRchTrim, Prog.exec_bind, Prog.exec_put, Prog.pure_eq, Prog.exec_ret, rchFreq,
    BitField.get_set]
  rfl

theorem setRchTrim_within (enRchFreq : Nat) {s : PllRun} (hs : s.FromRch) :
    (PllCall.setRchTrim enRchFreq).WithinLimit s (pllStep (.setRchTrim enRchFreq) s) ↔
      (PllCall.setRchTrim enRchFreq).FitsMultiplier s := by
  have hfreq (h : s.lastOk = true) : pllFreq (pllStep (.setRchTrim enRchFreq) s).regs =
      trimFreq s.regs enRchFreq * (PllCr.divn.get s.regs.pllCr).toNat := by
    rw [← sysctrlSetRchTrim_freq]
    exact pllFreq_of_rch (hs h)
  constructor
  · intro h hok
    rw [← hfreq hok]
    exact h.limit hok
  · intro h
    refine ⟨fun hok => ?_, fun cfg hcfg => by cases hcfg⟩
    rw [hfreq hok]
    exact h hok

/-- The registers after an accepted configuration. -/
theorem setPllFreq_accepted {cfg : NamedPllCfg} {s : Sysctrl}
    (h : cfg.toPllCfg.refused s = false) :
    let s' := ((sysctrlSetPllFreq cfg.toPllCfg).exec s).2
    PllCr.refsel.get s'.pllCr = .ofNat _ sysctrlPllRch ∧
      (PllCr.divn.get s'.pllCr).toNat = cfg.enPllMul ∧ rchFreq s' = rchFreq s := by
  have hle := cfg.mul_le
  have hmul : cfg.enPllMul % 2 ^ 4 = cfg.enPllMul := Nat.mod_eq_of_lt (by omega)
  rw [sysctrlSetPllFreq_accepted h]
  refine ⟨?_, ?_, rfl⟩
  · rw [BitField.get_set, NamedPllCfg.src_of_accepted h]
  · rw [BitField.get_set_of_disjoint (by decide), BitField.get_set, BitVec.toNat_ofNat]
    exact hmul

theorem setPllFreq_within (cfg : NamedPllCfg) (s : PllRun) :
    (PllCall.setPllFreq cfg).WithinLimit s (pllStep (.setPllFreq cfg) s) := by
  cases hcfg : cfg.toPllCfg.refused s.regs with
  | true => constructor <;> simp [pllStep, PllCall.body, sysctrlSetPllFreq_refused hcfg]
  | false =>
      obtain ⟨hrefsel, hdivn, hrch⟩ := setPllFreq_accepted hcfg
      constructor
      · intro _
        show pllFreq ((sysctrlSetPllFreq cfg.toPllCfg).exec s.regs).2 ≤ pllMax
        rw [pllFreq_of_rch hrefsel, hdivn, hrch]
        exact NamedPllCfg.mul_of_accepted hcfg
      · simp [PllCall.body, sysctrlSetPllFreq_accepted hcfg]

theorem pllStep_fromRch (c : PllCall) {s : PllRun} (hs : s.FromRch) : (pllStep c s).FromRch := by
  cases c with
  | setRchTrim enRchFreq => exact hs
  | setPllFreq cfg =>
      intro hok
      cases hcfg : cfg.toPllCfg.refused s.regs with
      | true => simp [pllStep, PllCall.body, sysctrlSetPllFreq_refused hcfg] at hok
      | false => exact (setPllFreq_accepted hcfg).1

/-- **Whatever the registers and the trim table were at first, the PLL stays within its limit and a
    refused configuration changes nothing, if and only if each trim value that is loaded under an
    accepted configuration fits the multiplier stored.** -/
theorem pll_limit_iff (calls : List PllCall) (regs : Sysctrl) :
    Calls.All pllStep PllCall.WithinLimit calls { regs := regs, lastOk := false } ↔
      Calls.All pllStep (fun c s _ => c.FitsMultiplier s) calls { regs := regs, lastOk := false } := by
  apply Calls.all_congr (I := PllRun.FromRch)
  · intro c s hs
    cases c with
    | setRchTrim enRchFreq => exact setRchTrim_within enRchFreq hs
    | setPllFreq cfg => exact iff_of_true (setPllFreq_within cfg s) trivial
  · intro c s hs _
    exact pllStep_fromRch c hs
  · intro h
    cases h

/-- The five trim values of RCH are pairwise distinct. -/
def DistinctTrim (s : Sysctrl) : Prop := ((List.range 5).map s.trim).Nodup

/-- The multiplier 12 is accepted at 4 MHz, and then RCH is set to 24 MHz. -/
theorem pll_limit_fails :
    ¬ ∀ (calls : List PllCall) (regs : Sysctrl), DistinctTrim regs →
      Calls.All pllStep PllCall.WithinLimit calls { regs := regs, lastOk := false } := by
  intro hall
  let cfg : NamedPllCfg := {
    enInFreq := 0
    enOutFreq := 4
    enPllClkSrc := sysctrlPllRch
    enPllMul := 12
    mul_ge := by decide
    mul_le := by decide
    src_mem := by decide }
  have hrun := hall [.setPllFreq cfg, .setRchTrim 0] resetSysctrl (by unfold DistinctTrim; decide)
  exact absurd (hrun.2.1.limit (by decide)) (by decide)

end Hc32
