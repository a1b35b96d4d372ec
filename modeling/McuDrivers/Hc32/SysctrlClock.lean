import McuDrivers.Hc32.Sysctrl
import McuDrivers.Library.Calls

set_option autoImplicit false

/-! # HC32L13x: the cached clock frequency

`SystemCoreClock` is brought up to date when the clock source is switched. `Sysctrl_ClkInit` and
`Sysctrl_ClkDeInit` store the divider of HCLK after that, so the cache is right after them exactly
where the divider does not change the frequency. -/

namespace Hc32

/-! ## What the frequency depends on -/

/-- What the frequencies of the clock sources are computed from. -/
structure FreqInputs where
  rchTrim : BitVec RchCr.trim.len
  rclTrim : BitVec RclCr.trim.len
  refsel : BitVec PllCr.refsel.len
  divn : BitVec PllCr.divn.len
  trim : Nat → BitVec 16

def Sysctrl.freqInputs (s : Sysctrl) : FreqInputs where
  rchTrim := RchCr.trim.get s.rchCr
  rclTrim := RclCr.trim.get s.rclCr
  refsel := PllCr.refsel.get s.pllCr
  divn := PllCr.divn.get s.pllCr
  trim := s.trim

theorem sourceFreq_congr {s s' : Sysctrl} (h : s'.freqInputs = s.freqInputs) (enSrc : Nat) :
    sourceFreq s' enSrc = sourceFreq s enSrc := by
  have hrch : RchCr.trim.get s'.rchCr = _ := congrArg FreqInputs.rchTrim h
  have hrcl : RclCr.trim.get s'.rclCr = _ := congrArg FreqInputs.rclTrim h
  have hrefsel : PllCr.refsel.get s'.pllCr = _ := congrArg FreqInputs.refsel h
  have hdivn : PllCr.divn.get s'.pllCr = _ := congrArg FreqInputs.divn h
  have htrim : s'.trim = _ := congrArg FreqInputs.trim h
  simp only [Sysctrl.freqInputs] at hrch hrcl hrefsel hdivn htrim
  have hrchFreq : rchFreq s' = rchFreq s := by
    unfold rchFreq rchFreqOf rchCrTrim24MVal rchCrTrim22_12MVal rchCrTrim16MVal rchCrTrim8MVal
    rw [hrch, htrim]
  have hrclFreq : rclFreq s' = rclFreq s := by
    unfold rclFreq rclCrTrim38400Val
    rw [hrcl, htrim]
  have hpllFreq : pllFreq s' = pllFreq s := by
    simp only [pllFreq, hrefsel, hdivn, hrchFreq]
  simp only [sourceFreq, hrchFreq, hrclFreq, hpllFreq]

/-- Neither the cache nor anything that `Sysctrl_GetHClkFreq` reads has changed. -/
structure SameFreq (s s' : Sysctrl) : Prop where
  inputs : s'.freqInputs = s.freqInputs
  clksw : Sysctrl0.clksw.get s'.sysctrl0 = Sysctrl0.clksw.get s.sysctrl0
  hclkPrs : Sysctrl0.hclkPrs.get s'.sysctrl0 = Sysctrl0.hclkPrs.get s.sysctrl0
  clock : s'.systemCoreClock = s.systemCoreClock

theorem SameFreq.refl (s : Sysctrl) : SameFreq s s := ⟨rfl, rfl, rfl, rfl⟩

theorem SameFreq.trans {s t u : Sysctrl} (h : SameFreq s t) (h' : SameFreq t u) : SameFreq s u :=
  ⟨h'.inputs.trans h.inputs, h'.clksw.trans h.clksw, h'.hclkPrs.trans h.hclkPrs,
    h'.clock.trans h.clock⟩

/-- The source in use and its frequency, before it is divided. -/
theorem SameFreq.source {s s' : Sysctrl} (h : SameFreq s s') :
    sourceFreq s' (Sysctrl0.clksw.get s'.sysctrl0).toNat =
      sourceFreq s (Sysctrl0.clksw.get s.sysctrl0).toNat := by
  rw [h.clksw, sourceFreq_congr h.inputs]

theorem SameFreq.current {s s' : Sysctrl} (h : SameFreq s s')
    (hs : s.systemCoreClock = sysctrlGetHClkFreq s) :
    s'.systemCoreClock = sysctrlGetHClkFreq s' := by
  rw [h.clock, hs, sysctrlGetHClkFreq, sysctrlGetHClkFreq, h.source, h.hclkPrs]

theorem waitStable_keeps (enSource : Nat) (bFlag : Bool) :
    (waitStable enSource bFlag).Accesses SameFreq := by
  unfold waitStable
  cases bFlag with
  | false => simp
  | true =>
      simp only [if_true, Prog.accesses_put]
      intro s
      unfold Sysctrl.setStable
      split <;> constructor <;>
        simp (disch := decide) [Sysctrl.freqInputs, BitField.get_set_of_disjoint]

theorem sysctrlUnlock_keeps : sysctrlUnlock.Accesses SameFreq := by
  simp only [sysctrlUnlock, Prog.put, Prog.act_bind, Prog.ret_bind, Prog.Accesses]
  exact ⟨fun s => ⟨rfl, rfl, rfl, rfl⟩, fun _ => ⟨fun s => ⟨rfl, rfl, rfl, rfl⟩, fun _ => trivial⟩⟩

/-- An enable bit of a clock source is neither the selection nor the divider. -/
theorem SameFreq.enable {f : BitField 32} (hclksw : Sysctrl0.clksw.Disjoint f)
    (hprs : Sysctrl0.hclkPrs.Disjoint f) (v : BitVec f.len) (s : Sysctrl) :
    SameFreq s { s with sysctrl0 := f.set v s.sysctrl0 } :=
  ⟨rfl, BitField.get_set_of_disjoint hclksw v s.sysctrl0,
    BitField.get_set_of_disjoint hprs v s.sysctrl0, rfl⟩

theorem clkSourceEnableSwitch_keeps (enSource : Nat) (bFlag : Bool) :
    (clkSourceEnableSwitch enSource bFlag).Accesses SameFreq := by
  have hwait (enSource : Nat) : (do
      waitStable enSource bFlag
      return SysctrlResult.ok : SysctrlProg SysctrlResult).Accesses SameFreq :=
    Prog.accesses_bind (waitStable_keeps enSource bFlag) fun _ => trivial
  unfold clkSourceEnableSwitch
  split <;> simp only [Prog.put, Prog.act_bind, Prog.ret_bind, Prog.Accesses, hwait, implies_true,
    and_true]
  case h_1 => exact SameFreq.enable (by decide) (by decide) _
  case h_2 => exact ⟨fun _ => ⟨rfl, rfl, rfl, rfl⟩, fun _ => ⟨fun _ => ⟨rfl, rfl, rfl, rfl⟩,
    fun _ => SameFreq.enable (by decide) (by decide) _⟩⟩
  case h_3 => exact SameFreq.enable (by decide) (by decide) _
  case h_4 => exact ⟨fun _ => ⟨rfl, rfl, rfl, rfl⟩, fun _ => ⟨fun _ => ⟨rfl, rfl, rfl, rfl⟩,
    fun _ => SameFreq.enable (by decide) (by decide) _⟩⟩
  case h_5 => exact ⟨fun _ => ⟨rfl, rfl, rfl, rfl⟩, fun _ => ⟨fun _ => ⟨rfl, rfl, rfl, rfl⟩,
    fun _ => SameFreq.enable (by decide) (by decide) _⟩⟩
  case h_6 => trivial

theorem sysctrlClkSourceEnable_keeps (enSource : Nat) (bFlag : Bool) (s : Sysctrl) :
    SameFreq s ((sysctrlClkSourceEnable enSource bFlag).exec s).2 := by
  refine Prog.exec_of_accesses ?_ SameFreq.refl SameFreq.trans s
  unfold sysctrlClkSourceEnable
  refine Prog.accesses_bind sysctrlUnlock_keeps fun _ => ?_
  refine Prog.accesses_bind (by simp [SameFreq.refl]) fun u32Temp => ?_
  refine Prog.accesses_bind (clkSourceEnableSwitch_keeps enSource bFlag) fun enRet => ?_
  simp only [Prog.put, Prog.act_bind, Prog.ret_bind, Prog.pure_eq, Prog.Accesses]
  exact ⟨fun _ => ⟨rfl, rfl, rfl, rfl⟩, fun _ => trivial⟩

theorem clkInitParameters_keeps (enClkSrc : Nat) (s : Sysctrl) :
    SameFreq s ((clkInitParameters enClkSrc).exec s).2 := by
  unfold clkInitParameters
  split <;> constructor <;>
    simp (disch := decide) [sysctrlXthDriverCfg, sysctrlSetXthStableTime, sysctrlSetRclStableTime,
      sysctrlXtlDriverCfg, sysctrlSetXtlStableTime, sysctrlSetPllStableTime, Sysctrl.freqInputs,
      BitField.get_set_of_disjoint]

/-! ## The frequencies that dividers tell apart -/

theorem rchFreq_ge (s : Sysctrl) : 4000000 ≤ rchFreq s := by
  simp only [rchFreq, rchFreqOf]
  repeat' split
  all_goals decide

/-- A source that runs at all is fast enough for all eight dividers to give different frequencies. -/
theorem sourceFreq_large (s : Sysctrl) (enSrc : Nat) :
    sourceFreq s enSrc = 0 ∨ 2 ^ 7 ≤ sourceFreq s enSrc := by
  have hrch := rchFreq_ge s
  unfold sourceFreq
  split
  case h_1 => right; omega
  case h_2 => right; decide
  case h_3 =>
      right
      unfold rclFreq
      split <;> decide
  case h_4 => right; decide
  case h_5 =>
      unfold pllFreq
      rcases Nat.eq_zero_or_pos (PllCr.divn.get s.pllCr).toNat with h0 | hpos
      · simp [h0]
      · right
        have hinput : 2 ^ 7 ≤ if PllCr.refsel.get s.pllCr = .ofNat _ sysctrlPllRch then rchFreq s
            else systemXth := by
          split
          · omega
          · decide
        exact hinput.trans (Nat.le_mul_of_pos_right _ hpos)
  case h_6 => left; rfl

theorem rchFreq_le (s : Sysctrl) : rchFreq s ≤ 24000000 := by
  simp only [rchFreq, rchFreqOf]
  repeat' split
  all_goals decide

/-- The frequency fits the 32 bits that `Sysctrl_GetHClkFreq` computes it in. -/
theorem sysctrlGetHClkFreq_lt (s : Sysctrl) : sysctrlGetHClkFreq s < 2 ^ 32 := by
  have hrch := rchFreq_le s
  have hdivn := (PllCr.divn.get s.pllCr).isLt
  have hpll : pllFreq s ≤ systemXth * 15 := by
    unfold pllFreq
    refine Nat.mul_le_mul ?_ (Nat.le_of_lt_succ hdivn)
    split
    · exact hrch.trans (by decide)
    · exact le_rfl
  have hsource (enSrc : Nat) : sourceFreq s enSrc ≤ systemXth * 15 := by
    unfold sourceFreq
    split
    case h_1 => exact hrch.trans (by decide)
    case h_3 =>
        unfold rclFreq
        split <;> decide
    case h_5 => exact hpll
    all_goals decide
  calc sysctrlGetHClkFreq s ≤ sourceFreq s _ := Nat.shiftRight_le _ _
    _ ≤ systemXth * 15 := hsource _
    _ < 2 ^ 32 := by decide

theorem shiftRight_lt {x a b : Nat} (hx : 2 ^ b ≤ x) (hab : a < b) : x >>> b < x >>> a := by
  have hpow : 2 ^ a ≤ x := (Nat.pow_le_pow_right (by decide) hab.le).trans hx
  have hpos : 0 < x >>> a := by
    rw [Nat.shiftRight_eq_div_pow]
    exact Nat.div_pos hpow (Nat.two_pow_pos a)
  calc x >>> b = (x >>> a) >>> (b - a) := by rw [← Nat.shiftRight_add, Nat.add_sub_cancel' hab.le]
    _ = (x >>> a) / 2 ^ (b - a) := Nat.shiftRight_eq_div_pow _ _
    _ < x >>> a := Nat.div_lt_self hpos (Nat.one_lt_two_pow (by omega))

theorem shiftRight_eq_iff {x : Nat} (hx : x = 0 ∨ 2 ^ 7 ≤ x) (a b : BitVec 3) :
    x >>> a.toNat = x >>> b.toNat ↔ a = b ∨ x = 0 := by
  have ha := a.isLt
  have hb := b.isLt
  rcases hx with rfl | hx
  · simp
  · have hlarge (c : Nat) (hc : c < 2 ^ 3) : 2 ^ c ≤ x :=
      (Nat.pow_le_pow_right (by decide) (by omega)).trans hx
    have hx0 : x ≠ 0 := by omega
    simp only [hx0, or_false]
    rcases Nat.lt_trichotomy a.toNat b.toNat with hlt | heq | hgt
    · have := shiftRight_lt (hlarge b.toNat hb) hlt
      grind
    · simp [BitVec.toNat_inj.mp heq]
    · have := shiftRight_lt (hlarge a.toNat ha) hgt
      grind

/-! ## The cache after a switch, and after the dividers -/

@[simp] theorem sysctrlSysClkSwitch_exec (enSource : Nat) (s : Sysctrl) :
    (sysctrlSysClkSwitch enSource).exec s = (.ok,
      let s' := { s with
        sysctrl2 := 0xA5A5
        sysctrl0 := Sysctrl0.clksw.set (.ofNat _ enSource) s.sysctrl0 }
      { s' with systemCoreClock := sysctrlGetHClkFreq s' }) := rfl

theorem sysctrlSysClkSwitch_clock (enSource : Nat) (s : Sysctrl) :
    ((sysctrlSysClkSwitch enSource).exec s).2.systemCoreClock =
      sysctrlGetHClkFreq ((sysctrlSysClkSwitch enSource).exec s).2 := rfl

theorem sysctrlSysClkSwitch_source {enSource : Nat} (h : enSource ≤ sysctrlClkPll) (s : Sysctrl) :
    sourceFreq ((sysctrlSysClkSwitch enSource).exec s).2
      (Sysctrl0.clksw.get ((sysctrlSysClkSwitch enSource).exec s).2.sysctrl0).toNat =
      sourceFreq s enSource := by
  have h8 : enSource % 2 ^ 3 = enSource := Nat.mod_eq_of_lt (by unfold sysctrlClkPll at h; omega)
  simp only [sysctrlSysClkSwitch_exec, BitField.get_set, BitVec.toNat_ofNat]
  rw [show enSource % 2 ^ Sysctrl0.clksw.len = enSource from h8]
  exact sourceFreq_congr rfl enSource

/-- The dividers as the last two steps of `Sysctrl_ClkInit` and `Sysctrl_ClkDeInit` store them. -/
theorem setDividers_clock {s : Sysctrl} (h : s.systemCoreClock = sysctrlGetHClkFreq s)
    (enHClkDiv enPClkDiv : Nat) :
    let s' := ((sysctrlSetPclkDiv enPClkDiv).exec ((sysctrlSetHclkDiv enHClkDiv).exec s).2).2
    s'.systemCoreClock = sysctrlGetHClkFreq s' ↔
      Sysctrl0.hclkPrs.get s.sysctrl0 = .ofNat _ enHClkDiv ∨
        sourceFreq s (Sysctrl0.clksw.get s.sysctrl0).toNat = 0 := by
  intro s'
  have hclksw : Sysctrl0.clksw.get s'.sysctrl0 = Sysctrl0.clksw.get s.sysctrl0 := by
    simp (disch := decide) [s', sysctrlSetPclkDiv, sysctrlSetHclkDiv, sysctrlUnlock,
      BitField.get_set_of_disjoint]
  have hprs : Sysctrl0.hclkPrs.get s'.sysctrl0 = .ofNat _ enHClkDiv := by
    simp (disch := decide) [s', sysctrlSetPclkDiv, sysctrlSetHclkDiv, sysctrlUnlock,
      BitField.get_set_of_disjoint]
  have hfreq : sysctrlGetHClkFreq s' =
      sourceFreq s (Sysctrl0.clksw.get s.sysctrl0).toNat >>> (BitVec.ofNat 3 enHClkDiv).toNat := by
    rw [sysctrlGetHClkFreq, hclksw, hprs, sourceFreq_congr (s := s) rfl]
    rfl
  have hclock : s'.systemCoreClock = sysctrlGetHClkFreq s := h
  rw [hclock, hfreq]
  exact shiftRight_eq_iff (sourceFreq_large s _) _ _

/-! ## Each call, and every sequence of calls -/

inductive SysctrlCall where
  | clkInit (cfg : ClkCfg)
  | clkDeInit
  | sysClkSwitch (enSource : Nat)
  | setRchTrim (enRchFreq : Nat)
  | setRclTrim (enRclFreq : Nat)
  | setPllFreq (cfg : PllCfg)
  | setHclkDiv (enHclkDiv : Nat)
  | setPclkDiv (enPclkDiv : Nat)

def SysctrlCall.body : SysctrlCall → SysctrlProg SysctrlResult
  | clkInit cfg => sysctrlClkInit cfg
  | clkDeInit => sysctrlClkDeInit
  | sysClkSwitch enSource => sysctrlSysClkSwitch enSource
  | setRchTrim enRchFreq => sysctrlSetRchTrim enRchFreq
  | setRclTrim enRclFreq => sysctrlSetRclTrim enRclFreq
  | setPllFreq cfg => sysctrlSetPllFreq cfg
  | setHclkDiv enHclkDiv => sysctrlSetHclkDiv enHclkDiv
  | setPclkDiv enPclkDiv => sysctrlSetPclkDiv enPclkDiv

def sysctrlStep (c : SysctrlCall) (s : Sysctrl) : Sysctrl := (c.body.exec s).2

/-- The calls that are to leave `SystemCoreClock` up to date. -/
def SysctrlCall.SwitchesClock : SysctrlCall → Prop
  | clkInit _ => True
  | clkDeInit => True
  | sysClkSwitch _ => True
  | _ => False

/-- What is to hold after a call made in `s` that ends in `s'`. -/
def SysctrlCall.ClockCurrent (c : SysctrlCall) (s s' : Sysctrl) : Prop :=
  c.SwitchesClock → (c.body.exec s).1 = .ok → s'.systemCoreClock = sysctrlGetHClkFreq s'

/-- The divider that is stored last is the one in force before, or it divides a frequency of 0. -/
def SysctrlCall.KeepsDivider (s : Sysctrl) : SysctrlCall → Prop
  | clkInit cfg => cfg.enClkSrc ≤ sysctrlClkPll →
      Sysctrl0.hclkPrs.get s.sysctrl0 = .ofNat _ cfg.enHClkDiv ∨ sourceFreq s cfg.enClkSrc = 0
  | clkDeInit => Sysctrl0.hclkPrs.get s.sysctrl0 = 0
  | _ => True

theorem clkInitParameters_ok (enClkSrc : Nat) (s : Sysctrl) :
    ((clkInitParameters enClkSrc).exec s).1 = .ok ↔ enClkSrc ≤ sysctrlClkPll := by
  unfold clkInitParameters
  split
  case h_6 hrch hxth hrcl hxtl hpll =>
      have hgt : ¬ enClkSrc ≤ sysctrlClkPll := by
        unfold sysctrlClkPll
        grind
      simp [hgt]
  all_goals simp [sysctrlClkPll, sysctrlXthDriverCfg, sysctrlSetXthStableTime,
    sysctrlSetRclStableTime, sysctrlXtlDriverCfg, sysctrlSetXtlStableTime, sysctrlSetPllStableTime]

theorem sysctrlClkInit_clock (cfg : ClkCfg) (s : Sysctrl) :
    (SysctrlCall.clkInit cfg).ClockCurrent s (sysctrlStep (.clkInit cfg) s) ↔
      (SysctrlCall.clkInit cfg).KeepsDivider s := by
  simp only [SysctrlCall.ClockCurrent, SysctrlCall.SwitchesClock, SysctrlCall.KeepsDivider,
    sysctrlStep, SysctrlCall.body, sysctrlClkInit, Prog.exec_bind, true_imp_iff, Prog.pure_eq,
    Prog.exec_ret, clkInitParameters_ok]
  refine imp_congr_right fun hsrc => ?_
  have hparameters := clkInitParameters_keeps cfg.enClkSrc s
  generalize ((clkInitParameters cfg.enClkSrc).exec s).2 = s1 at *
  have hsame := hparameters.trans (sysctrlClkSourceEnable_keeps cfg.enClkSrc true s1)
  generalize ((sysctrlClkSourceEnable cfg.enClkSrc true).exec s1).2 = s2 at *
  refine (setDividers_clock (sysctrlSysClkSwitch_clock cfg.enClkSrc s2) _ _).trans ?_
  rw [sysctrlSysClkSwitch_source hsrc, sourceFreq_congr hsame.inputs, ← hsame.hclkPrs]
  simp (disch := decide) only [sysctrlSysClkSwitch_exec, BitField.get_set_of_disjoint]

theorem sysctrlClkDeInit_clock (s : Sysctrl) :
    SysctrlCall.clkDeInit.ClockCurrent s (sysctrlStep .clkDeInit s) ↔
      SysctrlCall.clkDeInit.KeepsDivider s := by
  simp only [SysctrlCall.ClockCurrent, SysctrlCall.SwitchesClock, SysctrlCall.KeepsDivider,
    sysctrlStep, SysctrlCall.body, sysctrlClkDeInit, Prog.exec_bind, true_imp_iff, Prog.pure_eq,
    Prog.exec_ret]
  have htrim : ((sysctrlSetRchTrim sysctrlRchFreq4MHz).exec s).2.sysctrl0 = s.sysctrl0 := rfl
  generalize ((sysctrlSetRchTrim sysctrlRchFreq4MHz).exec s).2 = s1 at *
  have hrch := sysctrlClkSourceEnable_keeps sysctrlClkRch true s1
  generalize ((sysctrlClkSourceEnable sysctrlClkRch true).exec s1).2 = s2 at *
  have hswitch := sysctrlSysClkSwitch_clock sysctrlClkRch s2
  have hsource := sysctrlSysClkSwitch_source (show sysctrlClkRch ≤ sysctrlClkPll by decide) s2
  have hprs : Sysctrl0.hclkPrs.get ((sysctrlSysClkSwitch sysctrlClkRch).exec s2).2.sysctrl0 =
      Sysctrl0.hclkPrs.get s.sysctrl0 := by
    rw [← htrim, ← hrch.hclkPrs]
    simp (disch := decide) only [sysctrlSysClkSwitch_exec, BitField.get_set_of_disjoint]
  generalize ((sysctrlSysClkSwitch sysctrlClkRch).exec s2).2 = s3 at *
  -- the other four sources go off, which changes nothing that the frequency depends on
  have hoff : SameFreq s3 _ := (((sysctrlClkSourceEnable_keeps sysctrlClkXth false _).trans
    (sysctrlClkSourceEnable_keeps sysctrlClkRcl false _)).trans
    (sysctrlClkSourceEnable_keeps sysctrlClkXtl false _)).trans
    (sysctrlClkSourceEnable_keeps sysctrlClkPll false _)
  generalize ((sysctrlClkSourceEnable sysctrlClkPll false).exec _).2 = s7 at *
  refine (setDividers_clock (hoff.current hswitch) _ _).trans ?_
  have hrunning : sourceFreq s2 sysctrlClkRch ≠ 0 := by
    have := rchFreq_ge s2
    show rchFreq s2 ≠ 0
    omega
  rw [hoff.source, hsource, hoff.hclkPrs, hprs]
  simp only [hrunning, or_false]
  rfl

theorem sysctrlCall_clock (c : SysctrlCall) (s : Sysctrl) :
    c.ClockCurrent s (sysctrlStep c s) ↔ c.KeepsDivider s := by
  cases c with
  | clkInit cfg => exact sysctrlClkInit_clock cfg s
  | clkDeInit => exact sysctrlClkDeInit_clock s
  | sysClkSwitch enSource =>
      simp only [SysctrlCall.KeepsDivider, iff_true]
      exact fun _ _ => sysctrlSysClkSwitch_clock enSource s
  | _ => simp [SysctrlCall.ClockCurrent, SysctrlCall.SwitchesClock, SysctrlCall.KeepsDivider]

/-- **`SystemCoreClock` is up to date after every call that switches the clock, if and only if each
    of these calls stores the divider that was in force before it, or divides a frequency of 0.** -/
theorem core_clock_iff (calls : List SysctrlCall) (s : Sysctrl) :
    Calls.All sysctrlStep SysctrlCall.ClockCurrent calls s ↔
      Calls.All sysctrlStep (fun c s _ => c.KeepsDivider s) calls s :=
  Calls.all_congr (I := fun _ => True) (fun c s _ => sysctrlCall_clock c s)
    (fun _ _ _ _ => trivial) trivial

/-- An initialisation to RCH and HCLK divided by two leaves the undivided frequency in the cache. -/
theorem core_clock_fails :
    ¬ ∀ (calls : List SysctrlCall) (s : Sysctrl),
      Calls.All sysctrlStep SysctrlCall.ClockCurrent calls s := by
  have hreset : ¬ ∀ calls, Calls.All sysctrlStep SysctrlCall.ClockCurrent calls resetSysctrl := by
    apply Calls.not_forall_all
      (c := .clkInit { enClkSrc := sysctrlClkRch, enHClkDiv := 1, enPClkDiv := 0 })
    rw [sysctrlCall_clock]
    intro hkeeps
    rcases hkeeps (by decide) with hdiv | hfreq
    · exact absurd hdiv (by decide)
    · exact absurd hfreq (by decide)
  intro hall
  exact hreset fun calls => hall calls resetSysctrl

end Hc32
