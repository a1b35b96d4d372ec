import McuDrivers.Hc32.SysctrlClock

set_option autoImplicit false

/-! # HC32L13x: the clock that runs

`Sysctrl_ClkInit` enables a source and selects it, `Sysctrl_ClkDeInit` selects RCH before it disables
the others, so the selected source stays enabled. An invalid source is found out in the first step of
`Sysctrl_ClkInit` and selected all the same: that does no harm only where everything it stores is there
already. -/

namespace Hc32

/-! ## What is to hold -/

/-- The enable bit of a clock source. -/
def sourceEn (enSource : Nat) : Option (BitField 32) :=
  match enSource with
  | sysctrlClkRch => some Sysctrl0.rchEn
  | sysctrlClkXth => some Sysctrl0.xthEn
  | sysctrlClkRcl => some Sysctrl0.rclEn
  | sysctrlClkXtl => some Sysctrl0.xtlEn
  | sysctrlClkPll => some Sysctrl0.pllEn
  | _ => none

def Sysctrl.SourceEnabled (s : Sysctrl) (enSource : Nat) : Prop :=
  ∃ f, sourceEn enSource = some f ∧ (f.get s.sysctrl0).toNat = 1

/-- `CLKSW` names one of the five clock sources, and that source is enabled. -/
def Sysctrl.ClockRunning (s : Sysctrl) : Prop :=
  s.SourceEnabled (Sysctrl0.clksw.get s.sysctrl0).toNat

inductive InitCall where
  | clkInit (cfg : ClkCfg)
  | clkDeInit

def InitCall.body : InitCall → SysctrlProg SysctrlResult
  | clkInit cfg => sysctrlClkInit cfg
  | clkDeInit => sysctrlClkDeInit

def initStep (c : InitCall) (s : Sysctrl) : Sysctrl := (c.body.exec s).2

/-- `CLKSW`, the dividers and `SystemCoreClock` are as they were. -/
structure SameClock (s s' : Sysctrl) : Prop where
  clksw : Sysctrl0.clksw.get s'.sysctrl0 = Sysctrl0.clksw.get s.sysctrl0
  hclkPrs : Sysctrl0.hclkPrs.get s'.sysctrl0 = Sysctrl0.hclkPrs.get s.sysctrl0
  pclkPrs : Sysctrl0.pclkPrs.get s'.sysctrl0 = Sysctrl0.pclkPrs.get s.sysctrl0
  clock : s'.systemCoreClock = s.systemCoreClock

/-- What is to hold of a call made in `s` that ends in `s'`. -/
structure InitCall.KeepsRunning (c : InitCall) (s s' : Sysctrl) : Prop where
  running : s'.ClockRunning
  peripherals : s'.periClken = s.periClken
  refused : (c.body.exec s).1 = .errorInvalidParameter → SameClock s s'

/-- What the configuration asks for is there already, and `SystemCoreClock` is up to date. -/
structure ClkCfg.Present (cfg : ClkCfg) (s : Sysctrl) : Prop where
  clksw : Sysctrl0.clksw.get s.sysctrl0 = .ofNat _ cfg.enClkSrc
  hclkPrs : Sysctrl0.hclkPrs.get s.sysctrl0 = .ofNat _ cfg.enHClkDiv
  pclkPrs : Sysctrl0.pclkPrs.get s.sysctrl0 = .ofNat _ cfg.enPClkDiv
  clock : s.systemCoreClock = sysctrlGetHClkFreq s

/-- The source is one of the five, or nothing new is stored. -/
def InitCall.Harmless (s : Sysctrl) : InitCall → Prop
  | clkInit cfg => cfg.enClkSrc ≤ sysctrlClkPll ∨ cfg.Present s
  | clkDeInit => True

/-! ## What the steps store -/

theorem source_cases {enSource : Nat} (h : enSource ≤ sysctrlClkPll) :
    enSource = 0 ∨ enSource = 1 ∨ enSource = 2 ∨ enSource = 3 ∨ enSource = 4 := by
  unfold sysctrlClkPll at h
  omega

theorem sourceEn_isSome {enSource : Nat} (h : enSource ≤ sysctrlClkPll) :
    ∃ f, sourceEn enSource = some f := by
  rcases source_cases h with rfl | rfl | rfl | rfl | rfl <;> exact ⟨_, rfl⟩

theorem sourceEn_eq_none {enSource : Nat} (h : ¬ enSource ≤ sysctrlClkPll) :
    sourceEn enSource = none := by
  unfold sysctrlClkPll at h
  unfold sourceEn
  split
  case h_6 => rfl
  all_goals exact absurd (by decide) h

/-- An enable bit is one bit, apart from the selection and the dividers. -/
theorem sourceEn_disjoint {enSource : Nat} {f : BitField 32} (h : sourceEn enSource = some f) :
    f.len = 1 ∧ f.Disjoint Sysctrl0.clksw ∧ f.Disjoint Sysctrl0.hclkPrs ∧
      f.Disjoint Sysctrl0.pclkPrs := by
  unfold sourceEn at h
  split at h <;> cases h <;> decide

/-- `SYSCTRL0` after `Sysctrl_ClkSourceEnable`. -/
def enableStored (enSource : Nat) (bFlag : Bool) (r : BitVec 32) : BitVec 32 :=
  match sourceEn enSource with
  | some f => f.set (.ofNat _ bFlag.toNat) r
  | none => r

theorem sysctrlClkSourceEnable_stored (enSource : Nat) (bFlag : Bool) (s : Sysctrl) :
    ((sysctrlClkSourceEnable enSource bFlag).exec s).2.sysctrl0 =
        enableStored enSource bFlag s.sysctrl0 ∧
      ((sysctrlClkSourceEnable enSource bFlag).exec s).2.periClken = s.periClken := by
  by_cases h : enSource ≤ sysctrlClkPll
  · rcases source_cases h with rfl | rfl | rfl | rfl | rfl <;> cases bFlag <;> exact ⟨rfl, rfl⟩
  · rw [enableStored, sourceEn_eq_none h]
    unfold sysctrlClkSourceEnable clkSourceEnableSwitch
    split
    case h_6 => exact ⟨rfl, rfl⟩
    all_goals exact absurd (by decide) h

theorem clkInitParameters_stored (enClkSrc : Nat) (s : Sysctrl) :
    ((clkInitParameters enClkSrc).exec s).2.sysctrl0 = s.sysctrl0 ∧
      ((clkInitParameters enClkSrc).exec s).2.periClken = s.periClken := by
  unfold clkInitParameters
  split <;> exact ⟨rfl, rfl⟩

/-- An invalid source is noted, and nothing is done about it. -/
theorem clkInitParameters_invalid {enClkSrc : Nat} (h : ¬ enClkSrc ≤ sysctrlClkPll)
    (s : Sysctrl) : (clkInitParameters enClkSrc).exec s = (.errorInvalidParameter, s) := by
  unfold clkInitParameters
  split
  case h_6 => rfl
  all_goals exact absurd (by decide) h

/-- `SYSCTRL0` after the last three steps: the source is selected, and the dividers are stored. -/
def selected (src hclk pclk : Nat) (r : BitVec 32) : BitVec 32 :=
  Sysctrl0.pclkPrs.set (.ofNat _ pclk)
    (Sysctrl0.hclkPrs.set (.ofNat _ hclk) (Sysctrl0.clksw.set (.ofNat _ src) r))

theorem selected_clksw (src hclk pclk : Nat) (r : BitVec 32) :
    Sysctrl0.clksw.get (selected src hclk pclk r) = .ofNat _ src := by
  simp (disch := decide) [selected, BitField.get_set_of_disjoint]

theorem selected_enable {enSource : Nat} {f : BitField 32} (h : sourceEn enSource = some f)
    (src hclk pclk : Nat) (r : BitVec 32) : f.get (selected src hclk pclk r) = f.get r := by
  obtain ⟨-, hclksw, hhclk, hpclk⟩ := sourceEn_disjoint h
  rw [selected, BitField.get_set_of_disjoint hpclk, BitField.get_set_of_disjoint hhclk,
    BitField.get_set_of_disjoint hclksw]

/-- Selecting an enabled source leaves the clock running. -/
theorem running_of_selected {src hclk pclk : Nat} {r : BitVec 32} {s : Sysctrl} {f : BitField 32}
    (hsrc : src ≤ sysctrlClkPll) (hf : sourceEn src = some f) (hen : (f.get r).toNat = 1)
    (hs : s.sysctrl0 = selected src hclk pclk r) : s.ClockRunning := by
  have hlt : src % 2 ^ Sysctrl0.clksw.len = src := by
    refine Nat.mod_eq_of_lt (lt_of_le_of_lt hsrc ?_)
    decide
  rw [Sysctrl.ClockRunning, hs, selected_clksw, BitVec.toNat_ofNat, hlt]
  exact ⟨f, hf, by rw [hs, selected_enable hf, hen]⟩

/-! ## Sysctrl_ClkInit -/

theorem sysctrlClkInit_stored (cfg : ClkCfg) (s : Sysctrl) :
    (initStep (.clkInit cfg) s).sysctrl0 = selected cfg.enClkSrc cfg.enHClkDiv cfg.enPClkDiv
        (enableStored cfg.enClkSrc true s.sysctrl0) ∧
      (initStep (.clkInit cfg) s).periClken = s.periClken := by
  have hparameters := clkInitParameters_stored cfg.enClkSrc s
  simp only [initStep, InitCall.body, sysctrlClkInit, Prog.exec_bind, Prog.pure_eq, Prog.exec_ret]
  generalize ((clkInitParameters cfg.enClkSrc).exec s).2 = s1 at *
  have henable := sysctrlClkSourceEnable_stored cfg.enClkSrc true s1
  generalize ((sysctrlClkSourceEnable cfg.enClkSrc true).exec s1).2 = s2 at *
  rw [← hparameters.1, ← hparameters.2, ← henable.1, ← henable.2]
  exact ⟨rfl, rfl⟩

theorem sysctrlClkInit_running {cfg : ClkCfg} (h : cfg.enClkSrc ≤ sysctrlClkPll) (s : Sysctrl) :
    (initStep (.clkInit cfg) s).ClockRunning := by
  obtain ⟨f, hf⟩ := sourceEn_isSome h
  refine running_of_selected h hf ?_ (sysctrlClkInit_stored cfg s).1
  obtain ⟨hlen, -⟩ := sourceEn_disjoint hf
  rw [enableStored, hf]
  simp [hlen]

/-- A switch to the source that is selected already computes the frequency anew. -/
theorem sysctrlSysClkSwitch_again {src : Nat} {s s' : Sysctrl} (h : SameFreq s s')
    (hsrc : Sysctrl0.clksw.get s.sysctrl0 = .ofNat _ src) :
    ((sysctrlSysClkSwitch src).exec s').2.systemCoreClock = sysctrlGetHClkFreq s := by
  have hclksw : Sysctrl0.clksw.get ((sysctrlSysClkSwitch src).exec s').2.sysctrl0 =
      Sysctrl0.clksw.get s.sysctrl0 := by
    rw [hsrc, sysctrlSysClkSwitch_exec, BitField.get_set]
  have hprs : Sysctrl0.hclkPrs.get ((sysctrlSysClkSwitch src).exec s').2.sysctrl0 =
      Sysctrl0.hclkPrs.get s.sysctrl0 := by
    rw [← h.hclkPrs, sysctrlSysClkSwitch_exec, BitField.get_set_of_disjoint (by decide)]
  have hinputs : ((sysctrlSysClkSwitch src).exec s').2.freqInputs = s.freqInputs := h.inputs
  rw [sysctrlSysClkSwitch_clock, sysctrlGetHClkFreq, sysctrlGetHClkFreq, hclksw, hprs,
    sourceFreq_congr hinputs]

/-- With an invalid source the rest is done all the same. -/
theorem sysctrlClkInit_invalid {cfg : ClkCfg} (h : ¬ cfg.enClkSrc ≤ sysctrlClkPll)
    (s : Sysctrl) : SameClock s (initStep (.clkInit cfg) s) ↔ cfg.Present s := by
  have hstored := (sysctrlClkInit_stored cfg s).1
  rw [enableStored, sourceEn_eq_none h] at hstored
  have hhclk : Sysctrl0.hclkPrs.get (initStep (.clkInit cfg) s).sysctrl0 =
      .ofNat _ cfg.enHClkDiv := by
    rw [hstored]
    simp (disch := decide) [selected, BitField.get_set_of_disjoint]
  have hpclk : Sysctrl0.pclkPrs.get (initStep (.clkInit cfg) s).sysctrl0 =
      .ofNat _ cfg.enPClkDiv := by
    rw [hstored]
    simp [selected]
  have hclksw : Sysctrl0.clksw.get (initStep (.clkInit cfg) s).sysctrl0 =
      .ofNat _ cfg.enClkSrc := by
    rw [hstored, selected_clksw]
  have hsame := sysctrlClkSourceEnable_keeps cfg.enClkSrc true s
  have hclock : (initStep (.clkInit cfg) s).systemCoreClock =
      ((sysctrlSysClkSwitch cfg.enClkSrc).exec
        ((sysctrlClkSourceEnable cfg.enClkSrc true).exec s).2).2.systemCoreClock := by
    simp only [initStep, InitCall.body, sysctrlClkInit, Prog.exec_bind, Prog.pure_eq,
      Prog.exec_ret, clkInitParameters_invalid h]
    rfl
  constructor
  · rintro ⟨hsrc, hh, hp, hc⟩
    rw [hclksw] at hsrc
    rw [hclock, sysctrlSysClkSwitch_again hsame hsrc.symm] at hc
    exact ⟨hsrc.symm, hh.symm.trans hhclk, hp.symm.trans hpclk, hc.symm⟩
  · rintro ⟨hsrc, hh, hp, hc⟩
    refine ⟨hclksw.trans hsrc.symm, hhclk.trans hh.symm, hpclk.trans hp.symm, ?_⟩
    rw [hclock, sysctrlSysClkSwitch_again hsame hsrc, hc]

/-! ## Sysctrl_ClkDeInit -/

theorem sysctrlClkDeInit_stored (s : Sysctrl) :
    (initStep .clkDeInit s).sysctrl0 =
        Sysctrl0.pclkPrs.set 0 (Sysctrl0.hclkPrs.set 0 (enableStored sysctrlClkPll false
          (enableStored sysctrlClkXtl false (enableStored sysctrlClkRcl false
            (enableStored sysctrlClkXth false (Sysctrl0.clksw.set 0
              (enableStored sysctrlClkRch true s.sysctrl0))))))) ∧
      (initStep .clkDeInit s).periClken = s.periClken := by
  simp only [initStep, InitCall.body, sysctrlClkDeInit, Prog.exec_bind, Prog.pure_eq,
    Prog.exec_ret]
  have htrim : ((sysctrlSetRchTrim sysctrlRchFreq4MHz).exec s).2.sysctrl0 = s.sysctrl0 ∧
    ((sysctrlSetRchTrim sysctrlRchFreq4MHz).exec s).2.periClken = s.periClken := ⟨rfl, rfl⟩
  generalize ((sysctrlSetRchTrim sysctrlRchFreq4MHz).exec s).2 = s1 at *
  have hrch := sysctrlClkSourceEnable_stored sysctrlClkRch true s1
  generalize ((sysctrlClkSourceEnable sysctrlClkRch true).exec s1).2 = s2 at *
  have hswitch : ((sysctrlSysClkSwitch sysctrlClkRch).exec s2).2.sysctrl0 =
      Sysctrl0.clksw.set 0 s2.sysctrl0 ∧
    ((sysctrlSysClkSwitch sysctrlClkRch).exec s2).2.periClken = s2.periClken := ⟨rfl, rfl⟩
  generalize ((sysctrlSysClkSwitch sysctrlClkRch).exec s2).2 = s3 at *
  have hxth := sysctrlClkSourceEnable_stored sysctrlClkXth false s3
  generalize ((sysctrlClkSourceEnable sysctrlClkXth false).exec s3).2 = s4 at *
  have hrcl := sysctrlClkSourceEnable_stored sysctrlClkRcl false s4
  generalize ((sysctrlClkSourceEnable sysctrlClkRcl false).exec s4).2 = s5 at *
  have hxtl := sysctrlClkSourceEnable_stored sysctrlClkXtl false s5
  generalize ((sysctrlClkSourceEnable sysctrlClkXtl false).exec s5).2 = s6 at *
  have hpll := sysctrlClkSourceEnable_stored sysctrlClkPll false s6
  generalize ((sysctrlClkSourceEnable sysctrlClkPll false).exec s6).2 = s7 at *
  rw [← htrim.1, ← hrch.1, ← hswitch.1, ← hxth.1, ← hrcl.1, ← hxtl.1, ← hpll.1, ← htrim.2,
    ← hrch.2, ← hswitch.2, ← hxth.2, ← hrcl.2, ← hxtl.2, ← hpll.2]
  exact ⟨rfl, rfl⟩

theorem sysctrlClkDeInit_running (s : Sysctrl) : (initStep .clkDeInit s).ClockRunning := by
  have hstored : (initStep .clkDeInit s).sysctrl0 =
      Sysctrl0.pclkPrs.set 0 (Sysctrl0.hclkPrs.set 0 (Sysctrl0.pllEn.set 0 (Sysctrl0.xtlEn.set 0
        (Sysctrl0.rclEn.set 0 (Sysctrl0.xthEn.set 0 (Sysctrl0.clksw.set 0
          (Sysctrl0.rchEn.set 1 s.sysctrl0))))))) :=
    (sysctrlClkDeInit_stored s).1
  have hclksw : Sysctrl0.clksw.get (initStep .clkDeInit s).sysctrl0 = 0 := by
    rw [hstored]
    simp (disch := decide) [BitField.get_set_of_disjoint]
  have hrch : (Sysctrl0.rchEn.get (initStep .clkDeInit s).sysctrl0).toNat = 1 := by
    rw [hstored]
    simp (disch := decide) [BitField.get_set_of_disjoint, Sysctrl0.rchEn]
  rw [Sysctrl.ClockRunning, hclksw]
  exact ⟨Sysctrl0.rchEn, rfl, hrch⟩

/-! ## Every sequence of calls -/

theorem initCall_iff (c : InitCall) (s : Sysctrl) (hs : s.ClockRunning) :
    c.KeepsRunning s (initStep c s) ↔ c.Harmless s := by
  cases c with
  | clkDeInit =>
      refine iff_of_true ⟨sysctrlClkDeInit_running s, (sysctrlClkDeInit_stored s).2, ?_⟩ trivial
      intro hrefused
      simp only [InitCall.body, sysctrlClkDeInit, Prog.exec_bind, Prog.pure_eq,
        Prog.exec_ret] at hrefused
      cases hrefused
  | clkInit cfg =>
      have hresult : ((InitCall.clkInit cfg).body.exec s).1 =
          ((clkInitParameters cfg.enClkSrc).exec s).1 := by
        simp only [InitCall.body, sysctrlClkInit, Prog.exec_bind, Prog.pure_eq, Prog.exec_ret]
      by_cases h : cfg.enClkSrc ≤ sysctrlClkPll
      · refine iff_of_true
          ⟨sysctrlClkInit_running h s, (sysctrlClkInit_stored cfg s).2, ?_⟩ (.inl h)
        rw [hresult, (clkInitParameters_ok _ s).mpr h]
        intro hrefused
        cases hrefused
      · have hrefused : ((InitCall.clkInit cfg).body.exec s).1 = .errorInvalidParameter := by
          rw [hresult, clkInitParameters_invalid h]
        simp only [InitCall.Harmless, h, false_or]
        rw [← sysctrlClkInit_invalid h]
        constructor
        · exact fun hkeeps => hkeeps.refused hrefused
        · intro hsame
          refine ⟨?_, (sysctrlClkInit_stored cfg s).2, fun _ => hsame⟩
          -- the source that was selected is selected still, and no enable bit has changed
          have hstored := (sysctrlClkInit_stored cfg s).1
          rw [enableStored, sourceEn_eq_none h] at hstored
          obtain ⟨f, hf, hen⟩ := hs
          rw [Sysctrl.ClockRunning, hsame.clksw]
          exact ⟨f, hf, by rw [hstored, selected_enable hf, hen]⟩

/-- **From a state whose selected clock is enabled, every call of a sequence keeps a running clock and the
    peripheral clocks, and changes nothing when it refuses, if and only if each call has a valid source or
    stores nothing new.** -/
theorem clock_running_iff (calls : List InitCall) {s : Sysctrl} (hs : s.ClockRunning) :
    Calls.All initStep InitCall.KeepsRunning calls s ↔
      Calls.All initStep (fun c s _ => c.Harmless s) calls s :=
  Calls.all_congr initCall_iff (fun _ _ _ hkeeps => hkeeps.running) hs

theorem resetSysctrl_running : resetSysctrl.ClockRunning := ⟨Sysctrl0.rchEn, rfl, rfl⟩

/-- The clock is initialised to PLL, and taken back to RCH. -/
theorem clock_running_pll :
    Calls.All initStep InitCall.KeepsRunning
      [.clkInit ⟨sysctrlClkPll, 1, 0⟩, .clkDeInit] resetSysctrl :=
  (clock_running_iff _ resetSysctrl_running).mpr ⟨.inl (by decide), trivial, trivial⟩

/-- An initialisation to a source that there is not selects it. -/
theorem clock_running_fails :
    ¬ ∀ (calls : List InitCall) (s : Sysctrl), s.ClockRunning →
      Calls.All initStep InitCall.KeepsRunning calls s := by
  intro hall
  have hreset : ¬ ∀ calls, Calls.All initStep InitCall.KeepsRunning calls resetSysctrl := by
    refine Calls.not_forall_all (c := .clkInit ⟨5, 0, 0⟩) ?_
    rw [initCall_iff _ _ resetSysctrl_running]
    rintro (hvalid | hpresent)
    · exact absurd hvalid (by decide)
    · exact absurd hpresent.clksw (by decide)
  exact hreset fun calls => hall calls resetSysctrl resetSysctrl_running

end Hc32
