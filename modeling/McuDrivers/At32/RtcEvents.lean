import McuDrivers.At32.Rtc

set_option autoImplicit false

/-! # AT32F4xx: event flags while the RTC is configured

`CTRLL &= mask` and `CTRLL |= bits` store the event flags as they were read. A flag that the hardware
sets between the read and the store is stored as 0, in each of the functions. In runs in which none
comes there, a flag goes only when it is named. -/

namespace At32

/-! ## The hardware -/

/-- Event flags are set, and `RSYNF` and `RTF` are what the hardware says. -/
def Rtc.raise (e status : BitVec 16) (s : Rtc) : Rtc :=
  { s with
    ctrll := (s.ctrll &&& ~~~(rtcFlagRsynf ||| rtcFlagRtf)) |||
      (status &&& (rtcFlagRsynf ||| rtcFlagRtf)) ||| (e &&& rtcEvents) }

def RtcRaises (s s' : Rtc) : Prop := ∃ e status, s' = s.raise e status

theorem rtcRaises_raising : rtcCtrll.Raising RtcRaises := by
  rintro s s' ⟨e, status, rfl⟩
  refine ⟨rfl, fun i hi => ⟨hi.1, ?_⟩⟩
  have hflag : rtcEvents.getLsbD i = true := hi.1
  have hval : s.ctrll.getLsbD i = true := hi.2
  have hlt : i < 16 := BitVec.lt_of_getLsbD hval
  have hother : ((rtcFlagRsynf ||| rtcFlagRtf) &&& rtcEvents).getLsbD i = false := by
    rw [show (rtcFlagRsynf ||| rtcFlagRtf) &&& rtcEvents = 0#16 by decide, BitVec.getLsbD_zero]
  rw [BitVec.getLsbD_and, hflag, Bool.and_true] at hother
  have hkept : (s.ctrll &&& ~~~(rtcFlagRsynf ||| rtcFlagRtf)).getLsbD i = true := by
    rw [BitVec.getLsbD_and, BitVec.getLsbD_not, hval, hother]
    simp [hlt]
  change (s.raise e status).ctrll.getLsbD i = true
  rw [Rtc.raise, BitVec.getLsbD_or, BitVec.getLsbD_or, hkept]
  rfl

/-! ## The calls -/

/-- The functions that write registers. -/
inductive RtcCall where
  | clearFlag (flag : BitVec 16)
  | clearIntPendingBit (int : BitVec 16)
  | intConfig (int : BitVec 16) (newState : Bool)
  | waitForLastTask (polls : Nat)
  | waitForSynchro (polls : Nat)
  | enterConfigMode
  | exitConfigMode
  | setCounter (counterValue : Word)
  | setDiv (prescalerValue : Word)
  | setAlarmValue (alarmValue : Word)

def RtcCall.body : RtcCall → RtcProg Unit
  | clearFlag flag => rtcClearFlag flag
  | clearIntPendingBit int => rtcClearIntPendingBit int
  | intConfig int newState => rtcIntConfig int newState
  | waitForLastTask polls => rtcWaitForLastTask polls
  | waitForSynchro polls => rtcWaitForSynchro polls
  | enterConfigMode => rtcEnterConfigMode
  | exitConfigMode => rtcExitConfigMode
  | setCounter counterValue => rtcSetCounter counterValue
  | setDiv prescalerValue => rtcSetDiv prescalerValue
  | setAlarmValue alarmValue => rtcSetAlarmValue alarmValue

/-- The flags that a call is told to clear. -/
def RtcCall.named : RtcCall → BitVec 16
  | clearFlag flag => flag
  | clearIntPendingBit int => int
  | _ => 0

def rtcSystem (hw : Rtc → Rtc → Prop) : System Rtc RtcCall Unit := ⟨hw, RtcCall.body⟩

/-! ## What each function clears -/

variable {A : Rtc → Rtc → Prop} {m : BitVec 16}

/-- `p` clears only the flags of `m`. -/
abbrev RtcSafe (A : Rtc → Rtc → Prop) (m : BitVec 16) (p : RtcProg Unit) : Prop :=
  rtcCtrll.Safe RtcRaises A m p

theorem writeRtc_safe (r : RtcReg) (v : BitVec 16) : RtcSafe A m (writeRtc r v) :=
  EventReg.safe_of_calm rtcRaises_raising
    ((Prog.accesses_put _ _).mpr fun _ => .of_eq rfl rfl)

theorem readCtrll_calm : readCtrll.Accesses rtcCtrll.Calm :=
  (Prog.accesses_get _ _).mpr fun _ => .of_eq rfl rfl

theorem readRtc_calm (r : RtcReg) : (readRtc r).Accesses rtcCtrll.Calm :=
  (Prog.accesses_get _ _).mpr fun _ => .of_eq rfl rfl

/-- To ask for a flag takes no event. -/
theorem rtcGetFlagStatus_calm (flag : BitVec 16) : (rtcGetFlagStatus flag).Accesses rtcCtrll.Calm :=
  Prog.accesses_bind readCtrll_calm fun _ => trivial

theorem rtcGetIntStatus_calm (int : BitVec 16) : (rtcGetIntStatus int).Accesses rtcCtrll.Calm :=
  Prog.accesses_bind readCtrll_calm fun _ => Prog.accesses_bind (readRtc_calm _) fun _ => trivial

theorem waitCtrll_calm (flag : BitVec 16) (polls : Nat) :
    (waitCtrll flag polls).Accesses rtcCtrll.Calm := by
  induction polls with
  | zero => trivial
  | succ polls ih =>
      refine Prog.accesses_bind readCtrll_calm fun v => ?_
      split
      · exact ih
      · trivial

/-- Whatever the mask leaves out is cleared, and of the events only that. -/
theorem ctrllAnd_safe {mask : BitVec 16} (hmask : ~~~mask &&& rtcEvents &&& ~~~m = 0) :
    RtcSafe A m (ctrllAnd mask) := by
  refine EventReg.safe_change rtcRaises_raising fun i hflag hkeep => ?_
  have hev : rtcEvents.getLsbD i = true := hflag
  have hlt : i < 16 := BitVec.lt_of_getLsbD hflag
  have hbit := congrArg (·.getLsbD i) hmask
  simp only [BitVec.getLsbD_and, BitVec.getLsbD_not, hev, hkeep, hlt, decide_true, Bool.not_false,
    Bool.true_and, BitVec.ofNat_eq_ofNat, BitVec.getLsbD_zero] at hbit
  simpa using hbit

theorem ctrllOr_safe (bits : BitVec 16) : RtcSafe A m (ctrllOr bits) := by
  refine EventReg.safe_change rtcRaises_raising fun i hflag hkeep => ?_
  have hlt : i < 16 := BitVec.lt_of_getLsbD hflag
  rw [BitVec.getLsbD_allOnes, decide_eq_false_iff_not] at hkeep
  exact absurd hlt hkeep

theorem clearCtrll_safe (flag : BitVec 16) : RtcSafe A flag (ctrllAnd (~~~flag)) := by
  refine ctrllAnd_safe ?_
  rw [BitVec.not_not, BitVec.and_comm flag, BitVec.and_assoc, BitVec.and_not_self]
  exact BitVec.and_zero

theorem rtcExitConfigMode_safe : RtcSafe A 0 rtcExitConfigMode := ctrllAnd_safe (by decide)

theorem setInConfigMode_safe (high low : RtcReg) (h l : Word) :
    RtcSafe A 0 (setInConfigMode high low h l) :=
  EventReg.safe_bind (ctrllOr_safe _) fun _ => EventReg.safe_bind (writeRtc_safe _ _) fun _ =>
    EventReg.safe_bind (writeRtc_safe _ _) fun _ => rtcExitConfigMode_safe

theorem rtcIntConfig_safe (int : BitVec 16) (newState : Bool) :
    RtcSafe A 0 (rtcIntConfig int newState) :=
  EventReg.safe_bind (EventReg.safe_of_calm rtcRaises_raising (readRtc_calm _)) fun _ =>
    writeRtc_safe _ _

theorem rtcWaitForSynchro_safe (polls : Nat) : RtcSafe A 0 (rtcWaitForSynchro polls) :=
  EventReg.safe_bind (ctrllAnd_safe (by decide)) fun _ =>
    EventReg.safe_of_calm rtcRaises_raising (waitCtrll_calm _ polls)

theorem RtcCall.body_safe (k : RtcCall) : RtcSafe A k.named k.body := by
  cases k with
  | clearFlag flag => exact clearCtrll_safe flag
  | clearIntPendingBit int => exact clearCtrll_safe int
  | intConfig int newState => exact rtcIntConfig_safe int newState
  | waitForLastTask polls =>
      exact EventReg.safe_of_calm rtcRaises_raising (waitCtrll_calm _ polls)
  | waitForSynchro polls => exact rtcWaitForSynchro_safe polls
  | enterConfigMode => exact ctrllOr_safe _
  | exitConfigMode => exact rtcExitConfigMode_safe
  | setCounter counterValue => exact setInConfigMode_safe _ _ _ _
  | setDiv prescalerValue => exact setInConfigMode_safe _ _ _ _
  | setAlarmValue alarmValue => exact setInConfigMode_safe _ _ _ _

/-! ## Runs -/

/-- In every run from `s` an event flag goes from 1 to 0 only in an access of a `RTC_ClearFlag` or
    `RTC_ClearINTPendingBit` that names it. -/
def NoRtcEventLost (hw : Rtc → Rtc → Prop) (s : Rtc) : Prop :=
  rtcCtrll.NoneLost RtcCall.named (rtcSystem hw) .any s

/-- **No event is lost in the runs in which none comes between the read and the store of a change of
    `CTRLL` that keeps it.** -/
theorem rtc_event_kept (s : Rtc) : NoRtcEventLost (rtcCtrll.Outside RtcRaises) s :=
  EventReg.none_lost rtcRaises_raising RtcCall.body_safe s

/-- The alarm comes when `RTC_EnterConfigMode` has read `CTRLL` and not yet stored it. -/
theorem rtc_event_lost : ¬ ∀ s, NoRtcEventLost RtcRaises s := by
  intro h
  let s : Rtc := { ctrll := 0, regs := fun _ => 0, pending := none }
  let read : Rtc := { s with pending := some (BitVec.allOnes 16) }
  let rest : RtcProg Unit :=
    .put (Rtc.storeCtrll ((s.ctrll &&& BitVec.allOnes 16) ||| rtcCtrllCmf))
  have hbody : (rtcSystem RtcRaises).body .enterConfigMode =
      .act (rtcCtrll.hold (some (BitVec.allOnes 16)))
        fun s => .put (Rtc.storeCtrll ((s.ctrll &&& BitVec.allOnes 16) ||| rtcCtrllCmf)) := rfl
  have hread : (rtcSystem RtcRaises).Step .any (.start (rtcCtrll.hold none s))
      ⟨read, some (.enterConfigMode, rest), []⟩ :=
    .access (.first hbody trivial trivial)
  have halarm : (rtcSystem RtcRaises).Step .any ⟨read, some (.enterConfigMode, rest), []⟩
      ⟨read.raise rtcFlagAla 0, some (.enterConfigMode, rest), []⟩ :=
    .hw ⟨rtcFlagAla, 0, rfl⟩
  have hset : rtcCtrll.Has (read.raise rtcFlagAla 0) 1 := ⟨by decide, by decide⟩
  have hclear : ¬ rtcCtrll.Has s 1 := fun hs => by
    have hbit : (0 : BitVec 16).getLsbD 1 = true := hs.2
    simp at hbit
  exact EventReg.not_noneLost (.tail (.single hread) halarm) hset hclear (by decide) (by decide) (h s)

end At32
