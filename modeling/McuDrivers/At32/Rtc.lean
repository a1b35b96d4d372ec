import Mathlib.Logic.Function.Basic
import McuDrivers.At32.Flash
import McuDrivers.Library.EventReg

set_option autoImplicit false

/-! # AT32F4xx: real-time clock of the F403 and F413

The functions of `at32f4xx_rtc.c` that write registers. All of them but `RTC_INTConfig` change `CTRLL`,
which holds the configuration mode bit next to three event flags, by reading it, editing what they
read and storing it back. -/

namespace At32

/-! ## Constants -/

def rtcLsbMask : Word := 0x0000FFFF
def divhMsbMask : Word := 0x000F0000

def rtcFlagPace : BitVec 16 := 0x0001
def rtcFlagAla : BitVec 16 := 0x0002
def rtcFlagOv : BitVec 16 := 0x0004
def rtcFlagRsynf : BitVec 16 := 0x0008
def rtcCtrllCmf : BitVec 16 := 0x0010
def rtcFlagRtf : BitVec 16 := 0x0020

/-- `OV`, `ALA` and `PACE`. -/
def rtcEvents : BitVec 16 := rtcFlagOv ||| rtcFlagAla ||| rtcFlagPace

/-! ## State -/

/-- The registers besides `CTRLL`. -/
inductive RtcReg where
  | ctrlh
  | divh
  | divl
  | divcnth
  | divcntl
  | cnth
  | cntl
  | alah
  | alal
  deriving DecidableEq

structure Rtc where
  ctrll : BitVec 16
  regs : RtcReg → BitVec 16
  /-- of a value of `CTRLL` that was read and is to be stored back, the bits stored as they were read -/
  pending : Option (BitVec 16)

abbrev RtcProg := Prog Rtc

/-- `CTRLL = v`. A 0 clears an event flag and `RSYNF`, a 1 leaves them; `RTF` is the hardware's. -/
def Rtc.storeCtrll (v : BitVec 16) (s : Rtc) : Rtc :=
  { s with
    ctrll := (s.ctrll &&& v &&& (rtcEvents ||| rtcFlagRsynf)) ||| (s.ctrll &&& rtcFlagRtf) |||
      (v &&& rtcCtrllCmf)
    pending := none }

theorem Rtc.storeCtrll_event (v : BitVec 16) (s : Rtc) {i : Nat}
    (hi : rtcEvents.getLsbD i = true) :
    (s.storeCtrll v).ctrll.getLsbD i = (s.ctrll.getLsbD i && v.getLsbD i) := by
  have hrtf : (rtcFlagRtf &&& rtcEvents).getLsbD i = false := by
    rw [show rtcFlagRtf &&& rtcEvents = 0#16 by decide, BitVec.getLsbD_zero]
  have hcmf : (rtcCtrllCmf &&& rtcEvents).getLsbD i = false := by
    rw [show rtcCtrllCmf &&& rtcEvents = 0#16 by decide, BitVec.getLsbD_zero]
  rw [BitVec.getLsbD_and, hi, Bool.and_true] at hrtf hcmf
  simp [Rtc.storeCtrll, hi, hrtf, hcmf]

/-- `CTRLL` as a register with event flags. -/
def rtcCtrll : EventReg Rtc 16 where
  flags := rtcEvents
  val := Rtc.ctrll
  pending := Rtc.pending
  hold m s := { s with pending := m }
  store := Rtc.storeCtrll
  val_hold _ _ := rfl
  pending_hold _ _ := rfl
  pending_store _ _ := rfl
  flag_store v s _ hi := s.storeCtrll_event v hi

/-- `CTRLL &= mask` -/
def ctrllAnd (mask : BitVec 16) : RtcProg Unit := rtcCtrll.change mask 0

/-- `CTRLL |= bits` -/
def ctrllOr (bits : BitVec 16) : RtcProg Unit := rtcCtrll.change (BitVec.allOnes 16) bits

def readCtrll : RtcProg (BitVec 16) := .get Rtc.ctrll

def readRtc (r : RtcReg) : RtcProg (BitVec 16) := .get fun s => s.regs r

def writeRtc (r : RtcReg) (v : BitVec 16) : RtcProg Unit :=
  .put fun s => { s with regs := Function.update s.regs r v }

/-- `while ((CTRLL & flag) == RESET) {}`, of which `polls` rounds are looked at. -/
def waitCtrll (flag : BitVec 16) : (polls : Nat) → RtcProg Unit
  | 0 => return
  | polls + 1 => do
      let v ← readCtrll
      if v &&& flag = 0 then waitCtrll flag polls else return

/-! ## Flags -/

def rtcGetFlagStatus (flag : BitVec 16) : RtcProg Bool := do
  let v ← readCtrll
  return v &&& flag ≠ 0

def rtcClearFlag (flag : BitVec 16) : RtcProg Unit := ctrllAnd (~~~flag)

def rtcGetIntStatus (int : BitVec 16) : RtcProg Bool := do
  let v ← readCtrll
  let ie ← readRtc .ctrlh
  return ie &&& int ≠ 0 ∧ v &&& int ≠ 0

def rtcClearIntPendingBit (int : BitVec 16) : RtcProg Unit := ctrllAnd (~~~int)

def rtcIntConfig (int : BitVec 16) (newState : Bool) : RtcProg Unit := do
  let ie ← readRtc .ctrlh
  writeRtc .ctrlh (if newState then ie ||| int else ie &&& ~~~int)

/-! ## Configuration -/

def rtcWaitForLastTask (polls : Nat) : RtcProg Unit := waitCtrll rtcFlagRtf polls

def rtcWaitForSynchro (polls : Nat) : RtcProg Unit := do
  ctrllAnd (~~~rtcFlagRsynf)
  waitCtrll rtcFlagRsynf polls

def rtcEnterConfigMode : RtcProg Unit := ctrllOr rtcCtrllCmf

def rtcExitConfigMode : RtcProg Unit := ctrllAnd (~~~rtcCtrllCmf)

/-- A pair of registers is written in configuration mode, the high half first. -/
def setInConfigMode (high low : RtcReg) (h l : Word) : RtcProg Unit := do
  rtcEnterConfigMode
  writeRtc high (h.setWidth 16)
  writeRtc low (l.setWidth 16)
  rtcExitConfigMode

def rtcSetCounter (counterValue : Word) : RtcProg Unit :=
  setInConfigMode .cnth .cntl (counterValue >>> 16) (counterValue &&& rtcLsbMask)

def rtcSetDiv (prescalerValue : Word) : RtcProg Unit :=
  setInConfigMode .divh .divl ((prescalerValue &&& divhMsbMask) >>> 16)
    (prescalerValue &&& rtcLsbMask)

def rtcSetAlarmValue (alarmValue : Word) : RtcProg Unit :=
  setInConfigMode .alah .alal (alarmValue >>> 16) (alarmValue &&& rtcLsbMask)

end At32
