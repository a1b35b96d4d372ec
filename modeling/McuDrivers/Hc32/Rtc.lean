import Mathlib.Logic.Function.Basic
import McuDrivers.Hc32.Flash
import McuDrivers.Library.BitField
import McuDrivers.Library.EventReg
import McuDrivers.Library.History

set_option autoImplicit false

/-! # HC32L13x: real-time clock

The functions of `rtc.c` that read or write registers. `CR1` holds the request for access to the
calendar (`WAIT`), the answer to it (`WAITF`), two event flags, and the settings of the alarm; every
change of it reads the register, edits one field and stores it back. What `WAITF` reads as at each poll
is `Rtc.waitf`. -/

namespace Hc32

/-! ## Registers -/

inductive RtcReg where
  | cr0
  | cr1
  | sec
  | min
  | hour
  | week
  | day
  | mon
  | year
  | almmin
  | almhour
  | almweek
  | compen
  deriving DecidableEq

/-- The bits that a register has. -/
def RtcReg.mask : RtcReg → Word
  | cr0 | cr1 | compen => 0xFFFFFFFF
  | sec | min | almmin | almweek => 0x7F
  | hour | day | almhour => 0x3F
  | week => 0x07
  | mon => 0x1F
  | year => 0xFF

/-- The registers that count time. -/
def RtcReg.calendar : RtcReg → Bool
  | sec | min | hour | week | day | mon | year => true
  | _ => false

namespace RtcCr0

def prds : BitField 32 := ⟨0, 3, by decide⟩
def ampm : BitField 32 := .bit 3 (by decide)
def hz1oe : BitField 32 := .bit 5 (by decide)
def hz1sel : BitField 32 := .bit 6 (by decide)
def start : BitField 32 := .bit 7 (by decide)
def prdx : BitField 32 := ⟨8, 6, by decide⟩
def prdsel : BitField 32 := .bit 14 (by decide)

end RtcCr0

namespace RtcCr1

def wait : Word := 0x001
def waitf : Word := 0x002
/-- `PRDF` and `ALMF`. -/
def events : Word := 0x018
def cksel : Word := 0x700

end RtcCr1

namespace RtcCompen

def cr : BitField 32 := ⟨0, 9, by decide⟩
def en : BitField 32 := .bit 15 (by decide)

end RtcCompen

def prdselPrds : Word := 0
def prdselPrdx : Word := 1

/-- 12-hour mode. -/
def rtcAm : Nat := 0

/-- 24-hour mode. -/
def rtcPm : Nat := 1

/-- `START` of a value of `CR0`. -/
def startOf (cr0 : Word) : Nat := (RtcCr0.start.get cr0).toNat

/-- `AMPM` of a value of `CR0`. -/
def ampmOf (cr0 : Word) : Nat := (RtcCr0.ampm.get cr0).toNat

/-! ## State -/

/-- A register that was read or written, or a poll of `WAITF` with what it saw. -/
inductive RtcEvent where
  | read (r : RtcReg)
  | write (r : RtcReg)
  | poll (seen : Bool)
  deriving DecidableEq

structure Rtc where
  regs : RtcReg → Word
  /-- of a value of `CR1` that was read and is to be stored back, the bits stored as they were read -/
  pending : Option Word
  /-- what `WAITF` reads as, poll by poll -/
  waitf : Nat → Bool
  polls : Nat
  /-- what was done, newest first -/
  log : List RtcEvent

/-- The state of the registers, with nothing recorded yet. -/
def Rtc.fresh (s : Rtc) : Rtc := { s with log := [] }

abbrev RtcProg := Prog Rtc

/-- The values of `en_result_t` that the functions return. -/
inductive RtcResult where
  | ok
  | error
  | errorInvalidParameter
  | errorTimeout
  deriving DecidableEq

/-- `CR1 = v`. A 0 clears an event flag, a 1 leaves it; `WAITF` is the hardware's. -/
def cr1Stored (old v : Word) : Word :=
  (old &&& v &&& RtcCr1.events) ||| (old &&& RtcCr1.waitf) |||
    (v &&& ~~~(RtcCr1.events ||| RtcCr1.waitf))

def Rtc.storeCr1 (v : Word) (s : Rtc) : Rtc :=
  { s with
    regs := Function.update s.regs .cr1 (cr1Stored (s.regs .cr1) v)
    pending := none
    log := .write .cr1 :: s.log }

@[simp] theorem Rtc.storeCr1_cr1 (v : Word) (s : Rtc) :
    (s.storeCr1 v).regs .cr1 = cr1Stored (s.regs .cr1) v := by
  simp [Rtc.storeCr1]

theorem Rtc.storeCr1_of_ne {r : RtcReg} (hr : r ≠ .cr1) (v : Word) (s : Rtc) :
    (s.storeCr1 v).regs r = s.regs r := by
  simp [Rtc.storeCr1, hr]

theorem cr1Stored_event (old v : Word) {i : Nat} (hi : RtcCr1.events.getLsbD i = true) :
    (cr1Stored old v).getLsbD i = (old.getLsbD i && v.getLsbD i) := by
  have hlt : i < 32 := BitVec.lt_of_getLsbD hi
  have hwaitf : (RtcCr1.waitf &&& RtcCr1.events).getLsbD i = false := by
    rw [show RtcCr1.waitf &&& RtcCr1.events = 0#32 by decide, BitVec.getLsbD_zero]
  rw [BitVec.getLsbD_and, hi, Bool.and_true] at hwaitf
  simp only [cr1Stored, BitVec.getLsbD_or, BitVec.getLsbD_and, BitVec.getLsbD_not, hi, hwaitf]
  simp

/-- `CR1` as a register with event flags. -/
def rtcCr1 : EventReg Rtc 32 where
  flags := RtcCr1.events
  val s := s.regs .cr1
  pending := Rtc.pending
  hold m s := { s with pending := m }
  store := Rtc.storeCr1
  val_hold _ _ := rfl
  pending_hold _ _ := rfl
  pending_store _ _ := rfl
  flag_store v s i hi := by
    rw [Rtc.storeCr1_cr1]
    exact cr1Stored_event _ v hi

def readReg (r : RtcReg) : RtcProg Word :=
  .act (fun s => { s with log := .read r :: s.log }) fun s => .ret (s.regs r)

def writeReg (r : RtcReg) (v : Word) : RtcProg Unit :=
  .put fun s => { s with
    regs := Function.update s.regs r (v &&& r.mask)
    log := .write r :: s.log }

/-- A byte as it is written to a register. -/
def writeByte (r : RtcReg) (v : BitVec 8) : RtcProg Unit := writeReg r (v.setWidth 32)

/-- A register as it is read into a byte. -/
def readByte (r : RtcReg) : RtcProg (BitVec 8) := do
  let v ← readReg r
  return v.setWidth 8

/-- `r.field = v`: what is stored has the width of the field. -/
def writeField {n : Nat} (r : RtcReg) (field : BitField 32) (v : BitVec n) : RtcProg Unit := do
  let old ← readReg r
  writeReg r (field.set (v.setWidth field.len) old)

/-- `SetBit(&CR1, offset, bFlag)` -/
def setBit (offset : Nat) (bFlag : Bool) : RtcProg Unit :=
  if bFlag then rtcCr1.change (BitVec.allOnes 32) ((1 : Word) <<< offset)
  else rtcCr1.change (~~~((1 : Word) <<< offset)) 0

/-- `CR1_f.WAIT = v` -/
def writeWait (v : Bool) : RtcProg Unit :=
  rtcCr1.change (~~~RtcCr1.wait) (if v then RtcCr1.wait else 0)

def Rtc.afterPoll (s : Rtc) : Rtc :=
  { s with polls := s.polls + 1, log := .poll (s.waitf s.polls) :: s.log }

/-- `CR1_f.WAITF` -/
def readWaitf : RtcProg Bool := .act Rtc.afterPoll fun s => .ret (s.waitf s.polls)

/-! ## Control -/

def rtcCmd (newState : Bool) : RtcProg Unit :=
  writeField .cr0 RtcCr0.start (BitVec.ofBool newState)

def rtcHz1Cmd (pricision newState : Bool) : RtcProg Unit := do
  writeField .cr0 RtcCr0.hz1sel (BitVec.ofBool pricision)
  writeField .cr0 RtcCr0.hz1oe (BitVec.ofBool newState)

/-- `while (CR1_f.WAITF != v) {}`, of which at most `rounds` rounds are looked at: whether it ended. -/
def waitWaitf (v : Bool) : (rounds : Nat) → RtcProg Bool
  | 0 => return false
  | rounds + 1 => do
      let seen ← readWaitf
      if seen = v then return true else waitWaitf v rounds

def rtcStartWait (rounds : Nat) : RtcProg Unit := do
  writeWait true
  let started ← waitWaitf true rounds
  if started then do
    writeWait false
    let _ ← waitWaitf false rounds
    return
  else return

/-- `stc_rtc_cyccfg_t` -/
structure StcRtcCyccfg where
  rtcPrdsel : Word
  rtcPrdx : BitVec 8
  rtcPrds : Word

def rtcSetCyc (pstCyc : StcRtcCyccfg) : RtcProg RtcResult := do
  writeField .cr0 RtcCr0.prdsel pstCyc.rtcPrdsel
  if pstCyc.rtcPrdsel = prdselPrds then do
    writeField .cr0 RtcCr0.prds pstCyc.rtcPrds
    return .ok
  else if pstCyc.rtcPrdsel = prdselPrdx then
    if 64 ≤ pstCyc.rtcPrdx.toNat then return .errorInvalidParameter
    else do
      writeField .cr0 RtcCr0.prdx pstCyc.rtcPrdx
      return .ok
  else return .ok

/-- The comment of both clears says "清除周期中断标志位". -/
def rtcAlmIeCmd (newState : Bool) : RtcProg Unit := do
  setBit 3 false
  setBit 4 false
  setBit 6 newState

def rtcAlmEnCmd (newState : Bool) : RtcProg Unit := setBit 7 newState

def rtcClearAlmfItStatus : RtcProg Unit := setBit 4 false

def rtcClearPrdfItStatus : RtcProg Unit := setBit 3 false

/-- What is returned for a value that was stored is `Error`. -/
def rtcCompCfg (compVlue : BitVec 16) (newStatus : Word) : RtcProg RtcResult :=
  if compVlue.toNat ≤ 256 then do
    writeField .compen RtcCompen.en newStatus
    writeField .compen RtcCompen.cr compVlue
    return .error
  else return .errorInvalidParameter

/-! ## Time -/

/-- `stc_rtc_time_t`, in BCD -/
structure StcRtcTime where
  u8Second : BitVec 8
  u8Minute : BitVec 8
  u8Hour : BitVec 8
  u8DayOfWeek : BitVec 8
  u8Day : BitVec 8
  u8Month : BitVec 8
  u8Year : BitVec 8
  deriving DecidableEq

/-- A loop that polls `WAITF` `n` times at most: the counter after it, which is `n + offset` while `n`
    polls are left, and `spent` if `WAITF` was not seen set. -/
def pollLoop (spent : Word) (offset : Nat) : (n : Nat) → RtcProg Word
  | 0 => return spent
  | n + 1 => do
      let seen ← readWaitf
      if seen then return BitVec.ofNat 32 (n + offset) else pollLoop spent offset n

/-- `u32TimeOut = 1000; while(u32TimeOut--) { if(CR1_f.WAITF) break; }` -/
def pollThenCount : RtcProg Word := pollLoop 0xFFFFFFFF 0 1000

/-- `u16TimeOut = 1000; while(--u16TimeOut) { if(CR1_f.WAITF) break; }` -/
def countThenPoll : RtcProg Word := pollLoop 0 1 999

/-- `if(CR0_f.START == 1) { CR1_f.WAIT = 1; while .. if(TimeOut==0) return ErrorTimeout; }`: whether to
    go on. -/
def requestAccess (poll : RtcProg Word) : RtcProg Bool := do
  let cr0 ← readReg .cr0
  if startOf cr0 = 1 then do
    writeWait true
    let timeOut ← poll
    return timeOut ≠ 0
  else return true

/-- `CR1_f.WAIT = 0; if(CR0_f.START == 1) while(CR1_f.WAITF) {}`: whether the loop ended. -/
def releaseAccess (rounds : Nat) : RtcProg Bool := do
  writeWait false
  let cr0 ← readReg .cr0
  if startOf cr0 = 1 then waitWaitf false rounds else return true

section Accesses

variable {G : Rtc → Rtc → Prop}

/-- The loops make no accesses but polls. -/
theorem waitWaitf_accesses (hpoll : readWaitf.Accesses G) (v : Bool) (rounds : Nat) :
    (waitWaitf v rounds).Accesses G := by
  induction rounds with
  | zero => trivial
  | succ rounds ih =>
      refine Prog.accesses_bind hpoll fun seen => ?_
      split
      · trivial
      · exact ih

theorem pollLoop_accesses (hpoll : readWaitf.Accesses G) (spent : Word) (offset n : Nat) :
    (pollLoop spent offset n).Accesses G := by
  induction n with
  | zero => trivial
  | succ n ih =>
      refine Prog.accesses_bind hpoll fun seen => ?_
      split
      · trivial
      · exact ih

theorem requestAccess_accesses {poll : RtcProg Word} (hread : (readReg .cr0).Accesses G)
    (hwait : (writeWait true).Accesses G) (hpoll : poll.Accesses G) :
    (requestAccess poll).Accesses G := by
  refine Prog.accesses_bind hread fun cr0 => ?_
  split
  · exact Prog.accesses_bind hwait fun _ => Prog.accesses_bind hpoll fun _ => trivial
  · trivial

theorem releaseAccess_accesses (hread : (readReg .cr0).Accesses G)
    (hwait : (writeWait false).Accesses G) (hpoll : readWaitf.Accesses G) (rounds : Nat) :
    (releaseAccess rounds).Accesses G := by
  refine Prog.accesses_bind hwait fun _ => Prog.accesses_bind hread fun cr0 => ?_
  split
  · exact waitWaitf_accesses hpoll _ _
  · trivial

end Accesses

/-- In 12-hour mode bit 5 of the hour is left out. -/
def readTime : RtcProg StcRtcTime := do
  let second ← readByte .sec
  let minute ← readByte .min
  let cr0 ← readReg .cr0
  let hour ← readByte .hour
  let day ← readByte .day
  let dayOfWeek ← readByte .week
  let month ← readByte .mon
  let year ← readByte .year
  return {
    u8Second := second
    u8Minute := minute
    u8Hour := if ampmOf cr0 = rtcPm then hour else hour &&& 0x1f
    u8DayOfWeek := dayOfWeek
    u8Day := day
    u8Month := month
    u8Year := year }

def writeTime (time : StcRtcTime) : RtcProg Unit := do
  writeByte .sec time.u8Second
  writeByte .min time.u8Minute
  writeByte .hour time.u8Hour
  writeByte .day time.u8Day
  writeByte .mon time.u8Month
  writeByte .year time.u8Year
  writeByte .week time.u8DayOfWeek

/-- The result and `*time`, or `none` while the call has not returned. -/
def rtcReadDateTime (rounds : Nat) (time : StcRtcTime) :
    RtcProg (Option (RtcResult × StcRtcTime)) := do
  let granted ← requestAccess pollThenCount
  if granted then do
    let read ← readTime
    let ended ← releaseAccess rounds
    return if ended then some (.ok, read) else none
  else return some (.errorTimeout, time)

/-- The result, or `none` while the call has not returned. -/
def rtcSetTime (rounds : Nat) (time : StcRtcTime) : RtcProg (Option RtcResult) := do
  let granted ← requestAccess countThenPoll
  if granted then do
    writeTime time
    let ended ← releaseAccess rounds
    return if ended then some .ok else none
  else return some .errorTimeout

/-! ## Alarm -/

/-- `stc_rtc_alarmtime_t` -/
structure StcRtcAlarmtime where
  rtcAlarmMinute : BitVec 8
  rtcAlarmHour : BitVec 8
  rtcAlarmWeek : BitVec 8
  deriving DecidableEq

/-- Whether `Check_BCD_Format` returns `Ok`. -/
def checkBcdFormat (u8data u8limitMin u8limitMax : BitVec 8) : Bool :=
  ¬ (0x09 < u8data &&& 0x0F ∨ 0x90 < u8data &&& 0xF0 ∨ u8limitMax < u8data ∨ u8data < u8limitMin)

def rtcGetAlarmTime : RtcProg StcRtcAlarmtime := do
  let minute ← readByte .almmin
  let hour ← readByte .almhour
  let week ← readByte .almweek
  return ⟨minute, hour, week⟩

/-- The limit of the hour in the mode that `CR0` says. -/
def alarmHourLimit (cr0 : Word) : BitVec 8 := if ampmOf cr0 = rtcAm then 0x12 else 0x24

/-- The alarm is disabled before anything is checked. -/
def rtcSetAlarmTime (pstcAlarmTime : StcRtcAlarmtime) : RtcProg RtcResult := do
  rtcAlmEnCmd false
  let cr0 ← readReg .cr0
  if checkBcdFormat pstcAlarmTime.rtcAlarmHour 0x00 (alarmHourLimit cr0) then
    if checkBcdFormat pstcAlarmTime.rtcAlarmMinute 0x00 0x59 then do
      writeByte .almmin (pstcAlarmTime.rtcAlarmMinute &&& 0x7f)
      writeByte .almhour (pstcAlarmTime.rtcAlarmHour &&& 0x3f)
      writeByte .almweek pstcAlarmTime.rtcAlarmWeek
      rtcAlmEnCmd true
      return .ok
    else return .error
  else return .error

/-! ## Initialisation -/

/-- `stc_rtc_initstruct_t` -/
structure StcRtcInitstruct where
  rtcAmpm : Word
  rtcPrdsel : StcRtcCyccfg
  rtcClksrc : Word
  rtcCompen : Word
  rtcCompValue : BitVec 16
  rtcTime : StcRtcTime

/-- None of the results is looked at. -/
def rtcInit (rounds : Nat) (rtcInitStruct : StcRtcInitstruct) : RtcProg Unit := do
  rtcCmd false
  writeField .cr0 RtcCr0.ampm rtcInitStruct.rtcAmpm
  let _ ← rtcSetCyc rtcInitStruct.rtcPrdsel
  rtcCr1.change (~~~RtcCr1.cksel) (rtcInitStruct.rtcClksrc <<< 8 &&& RtcCr1.cksel)
  let _ ← rtcCompCfg rtcInitStruct.rtcCompValue rtcInitStruct.rtcCompen
  let _ ← rtcSetTime rounds rtcInitStruct.rtcTime
  return

end Hc32
