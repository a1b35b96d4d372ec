import Mathlib.Logic.Function.Basic
import McuDrivers.At32.Flash

set_option autoImplicit false

/-! # AT32F4xx: real-time clock

The functions of `at32f4xx_ertc.c` that write the protected registers of the ERTC, and those that read
the time, the date and the alarms back. `ISTS` holds three kinds of bits: `INITM`, which only software
writes; the event flags, which the hardware sets at any moment and a 0 written to them clears; and
status bits that only the hardware decides. What the hardware shows at each read of `ISTS` is `Ertc.answers`. -/

namespace At32

/-! ## Constants -/

def istsWatwf : Word := 0x00000004
def istsSfp : Word := 0x00000008
def istsRsf : Word := 0x00000020
def istsInitf : Word := 0x00000040
def istsInitm : Word := 0x00000080
def istsRecalpdf : Word := 0x00010000

/-- `ALAF`, `ALBF`, `WATF`, `TSF`, `TSOF`, `TPF` and `TP2F`. -/
def istsEvents : Word := 0x00007F00

def ctrlWacksel : Word := 0x00000007
def ctrlTsedge : Word := 0x00000008
def ctrlRfckon : Word := 0x00000010
def ctrlBypshdw : Word := 0x00000020
def ctrlHfm : Word := 0x00000040
def ctrlCdce : Word := 0x00000080
def ctrlWate : Word := 0x00000400
def ctrlTse : Word := 0x00000800
def ctrlBkp : Word := 0x00040000
def ctrlCalsel : Word := 0x00080000
def ctrlOpol : Word := 0x00100000
def ctrlOsel : Word := 0x00600000
def ctrlCaloe : Word := 0x00800000

def tpafTmie : Word := 0x00000004

def ertcAlA : Word := 0x00000100

def ertcTimeReservedMask : Word := 0x007F7F7F
def ertcDateReservedMask : Word := 0x00FFFF3F
def ertcInitMask : Word := 0xFFFFFFFF
def ertcRsfMask : Word := 0xFFFFFF5F

def initmodeTmrout : Nat := 0x00010000
def synchroTmrout : Nat := 0x00020000
def recalpdfTmrout : Nat := 0x00020000
def sfpTmrout : Nat := 0x00001000

/-! ## State -/

/-- The registers besides `ISTS` and `WPR`. -/
inductive ErtcReg where
  | time
  | date
  | ctrl
  | psc
  | watr
  | cal
  | ala
  | alb
  | sfctr
  | ccr
  | tpaf
  | alasbs
  | albsbs
  deriving DecidableEq

/-- The write protection: `keyed` after the first of the two keys that take it off. -/
inductive Protection where
  | on
  | keyed
  | off
  deriving DecidableEq

structure Ertc where
  ists : Word
  protection : Protection
  regs : ErtcReg → Word
  /-- what the hardware shows at each read of `ISTS`: the status bits, and new event flags -/
  answers : Nat → Word
  reads : Nat
  /-- a value of `ISTS` was read and is to be stored back -/
  held : Bool

abbrev ErtcProg := Prog Ertc

inductive ErrorStatus where
  | error
  | success
  deriving DecidableEq

/-- What `ISTS` reads as, and what it holds from then on. -/
def shownIsts (ists answer : Word) : Word :=
  (ists &&& (istsInitm ||| istsEvents)) ||| (answer &&& ~~~istsInitm)

def Ertc.shown (s : Ertc) : Ertc :=
  { s with
    ists := shownIsts s.ists (s.answers s.reads)
    reads := s.reads + 1 }

/-- `ISTS = v`. A 0 clears an event flag, and `RSF`; the request bit is written only when the
    protection is off ("All the ERTC registers are write protected except for RTC_ISR[13:8]"). -/
def Ertc.storeIsts (v : Word) (s : Ertc) : Ertc :=
  { s with
    ists := (s.ists &&& (v ||| ~~~(istsEvents ||| istsRsf)) &&& ~~~istsInitm) |||
      (if s.protection = .off then v &&& istsInitm else s.ists &&& istsInitm)
    held := false }

/-- A key written to `WPR`. "Writing a wrong key reactivates the write protection." -/
def Protection.key (k : BitVec 8) : Protection → Protection
  | on => if k = 0xCA then keyed else on
  | keyed => if k = 0x53 then off else on
  | off => if k = 0xCA then keyed else on

def readIsts : ErtcProg Word :=
  .act Ertc.shown fun s => .ret s.shown.ists

def writeIsts (v : Word) : ErtcProg Unit := .put (Ertc.storeIsts v)

/-- `ISTS &= mask` -/
def istsAnd (mask : Word) : ErtcProg Unit := do
  let v ← .act (fun s => { s.shown with held := true }) fun s => .ret s.shown.ists
  writeIsts (v &&& mask)

def writeWpr (k : BitVec 8) : ErtcProg Unit :=
  .put fun s => { s with protection := s.protection.key k }

def readReg (r : ErtcReg) : ErtcProg Word := .get fun s => s.regs r

/-- A protected register keeps its value under the protection; `TPAF` has none. -/
def writeReg (r : ErtcReg) (v : Word) : ErtcProg Unit :=
  .put fun s => if s.protection = .off ∨ r = .tpaf then
    { s with regs := Function.update s.regs r v } else s

/-- `r |= bits` -/
def setBits (r : ErtcReg) (bits : Word) : ErtcProg Unit := do
  let v ← readReg r
  writeReg r (v ||| bits)

/-- `r &= mask` -/
def keepBits (r : ErtcReg) (mask : Word) : ErtcProg Unit := do
  let v ← readReg r
  writeReg r (v &&& mask)

/-- `r |= bits` to enable, `r &= ~bits` to disable. -/
def enableBits (r : ErtcReg) (bits : Word) (newState : Bool) : ErtcProg Unit :=
  if newState then setBits r bits else keepBits r (~~~bits)

/-! ## Protection and waiting -/

/-- The protection is taken off for `body`, and put on again when it returns. -/
def unprotected {α : Type} (body : ErtcProg α) : ErtcProg α := do
  writeWpr 0xCA
  writeWpr 0x53
  let a ← body
  writeWpr 0xFF
  return a

/-- `do { status = ISTS & flag; counter++; } while((counter != TMROUT) && (status == 0))` -/
def waitSet (flag : Word) : (tmrout : Nat) → ErtcProg Unit
  | 0 => return
  | tmrout + 1 => do
      let v ← readIsts
      if v &&& flag = 0 then waitSet flag tmrout else return

/-- `while (((ISTS & flag) != RESET) && (count != TMROUT)) count++;` -/
def waitReset (flag : Word) : (tmrout : Nat) → ErtcProg Unit
  | 0 => do
      let _ ← readIsts
      return
  | tmrout + 1 => do
      let v ← readIsts
      if v &&& flag ≠ 0 then waitReset flag tmrout else return

/-- `if ((ISTS & flag) != RESET) { while .. }` -/
def waitPending (flag : Word) (tmrout : Nat) : ErtcProg Unit := do
  let v ← readIsts
  if v &&& flag ≠ 0 then waitReset flag tmrout else return

/-- `if ((ISTS & flag) != RESET) SUCCESS else ERROR` -/
def checkSet (flag : Word) : ErtcProg ErrorStatus := do
  let v ← readIsts
  return if v &&& flag ≠ 0 then .success else .error

/-- A wait makes no accesses but reads of `ISTS`. -/
theorem waitSet_accesses {G : Ertc → Ertc → Prop} (hread : readIsts.Accesses G) (flag : Word)
    (tmrout : Nat) : (waitSet flag tmrout).Accesses G := by
  induction tmrout with
  | zero => trivial
  | succ tmrout ih =>
      refine Prog.accesses_bind hread fun v => ?_
      split
      · exact ih
      · trivial

def ertcEnterInitMode : ErtcProg ErrorStatus := do
  let v ← readIsts
  if v &&& istsInitf = 0 then do
    writeIsts ertcInitMask
    waitSet istsInitf initmodeTmrout
    checkSet istsInitf
  else return .success

def ertcExitInitMode : ErtcProg Unit := istsAnd (~~~istsInitm)

def ertcWaitForSynchro : ErtcProg ErrorStatus := unprotected do
  istsAnd ertcRsfMask
  waitSet istsRsf synchroTmrout
  checkSet istsRsf

/-- What `body` writes is written in initialization mode. -/
def inInitMode (body : ErtcProg Unit) : ErtcProg ErrorStatus := do
  let status ← ertcEnterInitMode
  if status = .error then return .error
  else do
    body
    ertcExitInitMode
    return .success

/-! ## Values in BCD -/

/-- The loop takes 10 off as long as it can. -/
def ertcByteToBcd2 (value : BitVec 8) : BitVec 8 :=
  BitVec.ofNat 8 (value.toNat / 10) <<< 4 ||| BitVec.ofNat 8 (value.toNat % 10)

def ertcBcd2ToByte (value : BitVec 8) : BitVec 8 :=
  ((value &&& 0xF0) >>> 4) * 10 + (value &&& 0x0F)

inductive ErtcFormat where
  | bin
  | bcd
  deriving DecidableEq

/-- A byte as the register holds it. -/
def ErtcFormat.toBcd : ErtcFormat → BitVec 8 → BitVec 8
  | bin, value => ertcByteToBcd2 value
  | bcd, value => value

/-- A byte of the register as it is returned. -/
def ErtcFormat.fromBcd : ErtcFormat → BitVec 8 → BitVec 8
  | bin, value => ertcBcd2ToByte value
  | bcd, value => value

/-- `ERTC_TimeType` -/
structure ErtcTime where
  hours : BitVec 8
  minutes : BitVec 8
  seconds : BitVec 8
  ampm : BitVec 8

/-- `ERTC_DateType` -/
structure ErtcDate where
  weekDay : BitVec 8
  month : BitVec 8
  date : BitVec 8
  year : BitVec 8

/-- `ERTC_AlarmType` -/
structure ErtcAlarm where
  alarmTime : ErtcTime
  alarmMask : Word
  alarmDateWeekSel : Word
  alarmDateWeek : BitVec 8

/-- `ERTC_InitType` -/
structure ErtcInitStruct where
  hourFormat : Word
  asynchPrediv : Word
  synchPrediv : Word

def ErtcTime.word (format : ErtcFormat) (t : ErtcTime) : Word :=
  (format.toBcd t.hours).setWidth 32 <<< 16 ||| (format.toBcd t.minutes).setWidth 32 <<< 8 |||
    (format.toBcd t.seconds).setWidth 32 ||| t.ampm.setWidth 32 <<< 16

def ErtcDate.word (format : ErtcFormat) (d : ErtcDate) : Word :=
  (format.toBcd d.year).setWidth 32 <<< 16 ||| (format.toBcd d.month).setWidth 32 <<< 8 |||
    (format.toBcd d.date).setWidth 32 ||| d.weekDay.setWidth 32 <<< 13

def ErtcAlarm.word (format : ErtcFormat) (a : ErtcAlarm) : Word :=
  a.alarmTime.word format ||| (format.toBcd a.alarmDateWeek).setWidth 32 <<< 24 |||
    a.alarmDateWeekSel ||| a.alarmMask

/-- With the 24-hour format there is no AM or PM. -/
def withHourFormat (t : ErtcTime) : ErtcProg ErtcTime := do
  let ctrl ← readReg .ctrl
  return if ctrl &&& ctrlHfm ≠ 0 then t else { t with ampm := 0x00 }

/-! ## Time and date -/

/-- The calendar register `r` is written in initialization mode, and then the shadow registers are
    waited for, unless they are bypassed. -/
def setCalendar (r : ErtcReg) (v : Word) : ErtcProg ErrorStatus := do
  let status ← inInitMode (writeReg r v)
  if status = .error then return .error
  else do
    let ctrl ← readReg .ctrl
    if ctrl &&& ctrlBypshdw = 0 then ertcWaitForSynchro else return .success

def ertcSetTimeValue (format : ErtcFormat) (timeStruct : ErtcTime) : ErtcProg ErrorStatus := do
  let t ← withHourFormat timeStruct
  unprotected (setCalendar .time (t.word format &&& ertcTimeReservedMask))

/-- A month given in binary as if it were BCD is put right first. -/
def ertcSetDateValue (format : ErtcFormat) (dateStruct : ErtcDate) : ErtcProg ErrorStatus :=
  let d := if format = .bin ∧ dateStruct.month &&& 0x10 = 0x10 then
    { dateStruct with month := (dateStruct.month &&& ~~~0x10) + 0x0A } else dateStruct
  unprotected (setCalendar .date (d.word format &&& ertcDateReservedMask))

/-- `CTRL` is read first, and what it holds is not used. -/
def ertcGetTimeValue (format : ErtcFormat) : ErtcProg ErtcTime := do
  let _ ← readReg .ctrl
  let time ← readReg .time
  let tmpreg := time &&& ertcTimeReservedMask
  return {
    hours := format.fromBcd (((tmpreg &&& 0x003F0000) >>> 16).setWidth 8)
    minutes := format.fromBcd (((tmpreg &&& 0x00007F00) >>> 8).setWidth 8)
    seconds := format.fromBcd ((tmpreg &&& 0x0000007F).setWidth 8)
    ampm := ((tmpreg &&& 0x00400000) >>> 16).setWidth 8 }

def ertcGetDateValue (format : ErtcFormat) : ErtcProg ErtcDate := do
  let _ ← readReg .ctrl
  let date ← readReg .date
  let tmpreg := date &&& ertcDateReservedMask
  return {
    year := format.fromBcd (((tmpreg &&& 0x00FF0000) >>> 16).setWidth 8)
    month := format.fromBcd (((tmpreg &&& 0x00001F00) >>> 8).setWidth 8)
    date := format.fromBcd ((tmpreg &&& 0x0000003F).setWidth 8)
    weekDay := ((tmpreg &&& 0x0000E000) >>> 13).setWidth 8 }

def ertcBypassShadowCmd (newState : Bool) : ErtcProg Unit :=
  unprotected (enableBits .ctrl ctrlBypshdw newState)

def ertcRefClockCmd (newState : Bool) : ErtcProg ErrorStatus :=
  unprotected (inInitMode (enableBits .ctrl ctrlRfckon newState))

def ertcDayLightSavingConfig (dayLightSaving storeOperation : Word) : ErtcProg Unit :=
  unprotected do
    keepBits .ctrl (~~~ctrlBkp)
    setBits .ctrl (dayLightSaving ||| storeOperation)

/-- A shift is refused while one is pending, and with the reference clock on. -/
def ertcSynchroShiftConfig (shiftAdd1S shiftSubFS : Word) : ErtcProg ErrorStatus := unprotected do
  waitPending istsSfp sfpTmrout
  let v ← readIsts
  if v &&& istsSfp = 0 then do
    let ctrl ← readReg .ctrl
    if ctrl &&& ctrlRfckon = 0 then do
      writeReg .sfctr (shiftSubFS ||| shiftAdd1S)
      ertcWaitForSynchro
    else return .error
  else return .error

/-! ## Alarms and wake-up -/

def ertcSetAlarmValue (format : ErtcFormat) (alarm : Word) (alarmStruct : ErtcAlarm) :
    ErtcProg Unit := do
  let t ← withHourFormat alarmStruct.alarmTime
  let v := { alarmStruct with alarmTime := t }.word format
  unprotected (writeReg (if alarm = ertcAlA then .ala else .alb) v)

def ertcGetAlarmValue (format : ErtcFormat) (alarm : Word) : ErtcProg ErtcAlarm := do
  let tmpreg ← readReg (if alarm = ertcAlA then .ala else .alb)
  return {
    alarmTime := {
      hours := format.fromBcd (((tmpreg &&& 0x003F0000) >>> 16).setWidth 8)
      minutes := format.fromBcd (((tmpreg &&& 0x00007F00) >>> 8).setWidth 8)
      seconds := format.fromBcd ((tmpreg &&& 0x0000007F).setWidth 8)
      ampm := ((tmpreg &&& 0x00400000) >>> 16).setWidth 8 }
    alarmDateWeek := format.fromBcd (((tmpreg &&& 0x3F000000) >>> 24).setWidth 8)
    alarmDateWeekSel := tmpreg &&& 0x40000000
    alarmMask := tmpreg &&& 0x80808080 }

/-- `bits` of `CTRL` are set, or they are reset and `flag` is waited for. -/
def enableAndWait (bits flag : Word) (newState : Bool) : ErtcProg ErrorStatus :=
  if newState then do
    setBits .ctrl bits
    return .success
  else do
    keepBits .ctrl (~~~bits)
    waitSet flag initmodeTmrout
    checkSet flag

def ertcAlarmCmd (alarm : Word) (newState : Bool) : ErtcProg ErrorStatus :=
  unprotected (enableAndWait alarm (alarm >>> 8) newState)

def ertcAlarmSubSecondConfig (alarm alarmSubSecondValue alarmSubSecondMask : Word) :
    ErtcProg Unit :=
  unprotected (writeReg (if alarm = ertcAlA then .alasbs else .albsbs)
    (alarmSubSecondValue ||| alarmSubSecondMask))

def ertcWakeUpClockConfig (wakeUpClock : Word) : ErtcProg Unit := unprotected do
  keepBits .ctrl (~~~ctrlWacksel)
  setBits .ctrl wakeUpClock

def ertcSetWakeUpCounter (wakeUpCounter : Word) : ErtcProg Unit :=
  unprotected (writeReg .watr wakeUpCounter)

def ertcWakeUpCmd (newState : Bool) : ErtcProg ErrorStatus :=
  unprotected (enableAndWait ctrlWate istsWatwf newState)

/-! ## Calibration and outputs -/

def ertcCoarseCalConfig (calSign value : Word) : ErtcProg ErrorStatus :=
  unprotected (inInitMode (writeReg .cal (calSign ||| value)))

def ertcCoarseCalCmd (newState : Bool) : ErtcProg ErrorStatus :=
  unprotected (inInitMode (enableBits .ctrl ctrlCdce newState))

def ertcCalOutputCmd (newState : Bool) : ErtcProg Unit :=
  unprotected (enableBits .ctrl ctrlCaloe newState)

def ertcCalOutputConfig (calOutput : Word) : ErtcProg Unit := unprotected do
  keepBits .ctrl (~~~ctrlCalsel)
  setBits .ctrl calOutput

def ertcSmoothCalConfig (smoothCalPeriod smoothCalPlusPulses smouthCalMinusPulsesValue : Word) :
    ErtcProg ErrorStatus := unprotected do
  waitPending istsRecalpdf recalpdfTmrout
  let v ← readIsts
  if v &&& istsRecalpdf = 0 then do
    writeReg .ccr (smoothCalPeriod ||| smoothCalPlusPulses ||| smouthCalMinusPulsesValue)
    return .success
  else return .error

def ertcOutputConfig (output outputPolarity : Word) : ErtcProg Unit := unprotected do
  keepBits .ctrl (~~~(ctrlOsel ||| ctrlOpol))
  setBits .ctrl (output ||| outputPolarity)

/-- `CTRL` is read before the protection is taken off. -/
def ertcTimeStampCmd (timeStampEdge : Word) (newState : Bool) : ErtcProg Unit := do
  let ctrl ← readReg .ctrl
  let v := ctrl &&& ~~~(ctrlTsedge ||| ctrlTse)
  unprotected (writeReg .ctrl
    (v ||| if newState then timeStampEdge ||| ctrlTse else timeStampEdge))

def ertcIntConfig (int : Word) (newState : Bool) : ErtcProg Unit := unprotected do
  enableBits .ctrl (int &&& ~~~tpafTmie) newState
  enableBits .tpaf (int &&& tpafTmie) newState

/-! ## Initialisation and reset -/

def ertcInit (initStruct : ErtcInitStruct) : ErtcProg ErrorStatus := unprotected (inInitMode do
  keepBits .ctrl (~~~ctrlHfm)
  setBits .ctrl initStruct.hourFormat
  writeReg .psc initStruct.synchPrediv
  setBits .psc (initStruct.asynchPrediv <<< 16))

/-- The registers that `ERTC_Reset` writes once the wake-up timer lets it, in their order. -/
def ertcResetValues : List (ErtcReg × Word) :=
  [(.watr, 0x0000FFFF), (.psc, 0x007F00FF), (.cal, 0), (.ala, 0), (.alb, 0), (.sfctr, 0), (.ccr, 0),
    (.alasbs, 0), (.albsbs, 0)]

def writeRegs : List (ErtcReg × Word) → ErtcProg Unit
  | [] => return
  | (r, v) :: rest => do
      writeReg r v
      writeRegs rest

/-- What `ERTC_Reset` does in initialization mode. -/
def ertcResetRegs : ErtcProg ErrorStatus := do
  writeReg .time 0x00000000
  writeReg .date 0x00002101
  keepBits .ctrl 0x00000007
  waitSet istsWatwf initmodeTmrout
  let status ← checkSet istsWatwf
  if status = .error then return .error
  else do
    keepBits .ctrl 0x00000000
    writeRegs ertcResetValues
    writeIsts 0x00000000
    writeReg .tpaf 0x00000000
    ertcWaitForSynchro

def ertcReset : ErtcProg ErrorStatus := unprotected do
  let status ← ertcEnterInitMode
  if status = .error then return .error else ertcResetRegs

/-! ## Flags -/

/-- `ISTS = ~((flag | INITM) & 0x0000FFFF) | (ISTS & INITM)` -/
def clearIsts (flag : Word) : ErtcProg Unit := do
  let v ← readIsts
  writeIsts (~~~((flag ||| istsInitm) &&& 0x0000FFFF) ||| (v &&& istsInitm))

def ertcClearFlag (flag : Word) : ErtcProg Unit := clearIsts flag

def ertcClearIntPendingBint (int : Word) : ErtcProg Unit := clearIsts (int >>> 4)

/-! ## The calls -/

/-- The functions that take the protection off. -/
inductive ErtcCall where
  | init (initStruct : ErtcInitStruct)
  | reset
  | waitForSynchro
  | setTimeValue (format : ErtcFormat) (timeStruct : ErtcTime)
  | setDateValue (format : ErtcFormat) (dateStruct : ErtcDate)
  | bypassShadowCmd (newState : Bool)
  | refClockCmd (newState : Bool)
  | dayLightSavingConfig (dayLightSaving storeOperation : Word)
  | synchroShiftConfig (shiftAdd1S shiftSubFS : Word)
  | setAlarmValue (format : ErtcFormat) (alarm : Word) (alarmStruct : ErtcAlarm)
  | alarmCmd (alarm : Word) (newState : Bool)
  | alarmSubSecondConfig (alarm alarmSubSecondValue alarmSubSecondMask : Word)
  | wakeUpClockConfig (wakeUpClock : Word)
  | setWakeUpCounter (wakeUpCounter : Word)
  | wakeUpCmd (newState : Bool)
  | coarseCalConfig (calSign value : Word)
  | coarseCalCmd (newState : Bool)
  | calOutputCmd (newState : Bool)
  | calOutputConfig (calOutput : Word)
  | smoothCalConfig (smoothCalPeriod smoothCalPlusPulses smouthCalMinusPulsesValue : Word)
  | outputConfig (output outputPolarity : Word)
  | timeStampCmd (timeStampEdge : Word) (newState : Bool)
  | intConfig (int : Word) (newState : Bool)

/-- What is called, its status dropped. -/
def dropStatus (p : ErtcProg ErrorStatus) : ErtcProg Unit := do
  let _ ← p
  return

def ErtcCall.body : ErtcCall → ErtcProg Unit
  | init initStruct => dropStatus (ertcInit initStruct)
  | reset => dropStatus ertcReset
  | waitForSynchro => dropStatus ertcWaitForSynchro
  | setTimeValue format timeStruct => dropStatus (ertcSetTimeValue format timeStruct)
  | setDateValue format dateStruct => dropStatus (ertcSetDateValue format dateStruct)
  | bypassShadowCmd newState => ertcBypassShadowCmd newState
  | refClockCmd newState => dropStatus (ertcRefClockCmd newState)
  | dayLightSavingConfig dayLightSaving storeOperation =>
      ertcDayLightSavingConfig dayLightSaving storeOperation
  | synchroShiftConfig shiftAdd1S shiftSubFS =>
      dropStatus (ertcSynchroShiftConfig shiftAdd1S shiftSubFS)
  | setAlarmValue format alarm alarmStruct => ertcSetAlarmValue format alarm alarmStruct
  | alarmCmd alarm newState => dropStatus (ertcAlarmCmd alarm newState)
  | alarmSubSecondConfig alarm alarmSubSecondValue alarmSubSecondMask =>
      ertcAlarmSubSecondConfig alarm alarmSubSecondValue alarmSubSecondMask
  | wakeUpClockConfig wakeUpClock => ertcWakeUpClockConfig wakeUpClock
  | setWakeUpCounter wakeUpCounter => ertcSetWakeUpCounter wakeUpCounter
  | wakeUpCmd newState => dropStatus (ertcWakeUpCmd newState)
  | coarseCalConfig calSign value => dropStatus (ertcCoarseCalConfig calSign value)
  | coarseCalCmd newState => dropStatus (ertcCoarseCalCmd newState)
  | calOutputCmd newState => ertcCalOutputCmd newState
  | calOutputConfig calOutput => ertcCalOutputConfig calOutput
  | smoothCalConfig smoothCalPeriod smoothCalPlusPulses smouthCalMinusPulsesValue =>
      dropStatus (ertcSmoothCalConfig smoothCalPeriod smoothCalPlusPulses smouthCalMinusPulsesValue)
  | outputConfig output outputPolarity => ertcOutputConfig output outputPolarity
  | timeStampCmd timeStampEdge newState => ertcTimeStampCmd timeStampEdge newState
  | intConfig int newState => ertcIntConfig int newState

end At32
