import McuDrivers.At32.ErtcIsts
import McuDrivers.Library.Calls
import McuDrivers.Library.Poll

set_option autoImplicit false

/-! # AT32F4xx: what the ERTC functions leave behind

Each configuration function takes the write protection off and puts it on again, and those that write
the calendar request the initialization mode with `INITM` and give it back. The protection is on after
every call. `INITM` is left set by exactly those calls that request the mode and then give up: because
`INITF` does not come, or, in a reset, because the wake-up timer cannot be written. -/

namespace At32

variable {α : Type} {s : Ertc}

/-! ## Protection -/

@[simp] theorem Protection.key_wrong (p : Protection) : p.key 255#8 = .on := by
  cases p <;> rfl

/-- What the protection leaves to `body`. -/
def Ertc.unlocked (s : Ertc) : Ertc :=
  { s with protection := (s.protection.key 0xCA).key 0x53 }

theorem unprotected_exec (body : ErtcProg α) (s : Ertc) :
    (unprotected body).exec s =
      ((body.exec s.unlocked).1, { (body.exec s.unlocked).2 with protection := .on }) := by
  simp [unprotected, writeWpr, Ertc.unlocked]

theorem Ertc.unlocked_off (h : s.protection ≠ .keyed) : s.unlocked.protection = .off := by
  unfold Ertc.unlocked
  cases hs : s.protection with
  | keyed => exact absurd hs h
  | on => rfl
  | off => rfl

/-! ## The waits -/

/-- The hardware shows `flag` at read `i`. -/
def Shows (flag : Word) (answers : Nat → Word) (i : Nat) : Prop := answers i &&& flag ≠ 0

/-- The first read after a wait for `flag` that begins with read `i`. -/
def waitEnd (flag : Word) (answers : Nat → Word) (tmrout i : Nat) : Nat :=
  (pollNext (fun v => v &&& flag ≠ 0) answers tmrout i).getD (i + tmrout)

theorem readIsts_exec (s : Ertc) : readIsts.exec s = (s.shown.ists, s.shown) := rfl

/-- A flag that only the hardware decides. -/
structure IsStatus (flag : Word) : Prop where
  software : (istsInitm ||| istsEvents) &&& flag = 0
  hardware : ~~~istsInitm &&& flag = flag

theorem isStatus_initf : IsStatus istsInitf := ⟨by decide, by decide⟩

theorem isStatus_watwf : IsStatus istsWatwf := ⟨by decide, by decide⟩

theorem IsStatus.shown {flag : Word} (h : IsStatus flag) (s : Ertc) :
    s.shown.ists &&& flag = s.answers s.reads &&& flag :=
  shownIsts_status h.software h.hardware _ _

theorem waitSet_reads {flag : Word} (h : IsStatus flag) (tmrout : Nat) (s : Ertc) :
    ((waitSet flag tmrout).exec s).2.reads = waitEnd flag s.answers tmrout s.reads := by
  induction tmrout generalizing s with
  | zero => rfl
  | succ tmrout ih =>
      simp only [waitSet, Prog.exec_bind, readIsts_exec, h.shown]
      by_cases hflag : s.answers s.reads &&& flag = 0
      · rw [if_pos hflag, ih]
        have hnext : waitEnd flag s.answers (tmrout + 1) s.reads =
            waitEnd flag s.answers tmrout (s.reads + 1) := by
          simp only [waitEnd, pollNext, hflag, ne_eq, not_true_eq_false, decide_false]
          simp [Nat.add_right_comm s.reads 1, Nat.add_assoc]
        rw [hnext]
        rfl
      · rw [if_neg hflag]
        simp only [waitEnd, pollNext, ne_eq, hflag, not_false_eq_true, decide_true]
        rfl

theorem checkSet_status {flag : Word} (h : IsStatus flag) (s : Ertc) :
    ((checkSet flag).exec s).1 = .success ↔ Shows flag s.answers s.reads := by
  rw [checkSet, Prog.exec_bind, readIsts_exec]
  simp only [h.shown, Prog.pure_eq, Prog.exec_ret]
  unfold Shows
  split <;> simp_all

theorem checkSet_reads (flag : Word) (s : Ertc) : ((checkSet flag).exec s).2.reads = s.reads + 1 :=
  rfl

/-! ## The initialization mode -/

/-- The read that decides whether a request for the mode was answered, for a request made after
    read `i`. -/
def requestEnd (answers : Nat → Word) (i : Nat) : Nat :=
  waitEnd istsInitf answers initmodeTmrout (i + 1)

/-- The mode is on at read `i`, or it comes on when it is requested. -/
def EntersInit (answers : Nat → Word) (i : Nat) : Prop :=
  Shows istsInitf answers i ∨ Shows istsInitf answers (requestEnd answers i)

/-- The first read after `ERTC_EnterInitMode`. -/
def enterEnd (answers : Nat → Word) (i : Nat) : Nat :=
  if answers i &&& istsInitf = 0 then requestEnd answers i + 1 else i + 1

/-- What `ERTC_EnterInitMode` leaves, made with the protection off. -/
structure Entered (s s' : Ertc) : Prop where
  protection : s'.protection = .off
  answers : s'.answers = s.answers
  reads : s'.reads = enterEnd s.answers s.reads
  initm : s'.InitmClear ↔ s.InitmClear ∧ Shows istsInitf s.answers s.reads

/-- The state in which the mode has been requested. -/
def Ertc.requested (s : Ertc) : Ertc := s.shown.storeIsts ertcInitMask

theorem Ertc.requested_initm (hoff : s.protection = .off) : ¬ s.requested.InitmClear := by
  have hoff' : s.shown.protection = .off := hoff
  unfold Ertc.InitmClear Ertc.requested
  rw [storeIsts_initm, if_pos hoff']
  decide

theorem ertcEnterInitMode_exec (hoff : s.protection = .off) :
    ((ertcEnterInitMode.exec s).1 = .success ↔ EntersInit s.answers s.reads) ∧
      Entered s (ertcEnterInitMode.exec s).2 := by
  rw [ertcEnterInitMode, Prog.exec_bind, readIsts_exec]
  simp only [isStatus_initf.shown]
  by_cases hinitf : s.answers s.reads &&& istsInitf = 0
  · -- the request is made, and the answer is what the last read shows
    have hnot : ¬ Shows istsInitf s.answers s.reads := fun h => h hinitf
    have hwait := calm_exec (waitSet_calm istsInitf initmodeTmrout) s.requested
    have hreads := waitSet_reads isStatus_initf initmodeTmrout s.requested
    have hexec : (do
        writeIsts ertcInitMask
        waitSet istsInitf initmodeTmrout
        checkSet istsInitf : ErtcProg ErrorStatus).exec s.shown =
        (checkSet istsInitf).exec ((waitSet istsInitf initmodeTmrout).exec s.requested).2 := by
      simp only [Prog.exec_bind]
      rfl
    rw [if_pos hinitf, hexec]
    generalize ((waitSet istsInitf initmodeTmrout).exec s.requested).2 = s1 at *
    have hcheck := calm_exec (checkSet_calm istsInitf) s1
    have hall := hwait.trans hcheck
    refine ⟨?_, hall.protection.trans hoff, hall.answers, ?_, ?_⟩
    · rw [checkSet_status isStatus_initf, hreads, hwait.answers]
      simp only [EntersInit, hnot, false_or]
      rfl
    · rw [checkSet_reads, hreads]
      simp [enterEnd, hinitf]
      rfl
    · rw [hall.clear]
      simp [hnot, Ertc.requested_initm hoff]
  · rw [if_neg hinitf]
    have hshows : Shows istsInitf s.answers s.reads := hinitf
    have hend : enterEnd s.answers s.reads = s.reads + 1 := if_neg hinitf
    refine ⟨by simp [EntersInit, hshows], hoff, rfl, hend.symm, ?_⟩
    simp [hshows, (Calm.shown s).clear]

theorem ErrorStatus.ne_error {status : ErrorStatus} : status ≠ .error ↔ status = .success := by
  cases status <;> decide

theorem not_entersInit_of_error (hoff : s.protection = .off)
    (h : (ertcEnterInitMode.exec s).1 = .error) : ¬ EntersInit s.answers s.reads := by
  rw [← (ertcEnterInitMode_exec hoff).1, h]
  simp

theorem ertcExitInitMode_clear (hoff : s.protection = .off) :
    (ertcExitInitMode.exec s).2.InitmClear := by
  have hoff' : { s.shown with held := true }.protection = .off := hoff
  show (Ertc.storeIsts _ _).InitmClear
  unfold Ertc.InitmClear
  rw [storeIsts_initm, if_pos hoff', BitVec.and_assoc]
  exact BitVec.and_zero

theorem inInitMode_clear {body : ErtcProg Unit} (hbody : body.Accesses Calm)
    (hoff : s.protection = .off) :
    ((inInitMode body).exec s).2.InitmClear ↔ EntersInit s.answers s.reads := by
  obtain ⟨hstatus, hentered⟩ := ertcEnterInitMode_exec hoff
  simp only [inInitMode, Prog.exec_bind]
  by_cases herror : (ertcEnterInitMode.exec s).1 = .error
  · rw [if_pos herror]
    have hnot := not_entersInit_of_error hoff herror
    have hfirst : ¬ Shows istsInitf s.answers s.reads := fun h => hnot (.inl h)
    simp [hnot, hentered.initm, hfirst]
  · rw [if_neg herror]
    have henters : EntersInit s.answers s.reads := hstatus.mp (ErrorStatus.ne_error.mp herror)
    have hoff' : ((body.exec (ertcEnterInitMode.exec s).2).2).protection = .off :=
      (calm_exec hbody _).protection.trans hentered.protection
    simp only [henters, iff_true, Prog.exec_bind]
    exact ertcExitInitMode_clear hoff'

/-! ## Accesses that do not set the request

Both values that are written back without the request, `~INITM` and `0xFFFFFF5F`, leave it clear. -/

def KeepsClear (s s' : Ertc) : Prop := s.InitmClear → s'.InitmClear

theorem keepsClear_of_calm {p : ErtcProg α} (hp : p.Accesses Calm) : p.Accesses KeepsClear :=
  Prog.accesses_mono hp fun _ _ h => h.clear.mpr

theorem keepsClear_exec {p : ErtcProg α} (hp : p.Accesses KeepsClear) (hs : s.InitmClear) :
    (p.exec s).2.InitmClear :=
  Prog.exec_of_accesses hp (fun _ h => h) (fun h h' hs => h' (h hs)) s hs

theorem writeWpr_keeps (k : BitVec 8) : (writeWpr k).Accesses KeepsClear := by
  simp only [writeWpr, Prog.accesses_put]
  exact fun _ hs => hs

theorem unprotected_keeps {body : ErtcProg α} (hbody : body.Accesses KeepsClear) :
    (unprotected body).Accesses KeepsClear :=
  Prog.accesses_bind (writeWpr_keeps _) fun _ => Prog.accesses_bind (writeWpr_keeps _) fun _ =>
    Prog.accesses_bind hbody fun _ => Prog.accesses_bind (writeWpr_keeps _) fun _ => trivial

theorem istsAnd_keeps {mask : Word} (h : mask &&& istsInitm = 0) :
    (istsAnd mask).Accesses KeepsClear := by
  refine ⟨fun s hs => ?_, fun s => ?_⟩
  · exact (Calm.shown s).clear.mpr hs
  · refine ⟨fun s' hs' => storeIsts_clear ?_ hs', fun _ => trivial⟩
    rw [BitVec.and_assoc, h]
    exact BitVec.and_zero

theorem ertcWaitForSynchro_keeps : ertcWaitForSynchro.Accesses KeepsClear :=
  unprotected_keeps (Prog.accesses_bind (istsAnd_keeps (by decide)) fun _ =>
    keepsClear_of_calm (Prog.accesses_bind (waitSet_calm _ _) fun _ => checkSet_calm _))

theorem setCalendar_clear (r : ErtcReg) (v : Word) (hoff : s.protection = .off) :
    ((setCalendar r v).exec s).2.InitmClear ↔ EntersInit s.answers s.reads := by
  have hmode : ((inInitMode (writeReg r v)).exec s).2.InitmClear ↔ EntersInit s.answers s.reads :=
    inInitMode_clear (writeReg_calm r v) hoff
  have hstatus :
      ((inInitMode (writeReg r v)).exec s).1 = .success → EntersInit s.answers s.reads := by
    intro h
    rw [← (ertcEnterInitMode_exec hoff).1]
    simp only [inInitMode, Prog.exec_bind] at h
    split at h
    · simp at h
    · rename_i herror
      exact ErrorStatus.ne_error.mp herror
  simp only [setCalendar, Prog.exec_bind]
  by_cases herror : ((inInitMode (writeReg r v)).exec s).1 = .error
  · rw [if_pos herror]
    exact hmode
  · rw [if_neg herror]
    have hsuccess := ErrorStatus.ne_error.mp herror
    have hclear := hmode.mpr (hstatus hsuccess)
    simp only [hstatus hsuccess, iff_true, Prog.exec_bind]
    split
    · exact keepsClear_exec ertcWaitForSynchro_keeps hclear
    · exact hclear

/-! ## The reset -/

theorem writeReg_reads (r : ErtcReg) (v : Word) (s : Ertc) :
    ((writeReg r v).exec s).2.reads = s.reads := by
  simp only [writeReg, Prog.exec_put]
  split <;> rfl

/-- What `ERTC_Reset` writes before it waits for the wake-up timer. -/
def calendarReset : ErtcProg Unit := do
  writeReg .time 0x00000000
  writeReg .date 0x00002101
  keepBits .ctrl 0x00000007

/-- What it writes after that. -/
def resetTail : ErtcProg ErrorStatus := do
  keepBits .ctrl 0x00000000
  writeRegs ertcResetValues
  writeIsts 0x00000000
  writeReg .tpaf 0x00000000
  ertcWaitForSynchro

theorem ertcResetRegs_eq : ertcResetRegs = (do
    calendarReset
    waitSet istsWatwf initmodeTmrout
    let status ← checkSet istsWatwf
    if status = .error then return .error else resetTail) := rfl

theorem resetTail_clear (hoff : s.protection = .off) : (resetTail.exec s).2.InitmClear := by
  have hregs : Calm s ((do
      keepBits .ctrl 0x00000000
      writeRegs ertcResetValues : ErtcProg Unit).exec s).2 :=
    calm_exec (Prog.accesses_bind (keepBits_calm _ _) fun _ => writeRegs_calm _) s
  have hexec : resetTail = (do
      (do
        keepBits .ctrl 0x00000000
        writeRegs ertcResetValues)
      writeIsts 0x00000000
      writeReg .tpaf 0x00000000
      ertcWaitForSynchro) := rfl
  rw [hexec, Prog.exec_bind, Prog.exec_bind]
  have hclear : ((writeIsts 0x00000000).exec ((do
      keepBits .ctrl 0x00000000
      writeRegs ertcResetValues : ErtcProg Unit).exec s).2).2.InitmClear := by
    show (Ertc.storeIsts _ _).InitmClear
    unfold Ertc.InitmClear
    rw [storeIsts_initm, if_pos (hregs.protection.trans hoff)]
    rfl
  exact keepsClear_exec (Prog.accesses_bind (keepsClear_of_calm (writeReg_calm _ _)) fun _ =>
    ertcWaitForSynchro_keeps) hclear

/-- Given up when the wake-up timer cannot be written, the reset leaves the request as it is. -/
theorem ertcResetRegs_clear (hoff : s.protection = .off) :
    (ertcResetRegs.exec s).2.InitmClear ↔
      s.InitmClear ∨
        Shows istsWatwf s.answers (waitEnd istsWatwf s.answers initmodeTmrout s.reads) := by
  have hsame : Calm s (calendarReset.exec s).2 := calm_exec
    (Prog.accesses_bind (writeReg_calm _ _) fun _ =>
      Prog.accesses_bind (writeReg_calm _ _) fun _ => keepBits_calm _ _) s
  have hreads : (calendarReset.exec s).2.reads = s.reads := by
    simp [calendarReset, keepBits, readReg, writeReg_reads]
  rw [ertcResetRegs_eq, Prog.exec_bind]
  generalize (calendarReset.exec s).2 = s1 at hsame hreads ⊢
  have hwait := calm_exec (waitSet_calm istsWatwf initmodeTmrout) s1
  have hwaitReads := waitSet_reads isStatus_watwf initmodeTmrout s1
  simp only [Prog.exec_bind]
  generalize ((waitSet istsWatwf initmodeTmrout).exec s1).2 = s2 at hwait hwaitReads ⊢
  have hcheck := calm_exec (checkSet_calm istsWatwf) s2
  have hstatus := checkSet_status isStatus_watwf s2
  have hall := (hsame.trans hwait).trans hcheck
  rw [hwait.answers, hwaitReads, hsame.answers, hreads] at hstatus
  rw [← hstatus]
  by_cases herror : ((checkSet istsWatwf).exec s2).1 = .error
  · rw [if_pos herror]
    simp [herror, hall.clear]
  · rw [if_neg herror]
    simp only [ErrorStatus.ne_error.mp herror, or_true, iff_true]
    exact resetTail_clear (hall.protection.trans hoff)

/-- The mode was on, or it came on when it was requested and the wake-up timer could be written. -/
def ResetsOut (answers : Nat → Word) (i : Nat) : Prop :=
  Shows istsInitf answers i ∨ (Shows istsInitf answers (requestEnd answers i) ∧
    Shows istsWatwf answers
      (waitEnd istsWatwf answers initmodeTmrout (requestEnd answers i + 1)))

theorem ertcReset_clear (hoff : s.protection = .off) (hs : s.InitmClear) :
    ((do
      let status ← ertcEnterInitMode
      if status = .error then return .error else ertcResetRegs : ErtcProg ErrorStatus).exec
        s).2.InitmClear ↔ ResetsOut s.answers s.reads := by
  obtain ⟨hstatus, hentered⟩ := ertcEnterInitMode_exec hoff
  rw [Prog.exec_bind]
  by_cases herror : (ertcEnterInitMode.exec s).1 = .error
  · rw [if_pos herror]
    have hnot := not_entersInit_of_error hoff herror
    have hfirst : ¬ Shows istsInitf s.answers s.reads := fun h => hnot (.inl h)
    have hlast : ¬ Shows istsInitf s.answers (requestEnd s.answers s.reads) :=
      fun h => hnot (.inr h)
    simp [hentered.initm, ResetsOut, hfirst, hlast]
  · rw [if_neg herror, ertcResetRegs_clear hentered.protection, hentered.initm,
      hentered.answers, hentered.reads]
    rcases hstatus.mp (ErrorStatus.ne_error.mp herror) with hfirst | hlast
    · simp [hs, ResetsOut, hfirst]
    · by_cases hfirst : Shows istsInitf s.answers s.reads
      · simp [hs, ResetsOut, hfirst]
      · have hend : enterEnd s.answers s.reads = requestEnd s.answers s.reads + 1 :=
          if_pos (not_not.mp hfirst)
        simp [ResetsOut, hfirst, hlast, hend]
/-! ## Whole calls -/

/-- Between two calls: the protection is on, and the initialization mode is not requested. -/
structure Ertc.AtRest (s : Ertc) : Prop where
  protection : s.protection = .on
  initm : s.InitmClear

/-- From rest, `p` puts the protection on again, and leaves the mode not requested just when `Q` is so
    of what the hardware shows. -/
def Leaves (p : ErtcProg α) (Q : (Nat → Word) → Nat → Prop) : Prop :=
  ∀ s : Ertc, s.AtRest →
    ((p.exec s).2.AtRest ↔ Q s.answers s.reads)

theorem leaves_unprotected {body : ErtcProg α} {Q : (Nat → Word) → Nat → Prop}
    (h : ∀ s : Ertc, s.protection = .off → s.InitmClear →
      ((body.exec s).2.InitmClear ↔ Q s.answers s.reads)) : Leaves (unprotected body) Q := by
  intro s hs
  have hkeyed : s.protection ≠ .keyed := by simp [hs.protection]
  have hbody := h s.unlocked (Ertc.unlocked_off hkeyed) hs.initm
  rw [unprotected_exec]
  exact ⟨fun hrest => hbody.mp hrest.initm, fun hQ => ⟨rfl, hbody.mpr hQ⟩⟩

theorem leaves_of_keeps {body : ErtcProg α} (hbody : body.Accesses KeepsClear) :
    Leaves (unprotected body) fun _ _ => True :=
  leaves_unprotected fun _ _ hs => iff_true_intro (keepsClear_exec hbody hs)

theorem leaves_of_calm {body : ErtcProg α} (hbody : body.Accesses Calm) :
    Leaves (unprotected body) fun _ _ => True :=
  leaves_of_keeps (keepsClear_of_calm hbody)

theorem leaves_inInitMode {body : ErtcProg Unit} (hbody : body.Accesses Calm) :
    Leaves (unprotected (inInitMode body)) EntersInit :=
  leaves_unprotected fun _ hoff _ => inInitMode_clear hbody hoff

theorem leaves_setCalendar (r : ErtcReg) (v : Word) :
    Leaves (unprotected (setCalendar r v)) EntersInit :=
  leaves_unprotected fun _ hoff _ => setCalendar_clear r v hoff

/-- What is read first changes nothing. -/
theorem leaves_of_read {β : Type} {p : ErtcProg β} {q : β → ErtcProg α}
    {Q : (Nat → Word) → Nat → Prop} (hp : ∀ s, (p.exec s).2 = s) (hq : ∀ b, Leaves (q b) Q) :
    Leaves (p >>= q) Q := by
  intro s hs
  rw [Prog.exec_bind, hp s]
  exact hq _ s hs

theorem leaves_dropStatus {p : ErtcProg ErrorStatus} {Q : (Nat → Word) → Nat → Prop}
    (h : Leaves p Q) : Leaves (dropStatus p) Q := by
  intro s hs
  rw [dropStatus, Prog.exec_bind]
  exact h s hs

theorem ertcSynchroShiftConfig_leaves (shiftAdd1S shiftSubFS : Word) :
    Leaves (ertcSynchroShiftConfig shiftAdd1S shiftSubFS) fun _ _ => True := by
  apply leaves_of_keeps
  refine Prog.accesses_bind (keepsClear_of_calm (waitPending_calm _ _)) fun _ => ?_
  refine Prog.accesses_bind (keepsClear_of_calm readIsts_calm) fun v => ?_
  split
  · refine Prog.accesses_bind (keepsClear_of_calm (readReg_calm _)) fun ctrl => ?_
    split
    · exact Prog.accesses_bind (keepsClear_of_calm (writeReg_calm _ _)) fun _ =>
        ertcWaitForSynchro_keeps
    · trivial
  · trivial

/-! ## Sequences of calls -/

/-- Whether a call gives the initialization mode back, by what the hardware shows from read `i` on. -/
def ErtcCall.GivesBack (answers : Nat → Word) (i : Nat) : ErtcCall → Prop
  | init _ | setTimeValue _ _ | setDateValue _ _ | refClockCmd _ | coarseCalConfig _ _
  | coarseCalCmd _ => EntersInit answers i
  | reset => ResetsOut answers i
  | _ => True

theorem ErtcCall.body_leaves (c : ErtcCall) :
    Leaves c.body fun answers i => c.GivesBack answers i := by
  cases c with
  | init initStruct =>
      refine leaves_dropStatus (leaves_inInitMode (Prog.accesses_bind (keepBits_calm _ _) fun _ => ?_))
      exact Prog.accesses_bind (setBits_calm _ _) fun _ =>
        Prog.accesses_bind (writeReg_calm _ _) fun _ => setBits_calm _ _
  | reset => exact leaves_dropStatus (leaves_unprotected fun _ => ertcReset_clear)
  | waitForSynchro =>
      exact leaves_dropStatus (leaves_of_keeps (Prog.accesses_bind (istsAnd_keeps (by decide))
        fun _ => keepsClear_of_calm
          (Prog.accesses_bind (waitSet_calm _ _) fun _ => checkSet_calm _)))
  | setTimeValue format timeStruct =>
      exact leaves_dropStatus (leaves_of_read (fun _ => rfl) fun _ => leaves_setCalendar _ _)
  | setDateValue format dateStruct => exact leaves_dropStatus (leaves_setCalendar _ _)
  | bypassShadowCmd newState => exact leaves_of_calm (enableBits_calm _ _ _)
  | refClockCmd newState => exact leaves_dropStatus (leaves_inInitMode (enableBits_calm _ _ _))
  | dayLightSavingConfig dayLightSaving storeOperation => exact leaves_of_calm (keepAndSet_calm _ _ _)
  | synchroShiftConfig shiftAdd1S shiftSubFS =>
      exact leaves_dropStatus (ertcSynchroShiftConfig_leaves shiftAdd1S shiftSubFS)
  | setAlarmValue format alarm alarmStruct =>
      exact leaves_of_read (fun _ => rfl) fun _ => leaves_of_calm (writeReg_calm _ _)
  | alarmCmd alarm newState => exact leaves_dropStatus (leaves_of_calm (enableAndWait_calm _ _ _))
  | alarmSubSecondConfig alarm value mask => exact leaves_of_calm (writeReg_calm _ _)
  | wakeUpClockConfig wakeUpClock => exact leaves_of_calm (keepAndSet_calm _ _ _)
  | setWakeUpCounter wakeUpCounter => exact leaves_of_calm (writeReg_calm _ _)
  | wakeUpCmd newState => exact leaves_dropStatus (leaves_of_calm (enableAndWait_calm _ _ _))
  | coarseCalConfig calSign value =>
      exact leaves_dropStatus (leaves_inInitMode (writeReg_calm _ _))
  | coarseCalCmd newState => exact leaves_dropStatus (leaves_inInitMode (enableBits_calm _ _ _))
  | calOutputCmd newState => exact leaves_of_calm (enableBits_calm _ _ _)
  | calOutputConfig calOutput => exact leaves_of_calm (keepAndSet_calm _ _ _)
  | smoothCalConfig period plusPulses minusPulses =>
      exact leaves_dropStatus
        (leaves_of_calm (ertcSmoothCalBody_calm period plusPulses minusPulses))
  | outputConfig output outputPolarity => exact leaves_of_calm (keepAndSet_calm _ _ _)
  | timeStampCmd timeStampEdge newState =>
      exact leaves_of_read (fun _ => rfl) fun _ => leaves_of_calm (writeReg_calm _ _)
  | intConfig int newState =>
      exact leaves_of_calm
        (Prog.accesses_bind (enableBits_calm _ _ _) fun _ => enableBits_calm _ _ _)

/-- The call, and what the hardware shows during it. -/
def ertcStep (c : ErtcCall × (Nat → Word)) (s : Ertc) : Ertc :=
  (c.1.body.exec { s with answers := c.2, reads := 0 }).2

theorem ertcStep_atRest (c : ErtcCall × (Nat → Word)) {s : Ertc} (hs : s.AtRest) :
    (ertcStep c s).AtRest ↔ c.1.GivesBack c.2 0 :=
  c.1.body_leaves _ ⟨hs.protection, hs.initm⟩

/-- **Every call returns with the protection on and the initialization mode not requested, if and only
    if each call that requests the mode is answered by `INITF`, and each reset, unless the mode was on
    already, by `WATWF` as well.** -/
theorem ertc_protect_iff (calls : List (ErtcCall × (Nat → Word))) (s : Ertc) (hs : s.AtRest) :
    Calls.All ertcStep (fun _ _ s' => s'.AtRest) calls s ↔
      ∀ c ∈ calls, c.1.GivesBack c.2 0 :=
  Calls.all_iff (I := Ertc.AtRest) (fun c _ hs => ertcStep_atRest c hs) (fun _ _ _ h => h) hs

/-- The ERTC after a reset of the chip. -/
def idleErtc : Ertc where
  ists := 0x00000007
  protection := .on
  regs := fun _ => 0
  answers := fun _ => 0
  reads := 0
  held := false

theorem idleErtc_atRest : idleErtc.AtRest := ⟨rfl, by unfold Ertc.InitmClear; decide⟩

theorem ertc_protect_answered :
    Calls.All ertcStep (fun _ _ s' => s'.AtRest)
      [(.refClockCmd true, fun _ => istsInitf), (.reset, fun _ => istsInitf)] idleErtc := by
  refine (ertc_protect_iff _ _ idleErtc_atRest).mpr fun c hc => ?_
  have hshows : Shows istsInitf (fun _ => istsInitf) 0 := by unfold Shows; decide
  simp only [List.mem_cons, List.not_mem_nil, or_false] at hc
  rcases hc with rfl | rfl
  · exact .inl hshows
  · exact .inl hshows

/-- `INITF` does not come, and the calendar stays stopped. -/
theorem ertc_protect_fails :
    ¬ ∀ (calls : List (ErtcCall × (Nat → Word))) (s : Ertc), s.AtRest →
      Calls.All ertcStep (fun _ _ s' => s'.AtRest) calls s := by
  intro h
  have hrest := (h [(.refClockCmd true, fun _ => 0)] idleErtc idleErtc_atRest).1
  have hanswered := (ertcStep_atRest (.refClockCmd true, fun _ => 0) idleErtc_atRest).mp hrest
  rcases hanswered with h | h
  · simp [Shows] at h
  · simp [Shows] at h

end At32
