import McuDrivers.At32.ErtcIsts
import McuDrivers.Library.Interleave

set_option autoImplicit false

/-! # AT32F4xx: event flags while the ERTC is configured

The hardware sets event flags whenever it likes. `ISTS &= mask` clears none that it has read, but it
writes a 0 to those that came after the read. So an event is lost if it comes between the read and the
store of `ERTC_ExitInitMode` or `ERTC_WaitForSynchro`, or before the 0 that `ERTC_Reset` stores; of all
other runs it is shown that a flag goes only when a call that clears flags names it. -/

namespace At32

variable {α β : Type} {s : Ertc}

/-! ## The hardware -/

def Ertc.raise (e : Word) (s : Ertc) : Ertc := { s with ists := s.ists ||| (e &&& istsEvents) }

/-- The hardware sets event flags. -/
def Raises (s s' : Ertc) : Prop := ∃ e, s' = s.raise e

/-- It sets none while a value of `ISTS` that was read is to be stored back. -/
def RaisesOutside (s s' : Ertc) : Prop := Raises s s' ∧ (s.held = true → s' = s)

theorem Ertc.HasEvent.raise {i : Nat} (h : s.HasEvent i) (e : Word) : (s.raise e).HasEvent i :=
  ⟨h.1, by simp [Ertc.raise, h.2]⟩

theorem RaisesOutside.notHeld : Prog.Stable RaisesOutside fun s => s.held = false := by
  rintro s s' hs ⟨⟨e, rfl⟩, -⟩
  exact hs

/-- Nothing changes while a value is held. -/
theorem RaisesOutside.window {s' : Ertc} (h : Relation.ReflTransGen RaisesOutside s s')
    (hs : s.held = true) : s' = s := by
  induction h with
  | refl => rfl
  | tail _ hstep ih =>
      rw [ih] at hstep
      exact hstep.2 hs

/-! ## The calls -/

/-- The functions that write `ISTS`, and those that are built on them. -/
inductive IstsCall where
  | clearFlag (flag : Word)
  | clearIntPendingBint (int : Word)
  | enterInitMode
  | exitInitMode
  | config (c : ErtcCall)

def IstsCall.body : IstsCall → ErtcProg Unit
  | clearFlag flag => ertcClearFlag flag
  | clearIntPendingBint int => ertcClearIntPendingBint int
  | enterInitMode => dropStatus ertcEnterInitMode
  | exitInitMode => ertcExitInitMode
  | config c => c.body

/-- The flags that a call is told to clear. -/
def IstsCall.named : IstsCall → Word
  | clearFlag flag => flag
  | clearIntPendingBint int => int >>> 4
  | _ => 0

def ertcSystem (hw : Ertc → Ertc → Prop) : System Ertc IstsCall Unit := ⟨hw, IstsCall.body⟩

/-- No flag is set when `ERTC_Reset` stores 0. -/
def quietReset : Discipline Ertc IstsCall :=
  .onAccess fun k s s' => k = .config .reset → s' = s.storeIsts 0 → ∀ i, ¬ s.HasEvent i

/-! ## What the accesses do to the flags -/

/-- Flags go only if the call names them. -/
def IstsCall.ClearsNamed (k : IstsCall) (s s' : Ertc) : Prop :=
  ∀ i, s.HasEvent i → ¬ s'.HasEvent i → k.named.getLsbD i = true

/-- `p` clears only named flags, and holds no value when it is over. -/
def Safe (k : IstsCall) (p : ErtcProg α) : Prop :=
  ∀ s : Ertc, s.held = false →
    p.wp RaisesOutside (quietReset.access k) k.ClearsNamed (fun _ s => s.held = false) s

variable {k : IstsCall}

theorem IstsCall.ClearsNamed.of_keeps {s' : Ertc} (h : ∀ i, s.HasEvent i → s'.HasEvent i) :
    k.ClearsNamed s s' :=
  fun i hi hnot => absurd (h i hi) hnot

theorem safe_bind {p : ErtcProg α} {q : α → ErtcProg β} (hp : Safe k p) (hq : ∀ a, Safe k (q a)) :
    Safe k (p >>= q) :=
  fun s hs => Prog.wp_seq (hp s hs) fun a s' hs' => hq a s' hs'

theorem safe_ret (a : α) : Safe k (.ret a) := fun _ hs => hs

theorem safe_of_calm {p : ErtcProg α} (hp : p.Accesses Calm) : Safe k p := by
  intro s hs
  refine Prog.wp_of_admitted hp RaisesOutside.notHeld (fun s s' hs _ hcalm => ?_) hs
  exact ⟨.of_keeps hcalm.events, hcalm.held.trans hs⟩

theorem writeIsts_safe {v : Word}
    (hv : ∀ s : Ertc, quietReset.access k s (s.storeIsts v) → k.ClearsNamed s (s.storeIsts v)) :
    Safe k (writeIsts v) := by
  intro s hs
  refine Prog.wp_put RaisesOutside.notHeld hs fun s _ hadmitted => ?_
  exact ⟨hv s hadmitted, rfl⟩

theorem writeWpr_safe (key : BitVec 8) : Safe k (writeWpr key) := by
  intro s hs
  refine Prog.wp_put RaisesOutside.notHeld hs fun s hs _ => ?_
  exact ⟨.of_keeps fun _ hi => hi, hs⟩

theorem unprotected_safe {body : ErtcProg α} (hbody : Safe k body) : Safe k (unprotected body) :=
  safe_bind (writeWpr_safe _) fun _ => safe_bind (writeWpr_safe _) fun _ =>
    safe_bind hbody fun a => safe_bind (writeWpr_safe _) fun _ => safe_ret a

/-- What was read is stored, and nothing came since. -/
theorem istsAnd_safe {mask : Word} (hmask : mask &&& istsEvents = istsEvents) :
    Safe k (istsAnd mask) := by
  intro s hs s1 hs1 _
  refine ⟨.of_keeps (Calm.shown s1).events, fun s2 hs2 _ => ?_⟩
  have hsame : s2 = { s1.shown with held := true } := RaisesOutside.window hs2 rfl
  rw [hsame]
  refine ⟨.of_keeps fun i hi => storeIsts_event hi ?_, rfl⟩
  have hbit : mask.getLsbD i = true := by
    have hevent := hi.1
    rw [← hmask, BitVec.getLsbD_and, Bool.and_eq_true] at hevent
    exact hevent.1
  rw [BitVec.getLsbD_and, hbit, Bool.and_true]
  exact hi.2

/-! ## The functions -/

theorem clearIsts_safe {flag : Word} (hk : k.named = flag) : Safe k (clearIsts flag) := by
  refine safe_bind (safe_of_calm readIsts_calm) fun v => writeIsts_safe fun s _ i hi hnot => ?_
  rw [hk]
  by_contra hflag
  have hlt : i < 32 := BitVec.lt_of_getLsbD hi.2
  have hinitm := initm_of_event hi.1
  refine hnot (storeIsts_event hi ?_)
  rw [Bool.not_eq_true] at hflag
  simp only [BitVec.getLsbD_or, BitVec.getLsbD_not, BitVec.getLsbD_and, hflag, hinitm, hlt,
    decide_true, Bool.or_self, Bool.false_and, Bool.not_false, Bool.and_true, Bool.true_or]

/-- The request is stored with a 1 to every flag. -/
theorem ertcEnterInitMode_safe : Safe k ertcEnterInitMode := by
  refine safe_bind (safe_of_calm readIsts_calm) fun v => ?_
  split
  · refine safe_bind (writeIsts_safe fun s _ => .of_keeps fun i hi => storeIsts_event hi ?_)
      fun _ => safe_of_calm (Prog.accesses_bind (waitSet_calm _ _) fun _ => checkSet_calm _)
    have hlt : i < 32 := BitVec.lt_of_getLsbD hi.2
    have hones : ertcInitMask = BitVec.allOnes 32 := by decide
    rw [hones, BitVec.getLsbD_allOnes]
    simpa using hlt
  · exact safe_ret _

theorem ertcExitInitMode_safe : Safe k ertcExitInitMode := istsAnd_safe (by decide)

theorem ertcWaitForSynchro_safe : Safe k ertcWaitForSynchro :=
  unprotected_safe (safe_bind (istsAnd_safe (by decide)) fun _ =>
    safe_of_calm (Prog.accesses_bind (waitSet_calm _ _) fun _ => checkSet_calm _))

theorem inInitMode_safe {body : ErtcProg Unit} (hbody : body.Accesses Calm) :
    Safe k (inInitMode body) := by
  refine safe_bind ertcEnterInitMode_safe fun status => ?_
  split
  · exact safe_ret _
  · exact safe_bind (safe_of_calm hbody) fun _ => safe_bind ertcExitInitMode_safe fun _ => safe_ret _

theorem setCalendar_safe (r : ErtcReg) (v : Word) : Safe k (setCalendar r v) := by
  refine safe_bind (inInitMode_safe (writeReg_calm r v)) fun status => ?_
  split
  · exact safe_ret _
  · refine safe_bind (safe_of_calm (readReg_calm _)) fun ctrl => ?_
    split
    · exact ertcWaitForSynchro_safe
    · exact safe_ret _

theorem ertcSynchroShiftConfig_safe (shiftAdd1S shiftSubFS : Word) :
    Safe k (ertcSynchroShiftConfig shiftAdd1S shiftSubFS) := by
  refine unprotected_safe (safe_bind (safe_of_calm (waitPending_calm _ _)) fun _ => ?_)
  refine safe_bind (safe_of_calm readIsts_calm) fun v => ?_
  split
  · refine safe_bind (safe_of_calm (readReg_calm _)) fun ctrl => ?_
    split
    · exact safe_bind (safe_of_calm (writeReg_calm _ _)) fun _ => ertcWaitForSynchro_safe
    · exact safe_ret _
  · exact safe_ret _

theorem dropStatus_safe {p : ErtcProg ErrorStatus} (hp : Safe k p) : Safe k (dropStatus p) :=
  safe_bind hp fun _ => safe_ret _

theorem ertcReset_safe : Safe (.config .reset) ertcReset := by
  refine unprotected_safe (safe_bind ertcEnterInitMode_safe fun status => ?_)
  split
  · exact safe_ret _
  · refine safe_bind (safe_of_calm (writeReg_calm _ _)) fun _ =>
      safe_bind (safe_of_calm (writeReg_calm _ _)) fun _ =>
      safe_bind (safe_of_calm (keepBits_calm _ _)) fun _ =>
      safe_bind (safe_of_calm (waitSet_calm _ _)) fun _ =>
      safe_bind (safe_of_calm (checkSet_calm _)) fun status => ?_
    split
    · exact safe_ret _
    · refine safe_bind (safe_of_calm (keepBits_calm _ _)) fun _ =>
        safe_bind (safe_of_calm (writeRegs_calm _)) fun _ =>
        safe_bind (writeIsts_safe fun s hquiet i hi => ?_) fun _ =>
        safe_bind (safe_of_calm (writeReg_calm _ _)) fun _ => ertcWaitForSynchro_safe
      exact absurd hi (hquiet rfl rfl i)

theorem ErtcCall.body_safe (c : ErtcCall) : Safe (.config c) c.body := by
  have hmode : ∀ {k : IstsCall} {body : ErtcProg Unit}, body.Accesses Calm →
      Safe k (dropStatus (unprotected (inInitMode body))) :=
    fun hbody => dropStatus_safe (unprotected_safe (inInitMode_safe hbody))
  have hcalm : ∀ {k : IstsCall} {α : Type} {body : ErtcProg α}, body.Accesses Calm →
      Safe k (unprotected body) :=
    fun hbody => unprotected_safe (safe_of_calm hbody)
  cases c with
  | init initStruct =>
      exact hmode (Prog.accesses_bind (keepBits_calm _ _) fun _ =>
        Prog.accesses_bind (setBits_calm _ _) fun _ =>
          Prog.accesses_bind (writeReg_calm _ _) fun _ => setBits_calm _ _)
  | reset => exact dropStatus_safe ertcReset_safe
  | waitForSynchro => exact dropStatus_safe ertcWaitForSynchro_safe
  | setTimeValue format timeStruct =>
      exact dropStatus_safe (safe_bind (safe_of_calm (withHourFormat_calm _)) fun _ =>
        unprotected_safe (setCalendar_safe _ _))
  | setDateValue format dateStruct =>
      exact dropStatus_safe (unprotected_safe (setCalendar_safe _ _))
  | bypassShadowCmd newState => exact hcalm (enableBits_calm _ _ _)
  | refClockCmd newState => exact hmode (enableBits_calm _ _ _)
  | dayLightSavingConfig dayLightSaving storeOperation => exact hcalm (keepAndSet_calm _ _ _)
  | synchroShiftConfig shiftAdd1S shiftSubFS =>
      exact dropStatus_safe (ertcSynchroShiftConfig_safe shiftAdd1S shiftSubFS)
  | setAlarmValue format alarm alarmStruct =>
      exact safe_bind (safe_of_calm (withHourFormat_calm _)) fun _ => hcalm (writeReg_calm _ _)
  | alarmCmd alarm newState => exact dropStatus_safe (hcalm (enableAndWait_calm _ _ _))
  | alarmSubSecondConfig alarm value mask => exact hcalm (writeReg_calm _ _)
  | wakeUpClockConfig wakeUpClock => exact hcalm (keepAndSet_calm _ _ _)
  | setWakeUpCounter wakeUpCounter => exact hcalm (writeReg_calm _ _)
  | wakeUpCmd newState => exact dropStatus_safe (hcalm (enableAndWait_calm _ _ _))
  | coarseCalConfig calSign value => exact hmode (writeReg_calm _ _)
  | coarseCalCmd newState => exact hmode (enableBits_calm _ _ _)
  | calOutputCmd newState => exact hcalm (enableBits_calm _ _ _)
  | calOutputConfig calOutput => exact hcalm (keepAndSet_calm _ _ _)
  | smoothCalConfig period plusPulses minusPulses =>
      exact dropStatus_safe (hcalm (ertcSmoothCalBody_calm period plusPulses minusPulses))
  | outputConfig output outputPolarity => exact hcalm (keepAndSet_calm _ _ _)
  | timeStampCmd timeStampEdge newState =>
      exact safe_bind (safe_of_calm (readReg_calm _)) fun _ => hcalm (writeReg_calm _ _)
  | intConfig int newState =>
      exact hcalm (Prog.accesses_bind (enableBits_calm _ _ _) fun _ => enableBits_calm _ _ _)

theorem IstsCall.body_safe (k : IstsCall) : Safe k k.body := by
  cases k with
  | clearFlag flag => exact clearIsts_safe rfl
  | clearIntPendingBint int => exact clearIsts_safe rfl
  | enterInitMode => exact dropStatus_safe ertcEnterInitMode_safe
  | exitInitMode => exact ertcExitInitMode_safe
  | config c => exact c.body_safe

/-! ## Runs -/

/-- In every run from `s`, with no value held at first, an event flag goes from 1 to 0 only in an access
    of a call that names it. -/
def NoEventLost (sys : System Ertc IstsCall Unit) (D : Discipline Ertc IstsCall) (s : Ertc) : Prop :=
  ∀ c c' : Config Ertc IstsCall Unit,
    sys.Reach D (.start { s with held := false }) c → sys.Step D c c' →
      ∀ i, c.st.HasEvent i → ¬ c'.st.HasEvent i → ∃ k, sys.Access D k c c' ∧ k.named.getLsbD i = true

theorem ertc_sound : (ertcSystem RaisesOutside).Sound quietReset (fun _ s => s.held = false)
    IstsCall.ClearsNamed where
  hw := fun _ => RaisesOutside.notHeld
  body := fun k _ s hs _ => k.body_safe s hs

/-- **No event is lost in the runs in which none comes between the read and the store of an
    `ISTS &= mask`, and none is set when `ERTC_Reset` stores 0.** -/
theorem ertc_event_kept (s : Ertc) : NoEventLost (ertcSystem RaisesOutside) quietReset s := by
  intro c c' hreach hstep i hi hnot
  cases hstep with
  | hw hraise =>
      obtain ⟨⟨e, rfl⟩, -⟩ := hraise
      exact absurd (hi.raise e) hnot
  | access haccess =>
      exact ⟨_, haccess, ertc_sound.guarantee rfl hreach haccess i hi hnot⟩
  | ret => exact absurd hi hnot

/-- Alarm A comes when `ERTC_ExitInitMode` has read `ISTS` and not yet stored it. -/
theorem ertc_event_lost : ¬ ∀ s, NoEventLost (ertcSystem Raises) .any s := by
  intro h
  let s : Ertc := {
    ists := 0
    protection := .on
    regs := fun _ => 0
    answers := fun _ => 0
    reads := 0
    held := false }
  let read : Ertc := { s.shown with held := true }
  let rest : ErtcProg Unit := writeIsts (s.shown.ists &&& ~~~istsInitm)
  let stored : Ertc := (read.raise 0x100).storeIsts (s.shown.ists &&& ~~~istsInitm)
  have hbody : (ertcSystem Raises).body .exitInitMode =
      .act (fun s => { s.shown with held := true })
        fun s => writeIsts (s.shown.ists &&& ~~~istsInitm) := rfl
  have hread : (ertcSystem Raises).Step .any (.start s) ⟨read, some (.exitInitMode, rest), []⟩ :=
    .access (.first hbody trivial trivial)
  have halarm : (ertcSystem Raises).Step .any ⟨read, some (.exitInitMode, rest), []⟩
      ⟨read.raise 0x100, some (.exitInitMode, rest), []⟩ :=
    .hw ⟨0x100, rfl⟩
  have hstore : (ertcSystem Raises).Step .any ⟨read.raise 0x100, some (.exitInitMode, rest), []⟩
      ⟨stored, some (.exitInitMode, .ret ()), []⟩ :=
    .access (.later trivial)
  have hlost : ¬ stored.HasEvent 8 := by
    intro hevent
    have hgone : stored.ists.getLsbD 8 = false := storeIsts_lost (by decide) (by decide)
    rw [hevent.2] at hgone
    cases hgone
  obtain ⟨k, haccess, hnamed⟩ :=
    h s _ _ (.tail (.single hread) halarm) hstore 8 ⟨by decide, by decide⟩ hlost
  rw [haccess.running] at hnamed
  simp [IstsCall.named] at hnamed

end At32
