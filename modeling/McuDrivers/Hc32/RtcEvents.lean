import McuDrivers.Hc32.Rtc

set_option autoImplicit false

/-! # HC32L13x: event flags of the RTC

The alarm flag and the periodic flag share `CR1` with everything that is changed in it, so each change
is a window in which a flag that comes is stored as 0. `Rtc_AlmIeCmd` moreover clears the periodic flag
itself. In runs without either, a flag goes only where it is meant to. -/

namespace Hc32

/-! ## The hardware -/

def Rtc.raise (e : Word) (s : Rtc) : Rtc :=
  { s with regs := Function.update s.regs .cr1 (s.regs .cr1 ||| (e &&& RtcCr1.events)) }

/-- The hardware sets event flags. -/
def RtcRaises (s s' : Rtc) : Prop := ∃ e, s' = s.raise e

theorem rtcRaises_raising : rtcCr1.Raising RtcRaises := by
  rintro s s' ⟨e, rfl⟩
  refine ⟨rfl, fun i hi => ⟨hi.1, ?_⟩⟩
  have hval : (s.regs .cr1).getLsbD i = true := hi.2
  change (Function.update s.regs .cr1 (s.regs .cr1 ||| (e &&& RtcCr1.events)) .cr1).getLsbD i = true
  rw [Function.update_self, BitVec.getLsbD_or, hval]
  rfl

/-! ## The calls -/

/-- The functions that write registers. -/
inductive RtcCall where
  | cmd (newState : Bool)
  | startWait (rounds : Nat)
  | hz1Cmd (pricision newState : Bool)
  | setCyc (pstCyc : StcRtcCyccfg)
  | almIeCmd (newState : Bool)
  | almEnCmd (newState : Bool)
  | clearAlmfItStatus
  | clearPrdfItStatus
  | compCfg (compVlue : BitVec 16) (newStatus : Word)
  | readDateTime (rounds : Nat) (time : StcRtcTime)
  | setTime (rounds : Nat) (time : StcRtcTime)
  | setAlarmTime (pstcAlarmTime : StcRtcAlarmtime)
  | init (rounds : Nat) (rtcInitStruct : StcRtcInitstruct)

/-- The result of a call is dropped. -/
def dropResult {α : Type} (p : RtcProg α) : RtcProg Unit := do
  let _ ← p
  return

def RtcCall.body : RtcCall → RtcProg Unit
  | cmd newState => rtcCmd newState
  | startWait rounds => rtcStartWait rounds
  | hz1Cmd pricision newState => rtcHz1Cmd pricision newState
  | setCyc pstCyc => dropResult (rtcSetCyc pstCyc)
  | almIeCmd newState => rtcAlmIeCmd newState
  | almEnCmd newState => rtcAlmEnCmd newState
  | clearAlmfItStatus => rtcClearAlmfItStatus
  | clearPrdfItStatus => rtcClearPrdfItStatus
  | compCfg compVlue newStatus => dropResult (rtcCompCfg compVlue newStatus)
  | readDateTime rounds time => dropResult (rtcReadDateTime rounds time)
  | setTime rounds time => dropResult (rtcSetTime rounds time)
  | setAlarmTime pstcAlarmTime => dropResult (rtcSetAlarmTime pstcAlarmTime)
  | init rounds rtcInitStruct => rtcInit rounds rtcInitStruct

/-- The flags that a call may clear: `PRDF` is bit 3, `ALMF` bit 4. -/
def RtcCall.named : RtcCall → Word
  | clearPrdfItStatus => 0x08
  | clearAlmfItStatus => 0x10
  | almIeCmd _ => 0x10
  | _ => 0

def rtcSystem (hw : Rtc → Rtc → Prop) : System Rtc RtcCall Unit := ⟨hw, RtcCall.body⟩

/-- The periodic flag is not set when `Rtc_AlmIeCmd` stores a 0 to it. -/
def quietAlmIe : Discipline Rtc RtcCall :=
  .onAccess fun k s _ => ∀ newState, k = .almIeCmd newState →
    s.pending = some (~~~((1 : Word) <<< 3)) → ¬ rtcCr1.Has s 3

/-! ## What each function clears -/

variable {A : Rtc → Rtc → Prop} {m : Word} {α : Type}

/-- `p` clears only the flags of `m`. -/
abbrev RtcSafe (A : Rtc → Rtc → Prop) (m : Word) (p : RtcProg α) : Prop :=
  rtcCr1.Safe RtcRaises A m p

theorem readReg_calm (r : RtcReg) : (readReg r).Accesses rtcCr1.Calm :=
  ⟨fun _ => .of_eq rfl rfl, fun _ => trivial⟩

theorem readWaitf_calm : readWaitf.Accesses rtcCr1.Calm :=
  ⟨fun _ => .of_eq rfl rfl, fun _ => trivial⟩

theorem writeReg_calm {r : RtcReg} (hr : r ≠ .cr1) (v : Word) :
    (writeReg r v).Accesses rtcCr1.Calm :=
  (Prog.accesses_put _ _).mpr fun _ => .of_eq rfl (Function.update_of_ne hr.symm _ _)

theorem writeField_calm {r : RtcReg} {n : Nat} (hr : r ≠ .cr1) (field : BitField 32)
    (v : BitVec n) : (writeField r field v).Accesses rtcCr1.Calm :=
  Prog.accesses_bind (readReg_calm r) fun _ => writeReg_calm hr _

theorem waitWaitf_calm (v : Bool) (rounds : Nat) : (waitWaitf v rounds).Accesses rtcCr1.Calm :=
  waitWaitf_accesses readWaitf_calm v rounds

theorem pollLoop_calm (spent : Word) (offset n : Nat) :
    (pollLoop spent offset n).Accesses rtcCr1.Calm :=
  pollLoop_accesses readWaitf_calm spent offset n

theorem readByte_calm (r : RtcReg) : (readByte r).Accesses rtcCr1.Calm :=
  Prog.accesses_bind (readReg_calm r) fun _ => trivial

theorem readTime_calm : readTime.Accesses rtcCr1.Calm :=
  Prog.accesses_bind (readByte_calm _) fun _ => Prog.accesses_bind (readByte_calm _) fun _ =>
    Prog.accesses_bind (readReg_calm _) fun _ => Prog.accesses_bind (readByte_calm _) fun _ =>
      Prog.accesses_bind (readByte_calm _) fun _ => Prog.accesses_bind (readByte_calm _) fun _ =>
        Prog.accesses_bind (readByte_calm _) fun _ => Prog.accesses_bind (readByte_calm _) fun _ =>
          trivial

theorem writeTime_calm (time : StcRtcTime) : (writeTime time).Accesses rtcCr1.Calm := by
  have hbyte : ∀ {r : RtcReg} (v : BitVec 8), r ≠ .cr1 → (writeByte r v).Accesses rtcCr1.Calm :=
    fun v hr => writeReg_calm hr _
  exact Prog.accesses_bind (hbyte _ (by decide)) fun _ =>
    Prog.accesses_bind (hbyte _ (by decide)) fun _ =>
    Prog.accesses_bind (hbyte _ (by decide)) fun _ =>
    Prog.accesses_bind (hbyte _ (by decide)) fun _ =>
    Prog.accesses_bind (hbyte _ (by decide)) fun _ =>
    Prog.accesses_bind (hbyte _ (by decide)) fun _ => hbyte _ (by decide)

theorem safe_of_calm {p : RtcProg α} (hp : p.Accesses rtcCr1.Calm) : RtcSafe A m p :=
  EventReg.safe_of_calm rtcRaises_raising hp

theorem safe_bind {β : Type} {p : RtcProg α} {q : α → RtcProg β} (hp : RtcSafe A m p)
    (hq : ∀ a, RtcSafe A m (q a)) : RtcSafe A m (p >>= q) :=
  EventReg.safe_bind hp hq

theorem safe_ret (a : α) : RtcSafe A m (.ret a : RtcProg α) := EventReg.safe_ret a

theorem dropResult_safe {p : RtcProg α} (hp : RtcSafe A m p) : RtcSafe A m (dropResult p) :=
  safe_bind hp fun _ => safe_ret _

/-- A change clears what its mask leaves out, and of the events only that. -/
theorem change_safe {keep set : Word} (hkeep : ~~~keep &&& RtcCr1.events &&& ~~~m = 0) :
    RtcSafe A m (rtcCr1.change keep set) := by
  refine EventReg.safe_change rtcRaises_raising fun i hflag hk => ?_
  have hev : RtcCr1.events.getLsbD i = true := hflag
  have hlt : i < 32 := BitVec.lt_of_getLsbD hflag
  have hbit := congrArg (·.getLsbD i) hkeep
  simp only [BitVec.getLsbD_and, BitVec.getLsbD_not, hev, hk, hlt, decide_true, Bool.not_false,
    Bool.true_and, BitVec.ofNat_eq_ofNat, BitVec.getLsbD_zero] at hbit
  simpa using hbit

theorem keepsEvents (m : Word) {keep : Word} (h : ~~~keep &&& RtcCr1.events = 0) :
    ~~~keep &&& RtcCr1.events &&& ~~~m = 0 := by
  rw [h]
  exact BitVec.zero_and

theorem setBit_safe {offset : Nat} (h : (1 : Word) <<< offset &&& RtcCr1.events = 0)
    (bFlag : Bool) : RtcSafe A m (setBit offset bFlag) := by
  unfold setBit
  split
  · exact change_safe (keepsEvents m (by decide))
  · exact change_safe (keepsEvents m (by rwa [BitVec.not_not]))

theorem writeWait_safe (v : Bool) : RtcSafe A m (writeWait v) :=
  change_safe (keepsEvents m (by decide))

theorem requestAccess_safe {poll : RtcProg Word} (hpoll : poll.Accesses rtcCr1.Calm) :
    RtcSafe A m (requestAccess poll) := by
  refine safe_bind (safe_of_calm (readReg_calm _)) fun cr0 => ?_
  split
  · exact safe_bind (writeWait_safe _) fun _ => safe_bind (safe_of_calm hpoll) fun _ => safe_ret _
  · exact safe_ret _

theorem releaseAccess_safe (rounds : Nat) : RtcSafe A m (releaseAccess rounds) := by
  refine safe_bind (writeWait_safe _) fun _ =>
    safe_bind (safe_of_calm (readReg_calm _)) fun cr0 => ?_
  split
  · exact safe_of_calm (waitWaitf_calm _ _)
  · exact safe_ret _

theorem rtcStartWait_safe (rounds : Nat) : RtcSafe A m (rtcStartWait rounds) := by
  refine safe_bind (writeWait_safe _) fun _ =>
    safe_bind (safe_of_calm (waitWaitf_calm _ _)) fun started => ?_
  split
  · exact safe_bind (writeWait_safe _) fun _ =>
      safe_bind (safe_of_calm (waitWaitf_calm _ _)) fun _ => safe_ret _
  · exact safe_ret _

theorem rtcReadDateTime_safe (rounds : Nat) (time : StcRtcTime) :
    RtcSafe A m (rtcReadDateTime rounds time) := by
  refine safe_bind (requestAccess_safe (pollLoop_calm _ _ _)) fun granted => ?_
  split
  · exact safe_bind (safe_of_calm readTime_calm) fun _ =>
      safe_bind (releaseAccess_safe rounds) fun _ => safe_ret _
  · exact safe_ret _

theorem rtcSetTime_safe (rounds : Nat) (time : StcRtcTime) :
    RtcSafe A m (rtcSetTime rounds time) := by
  refine safe_bind (requestAccess_safe (pollLoop_calm _ _ _)) fun granted => ?_
  split
  · exact safe_bind (safe_of_calm (writeTime_calm time)) fun _ =>
      safe_bind (releaseAccess_safe rounds) fun _ => safe_ret _
  · exact safe_ret _

theorem writeCr0_safe {n : Nat} (field : BitField 32) (v : BitVec n) :
    RtcSafe A m (writeField .cr0 field v) :=
  safe_of_calm (writeField_calm (by decide) _ _)

theorem rtcSetCyc_safe (pstCyc : StcRtcCyccfg) : RtcSafe A m (rtcSetCyc pstCyc) := by
  refine safe_bind (writeCr0_safe _ _) fun _ => ?_
  split
  · exact safe_bind (writeCr0_safe _ _) fun _ => safe_ret _
  · split
    · split
      · exact safe_ret _
      · exact safe_bind (writeCr0_safe _ _) fun _ => safe_ret _
    · exact safe_ret _

theorem rtcCompCfg_safe (compVlue : BitVec 16) (newStatus : Word) :
    RtcSafe A m (rtcCompCfg compVlue newStatus) := by
  unfold rtcCompCfg
  split
  · exact safe_bind (safe_of_calm (writeField_calm (by decide) _ _)) fun _ =>
      safe_bind (safe_of_calm (writeField_calm (by decide) _ _)) fun _ => safe_ret _
  · exact safe_ret _

theorem rtcSetAlarmTime_safe (pstcAlarmTime : StcRtcAlarmtime) :
    RtcSafe A m (rtcSetAlarmTime pstcAlarmTime) := by
  have hbyte : ∀ {r : RtcReg} (v : BitVec 8), r ≠ .cr1 → RtcSafe A m (writeByte r v) :=
    fun v hr => safe_of_calm (writeReg_calm hr _)
  refine safe_bind (setBit_safe (by decide) _) fun _ =>
    safe_bind (safe_of_calm (readReg_calm _)) fun cr0 => ?_
  split
  · split
    · exact safe_bind (hbyte _ (by decide)) fun _ => safe_bind (hbyte _ (by decide)) fun _ =>
        safe_bind (hbyte _ (by decide)) fun _ => safe_bind (setBit_safe (by decide) _) fun _ =>
        safe_ret _
    · exact safe_ret _
  · exact safe_ret _

/-- The first of its changes clears the periodic flag, which is not set by assumption. -/
theorem rtcAlmIeCmd_safe (newState : Bool) :
    RtcSafe (quietAlmIe.access (.almIeCmd newState)) 0x10 (rtcAlmIeCmd newState) := by
  refine safe_bind ?_ fun _ => safe_bind (change_safe (by decide)) fun _ =>
    setBit_safe (by decide) newState
  refine EventReg.safe_change_of rtcRaises_raising fun s v hpend hquiet i hi hkeep => ?_
  have hlt : i < 32 := BitVec.lt_of_getLsbD hi.1
  have h3 : 3 = i := by
    rw [show (1 : Word) <<< 3 = BitVec.twoPow 32 3 by decide, BitVec.getLsbD_not,
      BitVec.getLsbD_twoPow] at hkeep
    simpa [hlt] using hkeep
  subst h3
  exact absurd hi (hquiet newState rfl hpend)

theorem RtcCall.body_safe (k : RtcCall) : RtcSafe (quietAlmIe.access k) k.named k.body := by
  cases k with
  | cmd newState => exact writeCr0_safe _ _
  | startWait rounds => exact rtcStartWait_safe rounds
  | hz1Cmd pricision newState => exact safe_bind (writeCr0_safe _ _) fun _ => writeCr0_safe _ _
  | setCyc pstCyc => exact dropResult_safe (rtcSetCyc_safe pstCyc)
  | almIeCmd newState => exact rtcAlmIeCmd_safe newState
  | almEnCmd newState => exact setBit_safe (by decide) newState
  | clearAlmfItStatus => exact change_safe (by decide)
  | clearPrdfItStatus => exact change_safe (by decide)
  | compCfg compVlue newStatus => exact dropResult_safe (rtcCompCfg_safe compVlue newStatus)
  | readDateTime rounds time => exact dropResult_safe (rtcReadDateTime_safe rounds time)
  | setTime rounds time => exact dropResult_safe (rtcSetTime_safe rounds time)
  | setAlarmTime pstcAlarmTime => exact dropResult_safe (rtcSetAlarmTime_safe pstcAlarmTime)
  | init rounds rtcInitStruct =>
      exact safe_bind (writeCr0_safe _ _) fun _ => safe_bind (writeCr0_safe _ _) fun _ =>
        safe_bind (rtcSetCyc_safe _) fun _ =>
        safe_bind (change_safe (keepsEvents 0 (by decide))) fun _ =>
        safe_bind (rtcCompCfg_safe _ _) fun _ => safe_bind (rtcSetTime_safe rounds _) fun _ =>
        safe_ret _

/-! ## Runs -/

/-- In every run from `s` the periodic flag goes from 1 to 0 only in `Rtc_ClearPrdfItStatus`, and the
    alarm flag only in `Rtc_ClearAlmfItStatus` or `Rtc_AlmIeCmd`. -/
def NoRtcEventLost (hw : Rtc → Rtc → Prop) (D : Discipline Rtc RtcCall) (s : Rtc) : Prop :=
  rtcCr1.NoneLost RtcCall.named (rtcSystem hw) D s

/-- **No event is lost in the runs in which none comes between the read and the store of a change of
    `CR1` that keeps it, and the periodic flag is not set when `Rtc_AlmIeCmd` clears it.** -/
theorem cr1_event_kept (s : Rtc) :
    NoRtcEventLost (rtcCr1.Outside RtcRaises) quietAlmIe s :=
  EventReg.none_lost rtcRaises_raising RtcCall.body_safe s

/-- The alarm comes when `Rtc_StartWait` has read `CR1` and not yet stored it with the request. -/
theorem cr1_event_lost : ¬ ∀ s, NoRtcEventLost RtcRaises .any s := by
  intro h
  let s : Rtc :=
    { regs := fun _ => 0, pending := none, waitf := fun _ => true, polls := 0, log := [] }
  let read : Rtc := { s with pending := some (~~~RtcCr1.wait) }
  let rest (s : Rtc) : RtcProg Unit :=
    .act (Rtc.storeCr1 ((s.regs .cr1 &&& ~~~RtcCr1.wait) ||| RtcCr1.wait)) fun _ => do
      let started ← waitWaitf true 1
      if started then do
        writeWait false
        let _ ← waitWaitf false 1
        return
      else return
  have hbody : (rtcSystem RtcRaises).body (.startWait 1) =
      .act (rtcCr1.hold (some (~~~RtcCr1.wait))) rest := rfl
  have hread : (rtcSystem RtcRaises).Step .any (.start (rtcCr1.hold none s))
      ⟨read, some (.startWait 1, rest s), []⟩ :=
    .access (.first hbody trivial trivial)
  have halarm : (rtcSystem RtcRaises).Step .any ⟨read, some (.startWait 1, rest s), []⟩
      ⟨read.raise 0x10, some (.startWait 1, rest s), []⟩ :=
    .hw ⟨0x10, rfl⟩
  have hset : rtcCr1.Has (read.raise 0x10) 4 := ⟨by decide, by decide⟩
  have hclear : ¬ rtcCr1.Has s 4 := fun hs => by
    have hbit : (0 : Word).getLsbD 4 = true := hs.2
    simp at hbit
  exact EventReg.not_noneLost (.tail (.single hread) halarm) hset hclear (by decide) (by decide) (h s)

end Hc32
