import McuDrivers.Hc32.Rtc

set_option autoImplicit false

/-! # HC32L13x: access to the calendar

While the RTC counts, `Rtc_ReadDateTime` and `Rtc_SetTime` request access and poll `WAITF` a thousand
times or so. What the protocol asks of them is met when `WAITF` is seen set at one of the first 999
polls: the loop of `Rtc_ReadDateTime` ends with a counter of 0 if it is seen at the last poll and not if
it is never seen, and both functions return `ErrorTimeout` without taking the request back. -/

namespace Hc32

variable {s : Rtc}

/-! ## The protocol -/

def Rtc.Running (s : Rtc) : Prop := startOf (s.regs .cr0) = 1

/-- `CR1.WAIT` -/
def waitOf (cr1 : Word) : Bool := cr1.getLsbD 0

/-- Whether access is granted after this history: the last poll since `CR1` was written saw `WAITF`
    set. -/
def granted : List RtcEvent → Bool
  | [] => false
  | .poll seen :: _ => seen
  | .write .cr1 :: _ => false
  | .write _ :: past => granted past
  | .read _ :: past => granted past

/-- Whether this is an access to the calendar. -/
def RtcEvent.touchesCalendar : RtcEvent → Bool
  | read r => r.calendar
  | write r => r.calendar
  | poll _ => false

/-- The calendar is touched only while access is granted or the clock is stopped. -/
def Rtc.Admits (s : Rtc) (e : RtcEvent) (past : List RtcEvent) : Prop :=
  e.touchesCalendar = true → ¬ s.Running ∨ granted past = true

inductive AccessCall where
  | readDateTime (time : StcRtcTime)
  | setTime (time : StcRtcTime)

def AccessCall.body (rounds : Nat) : AccessCall → RtcProg (Option RtcResult)
  | readDateTime time => do
      let r ← rtcReadDateTime rounds time
      return r.map Prod.fst
  | setTime time => rtcSetTime rounds time

/-- The polls that a call may make. -/
def AccessCall.budget : AccessCall → Nat
  | readDateTime _ => 1000
  | setTime _ => 999

/-- `WAITF` is not seen set in the next `n` polls. -/
def Rtc.NeverSeen (s : Rtc) (n : Nat) : Prop := ∀ j, j < n → s.waitf (s.polls + j) = false

/-- What a call does, from the state `s`, however long its last loop runs. -/
structure AccessProtocol (c : AccessCall) (s : Rtc) : Prop where
  timeout : ∀ rounds, ((c.body rounds).exec s).1 = some .errorTimeout ↔
    s.Running ∧ s.NeverSeen c.budget
  calendar : ∀ rounds, History.Guarded s.Admits ((c.body rounds).exec s).2.log
  released : ∀ rounds r, ((c.body rounds).exec s).1 = some r →
    waitOf (((c.body rounds).exec s).2.regs .cr1) = false

/-! ## What the pieces do -/

/-- The state after `n` polls. -/
def Rtc.polled : Nat → Rtc → Rtc
  | 0, s => s
  | n + 1, s => Rtc.polled n s.afterPoll

@[simp] theorem Rtc.polled_regs (n : Nat) (s : Rtc) : (s.polled n).regs = s.regs := by
  induction n generalizing s with
  | zero => rfl
  | succ n ih => exact ih _

theorem Rtc.waitf_afterPoll (s : Rtc) (j : Nat) :
    s.afterPoll.waitf (s.afterPoll.polls + j) = s.waitf (s.polls + (j + 1)) := by
  rw [Rtc.afterPoll, Nat.add_assoc, Nat.add_comm 1 j]

theorem Rtc.granted_polled (n : Nat) (s : Rtc) :
    granted (s.polled (n + 1)).log = s.waitf (s.polls + n) := by
  induction n generalizing s with
  | zero => rfl
  | succ n ih => rw [Rtc.polled, ih, Rtc.waitf_afterPoll]

theorem Rtc.NeverSeen.cons {n : Nat} (hfirst : s.waitf s.polls = false)
    (h : s.afterPoll.NeverSeen n) : s.NeverSeen (n + 1) := by
  intro j hj
  cases j with
  | zero => exact hfirst
  | succ j =>
      rw [← Rtc.waitf_afterPoll]
      exact h j (by omega)

/-- `WAITF` is seen set for the first time at the poll `j`, or not at all. -/
theorem pollLoop_exec (spent : Word) (offset n : Nat) (s : Rtc) :
    (∃ j, j < n ∧ s.waitf (s.polls + j) = true ∧ s.NeverSeen j ∧
      (pollLoop spent offset n).exec s =
        (BitVec.ofNat 32 (n - 1 - j + offset), s.polled (j + 1))) ∨
    s.NeverSeen n ∧ (pollLoop spent offset n).exec s = (spent, s.polled n) := by
  induction n generalizing s with
  | zero => exact .inr ⟨fun j hj => absurd hj (by omega), rfl⟩
  | succ n ih =>
      cases hseen : s.waitf s.polls with
      | true =>
          refine .inl ⟨0, by omega, hseen, fun j hj => absurd hj (by omega), ?_⟩
          simp [pollLoop, readWaitf, hseen, Rtc.polled]
      | false =>
          have hexec : (pollLoop spent offset (n + 1)).exec s =
              (pollLoop spent offset n).exec s.afterPoll := by
            simp [pollLoop, readWaitf, hseen]
          rw [hexec]
          rcases ih s.afterPoll with ⟨j, hj, hat, hbefore, hval⟩ | ⟨hnone, hval⟩
          · rw [Rtc.waitf_afterPoll] at hat
            refine .inl ⟨j + 1, by omega, hat, .cons hseen hbefore, ?_⟩
            rw [hval, show n + 1 - 1 - (j + 1) = n - 1 - j by omega]
            rfl
          · exact .inr ⟨.cons hseen hnone, hval⟩

theorem waitOf_stored (old : Word) (v : Bool) :
    waitOf (cr1Stored old ((old &&& ~~~RtcCr1.wait) ||| if v then RtcCr1.wait else 0)) = v := by
  cases v <;> simp [waitOf, cr1Stored, RtcCr1.wait, RtcCr1.events, RtcCr1.waitf]

/-- The state after `WAIT` was written. -/
def Rtc.withWait (v : Bool) (s : Rtc) : Rtc :=
  s.storeCr1 ((s.regs .cr1 &&& ~~~RtcCr1.wait) ||| if v then RtcCr1.wait else 0)

@[simp] theorem writeWait_exec (v : Bool) (s : Rtc) :
    (writeWait v).exec s = ((), s.withWait v) := rfl

@[simp] theorem Rtc.withWait_cr1 (v : Bool) (s : Rtc) : waitOf ((s.withWait v).regs .cr1) = v := by
  rw [Rtc.withWait, Rtc.storeCr1_cr1, waitOf_stored]

theorem Rtc.withWait_of_ne {r : RtcReg} (hr : r ≠ .cr1) (v : Bool) (s : Rtc) :
    (s.withWait v).regs r = s.regs r := Rtc.storeCr1_of_ne hr _ _

/-- The state in which the polls begin. -/
def Rtc.requested (s : Rtc) : Rtc := Rtc.withWait true { s with log := .read .cr0 :: s.log }

theorem requestAccess_stopped (poll : RtcProg Word) (hs : ¬ s.Running) :
    (requestAccess poll).exec s = (true, { s with log := .read .cr0 :: s.log }) := by
  have hstart : ¬ startOf (s.regs .cr0) = 1 := hs
  simp [requestAccess, readReg, hstart]

theorem requestAccess_running (poll : RtcProg Word) (hs : s.Running) :
    (requestAccess poll).exec s =
      (decide ((poll.exec s.requested).1 ≠ 0), (poll.exec s.requested).2) := by
  have hstart : startOf (s.regs .cr0) = 1 := hs
  simp only [requestAccess, readReg, Prog.act_bind, Prog.ret_bind, Prog.exec_act, hstart, if_true,
    Prog.exec_bind, writeWait_exec, Prog.pure_eq, Prog.exec_ret]
  rfl

theorem waitWaitf_regs (v : Bool) (rounds : Nat) (s : Rtc) :
    ((waitWaitf v rounds).exec s).2.regs = s.regs := by
  induction rounds generalizing s with
  | zero => rfl
  | succ rounds ih =>
      by_cases h : s.waitf s.polls = v
      · simp [waitWaitf, readWaitf, h, Rtc.afterPoll]
      · simp [waitWaitf, readWaitf, h, ih, Rtc.afterPoll]

theorem releaseAccess_cr1 (rounds : Nat) (s : Rtc) :
    waitOf (((releaseAccess rounds).exec s).2.regs .cr1) = false := by
  by_cases h : startOf (s.regs .cr0) = 1
  · simp [releaseAccess, readReg, Rtc.withWait_of_ne, h, waitWaitf_regs]
  · simp [releaseAccess, readReg, Rtc.withWait_of_ne, h]

/-! ## What a call is made of -/

def AccessCall.poll : AccessCall → RtcProg Word
  | readDateTime _ => pollThenCount
  | setTime _ => countThenPoll

def AccessCall.touch : AccessCall → RtcProg Unit
  | readDateTime _ => do
      let _ ← readTime
      return
  | setTime time => writeTime time

/-- The accesses to the registers while access is granted, newest first. -/
def AccessCall.touches : AccessCall → List RtcEvent
  | readDateTime _ =>
      [.read .year, .read .mon, .read .week, .read .day, .read .hour, .read .cr0, .read .min,
        .read .sec]
  | setTime _ =>
      [.write .week, .write .year, .write .mon, .write .day, .write .hour, .write .min, .write .sec]

theorem AccessCall.touch_log (c : AccessCall) (s : Rtc) :
    (c.touch.exec s).2.log = c.touches ++ s.log := by
  cases c <;> rfl

/-- A call goes on if access is granted, and is over otherwise. -/
theorem AccessCall.body_granted {c : AccessCall} {t : Rtc}
    (h : (requestAccess c.poll).exec s = (true, t)) (rounds : Nat) :
    (c.body rounds).exec s =
      (if ((releaseAccess rounds).exec (c.touch.exec t).2).1 then some .ok else none,
        ((releaseAccess rounds).exec (c.touch.exec t).2).2) := by
  cases c with
  | readDateTime time =>
      simp only [AccessCall.body, AccessCall.touch, AccessCall.poll, rtcReadDateTime, Prog.exec_bind,
        Prog.pure_eq, Prog.exec_ret] at h ⊢
      rw [h]
      simp only [if_true, Prog.exec_bind, Prog.exec_ret]
      split <;> rfl
  | setTime time =>
      simp only [AccessCall.body, AccessCall.touch, AccessCall.poll, rtcSetTime,
        Prog.exec_bind] at h ⊢
      rw [h]
      simp only [if_true, Prog.exec_bind]
      rfl

theorem AccessCall.body_refused {c : AccessCall} {t : Rtc}
    (h : (requestAccess c.poll).exec s = (false, t)) (rounds : Nat) :
    (c.body rounds).exec s = (some .errorTimeout, t) := by
  cases c with
  | readDateTime time =>
      simp only [AccessCall.body, AccessCall.poll, rtcReadDateTime, Prog.exec_bind] at h ⊢
      rw [h]
      rfl
  | setTime time =>
      simp only [AccessCall.body, AccessCall.poll, rtcSetTime, Prog.exec_bind] at h ⊢
      rw [h]
      rfl

/-! ## What is recorded -/

/-- What is done outside of the calendar does not matter to the history. -/
def Quiet (s₀ t t' : Rtc) : Prop :=
  History.Guarded s₀.Admits t'.log ↔ History.Guarded s₀.Admits t.log

variable {s₀ : Rtc}

theorem admits_of_quiet {e : RtcEvent} (he : e.touchesCalendar = false) (past : List RtcEvent) :
    s₀.Admits e past := by
  intro htouch
  rw [he] at htouch
  cases htouch

theorem guarded_cons_quiet {e : RtcEvent} (he : e.touchesCalendar = false)
    (past : List RtcEvent) :
    History.Guarded s₀.Admits (e :: past) ↔ History.Guarded s₀.Admits past :=
  and_iff_right (admits_of_quiet he past)

theorem quiet_exec {α : Type} {p : RtcProg α} (hp : p.Accesses (Quiet s₀)) (t : Rtc) :
    Quiet s₀ t (p.exec t).2 :=
  Prog.exec_of_accesses hp (fun _ => Iff.rfl) (fun h h' => h'.trans h) t

theorem readWaitf_quiet : readWaitf.Accesses (Quiet s₀) :=
  ⟨fun _ => guarded_cons_quiet rfl _, fun _ => trivial⟩

theorem readReg_quiet {r : RtcReg} (hr : r.calendar = false) :
    (readReg r).Accesses (Quiet s₀) :=
  ⟨fun _ => guarded_cons_quiet (e := .read r) hr _, fun _ => trivial⟩

theorem writeWait_quiet (v : Bool) : (writeWait v).Accesses (Quiet s₀) :=
  ⟨fun _ => Iff.rfl, fun _ => ⟨fun _ => guarded_cons_quiet rfl _, fun _ => trivial⟩⟩

theorem requestAccess_quiet (c : AccessCall) : (requestAccess c.poll).Accesses (Quiet s₀) := by
  refine requestAccess_accesses (readReg_quiet rfl) (writeWait_quiet _) ?_
  cases c with
  | readDateTime time => exact pollLoop_accesses readWaitf_quiet _ _ _
  | setTime time => exact pollLoop_accesses readWaitf_quiet _ _ _

theorem releaseAccess_quiet (rounds : Nat) : (releaseAccess rounds).Accesses (Quiet s₀) :=
  releaseAccess_accesses (readReg_quiet rfl) (writeWait_quiet _) readWaitf_quiet rounds

/-- The accesses to the calendar are right if the first of them is. -/
theorem guarded_touches (c : AccessCall) (past : List RtcEvent) :
    History.Guarded s₀.Admits (c.touches ++ past) ↔
      (¬ s₀.Running ∨ granted past = true) ∧ History.Guarded s₀.Admits past := by
  cases c <;>
    simp [AccessCall.touches, Rtc.Admits, RtcEvent.touchesCalendar, RtcReg.calendar, granted]

/-! ## When the protocol is kept -/

/-- Access is granted, or need not be, and no timeout is due. -/
theorem AccessProtocol.of_granted {c : AccessCall} {t : Rtc} (hlog : s.log = [])
    (h : (requestAccess c.poll).exec s = (true, t)) (ht : ¬ s.Running ∨ granted t.log = true)
    (hdue : ¬ (s.Running ∧ s.NeverSeen c.budget)) : AccessProtocol c s := by
  have hstart : History.Guarded s.Admits t.log := by
    have hquiet : Quiet s s _ := quiet_exec (requestAccess_quiet c) s
    rw [h] at hquiet
    refine hquiet.mpr ?_
    rw [hlog]
    trivial
  refine ⟨fun rounds => ?_, fun rounds => ?_, fun rounds r hr => ?_⟩
  · rw [AccessCall.body_granted h]
    refine iff_of_false (fun hres => ?_) hdue
    simp only at hres
    split at hres <;> cases hres
  · rw [AccessCall.body_granted h]
    refine (quiet_exec (releaseAccess_quiet rounds) _).mpr ?_
    rw [AccessCall.touch_log, guarded_touches]
    exact ⟨ht, hstart⟩
  · rw [AccessCall.body_granted h]
    exact releaseAccess_cr1 rounds _

/-- It goes on although access was not granted. -/
theorem AccessProtocol.not_of_ungranted {c : AccessCall} {t : Rtc} (hs : s.Running)
    (h : (requestAccess c.poll).exec s = (true, t)) (ht : granted t.log = false) :
    ¬ AccessProtocol c s := by
  intro hprot
  have hguard := hprot.calendar 0
  rw [AccessCall.body_granted h] at hguard
  have htouch := (quiet_exec (releaseAccess_quiet 0) _).mp hguard
  rw [AccessCall.touch_log, guarded_touches] at htouch
  rcases htouch.1 with hstopped | hgranted
  · exact hstopped hs
  · rw [ht] at hgranted
    cases hgranted

/-- It gives up with the request still made. -/
theorem AccessProtocol.not_of_refused {c : AccessCall} {t : Rtc}
    (h : (requestAccess c.poll).exec s = (false, t)) (ht : waitOf (t.regs .cr1) = true) :
    ¬ AccessProtocol c s := by
  intro hprot
  have hreleased := hprot.released 0 .errorTimeout
  rw [AccessCall.body_refused h] at hreleased
  have hwait := hreleased rfl
  rw [ht] at hwait
  cases hwait

theorem Rtc.NeverSeen.mono {m n : Nat} (h : s.NeverSeen n) (hm : m ≤ n) : s.NeverSeen m :=
  fun j hj => h j (by omega)

theorem Rtc.not_neverSeen {j n : Nat} (hat : s.waitf (s.polls + j) = true) (hj : j < n) :
    ¬ s.NeverSeen n := by
  intro h
  rw [h j hj] at hat
  cases hat

theorem Rtc.requested_wait (s : Rtc) (n : Nat) :
    waitOf ((s.requested.polled n).regs .cr1) = true := by
  rw [Rtc.polled_regs]
  exact Rtc.withWait_cr1 true _

theorem AccessCall.budget_ge (c : AccessCall) : 999 ≤ c.budget := by
  cases c <;> simp [AccessCall.budget]

theorem ofNat_counter_ne_zero {n : Nat} (hpos : 0 < n) (hlt : n < 2 ^ 32) :
    BitVec.ofNat 32 n ≠ 0 := by
  intro h0
  have hval := congrArg BitVec.toNat h0
  rw [BitVec.toNat_ofNat, Nat.mod_eq_of_lt hlt] at hval
  simp at hval
  omega

/-- `WAITF` was seen set, with polls left over. -/
theorem AccessProtocol.of_seen {c : AccessCall} {j n : Nat} (hlog : s.log = []) (hs : s.Running)
    (hexec : c.poll.exec s.requested = (BitVec.ofNat 32 n, s.requested.polled (j + 1)))
    (hpos : 0 < n) (hlt : n < 2 ^ 32) (hat : s.waitf (s.polls + j) = true) (hj : j < 999) :
    AccessProtocol c s := by
  have hreq := requestAccess_running c.poll hs
  rw [hexec, decide_eq_true (ofNat_counter_ne_zero hpos hlt)] at hreq
  refine AccessProtocol.of_granted hlog hreq (.inr ?_) fun h => ?_
  · rw [Rtc.granted_polled]
    exact hat
  · exact Rtc.not_neverSeen hat hj (h.2.mono c.budget_ge)

/-- The counter is 0: the call gives up, and does not take its request back. -/
theorem AccessProtocol.not_of_spent {c : AccessCall} {n : Nat} (hs : s.Running)
    (hexec : c.poll.exec s.requested = (0, s.requested.polled n)) : ¬ AccessProtocol c s := by
  have hreq := requestAccess_running c.poll hs
  rw [hexec] at hreq
  exact AccessProtocol.not_of_refused hreq (s.requested_wait n)

/-- While the clock runs it comes down to the first 999 polls. -/
theorem accessProtocol_running {c : AccessCall} (hlog : s.log = []) (hs : s.Running) :
    AccessProtocol c s ↔ ¬ s.NeverSeen 999 := by
  cases c with
  | readDateTime time =>
      rcases pollLoop_exec 0xFFFFFFFF 0 1000 s.requested with
        ⟨j, hj, hat, hbefore, hexec⟩ | ⟨hnone, hexec⟩
      · by_cases hlast : j = 999
        · subst hlast
          exact iff_of_false (AccessProtocol.not_of_spent hs hexec) (not_not_intro hbefore)
        · refine iff_of_true (AccessProtocol.of_seen hlog hs hexec ?_ ?_ hat ?_)
            (Rtc.not_neverSeen hat ?_) <;> omega
      · have hreq := requestAccess_running (AccessCall.readDateTime time).poll hs
        simp only [AccessCall.poll, pollThenCount, hexec] at hreq
        refine iff_of_false (AccessProtocol.not_of_ungranted hs hreq ?_)
          (not_not_intro (Rtc.NeverSeen.mono hnone (by omega)))
        exact (Rtc.granted_polled 999 _).trans (hnone 999 (by omega))
  | setTime time =>
      rcases pollLoop_exec 0 1 999 s.requested with
        ⟨j, hj, hat, hbefore, hexec⟩ | ⟨hnone, hexec⟩
      · refine iff_of_true (AccessProtocol.of_seen hlog hs hexec ?_ ?_ hat hj)
          (Rtc.not_neverSeen hat hj) <;> omega
      · exact iff_of_false (AccessProtocol.not_of_spent hs hexec) (not_not_intro hnone)

theorem accessProtocol_stopped {c : AccessCall} (hlog : s.log = []) (hs : ¬ s.Running) :
    AccessProtocol c s :=
  AccessProtocol.of_granted hlog (requestAccess_stopped c.poll hs) (.inl hs) fun h => hs h.1

/-- **The protocol is kept exactly when the clock is stopped or `WAITF` is seen set at one of the first
    999 polls.** -/
theorem rtc_access_iff (c : AccessCall) (s : Rtc) :
    AccessProtocol c s.fresh ↔ (s.Running → ∃ j, j < 999 ∧ s.waitf (s.polls + j) = true) := by
  have hseen : (∃ j, j < 999 ∧ s.waitf (s.polls + j) = true) ↔ ¬ s.fresh.NeverSeen 999 := by
    simp [Rtc.NeverSeen, Rtc.fresh]
  rw [hseen]
  by_cases hs : s.Running
  · rw [accessProtocol_running (s := s.fresh) rfl hs]
    exact ⟨fun h _ => h, fun h => h hs⟩
  · exact iff_of_true (accessProtocol_stopped (s := s.fresh) rfl hs) fun h => absurd h hs

/-- `WAITF` never comes while the clock runs: the calendar is read all the same. -/
theorem rtc_access_fails : ¬ ∀ c s, AccessProtocol c (Rtc.fresh s) := by
  intro h
  let s : Rtc :=
    { regs := fun r => if r = .cr0 then 0x80 else 0
      pending := none
      waitf := fun _ => false
      polls := 0
      log := [] }
  have hrunning : s.fresh.Running := by
    change startOf 0x80 = 1
    decide
  have hnever : s.fresh.NeverSeen 999 := fun _ _ => rfl
  exact (accessProtocol_running rfl hrunning).mp (h (.readDateTime ⟨0, 0, 0, 0, 0, 0, 0⟩) s) hnever

end Hc32
