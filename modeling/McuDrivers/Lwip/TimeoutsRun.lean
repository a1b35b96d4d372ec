import McuDrivers.Lwip.TimeoutsIdeal

set_option autoImplicit false

/-! # lwIP timeouts: whole runs

A run is any interleaving of the module's calls, of the rounds of `sys_check_timeouts` with what handlers
do between them, and of time that passes. -/

namespace Lwip

open Machine

section Step

variable {a b : IdealTimers} {e : TimeoutEvent} {o : TimeoutAnswer}

theorem IdealTimers.checkRound_wrap (ha : a.Ok) (he : Prompt a .round) :
    checkRound a.wrap = (a.step .round).map (Prod.map id wrap) := by
  obtain ⟨hin, hchecks⟩ := he
  cases hc : a.checks with
  | nil => simp [checkRound, step, wrap, hc, Except.map]
  | cons c cs =>
    cases hpending : a.pending with
    | nil => simp [checkRound, step, wrap, hc, hpending, Except.map]
    | cons t rest =>
      have hnow := ha.checks c (by simp [hc])
      have hrecent := hchecks c (by simp [hc])
      have hlate := hin t (by simp [hpending])
      have hahead := ha.ahead t (by simp [hpending])
      -- the check began up to `maxLate` ago, so the timer may be further ahead of it than of the clock
      have hless : timeLessThan (BitVec.ofNat 32 c) (BitVec.ofNat 32 t.due) = decide (c < t.due) := by
        apply timeLessThan_ofNat <;> simp only [maxAhead, maxMsecs, maxLate, lwipMaxTimeout] at * <;> omega
      by_cases hdue : t.due ≤ c
      · simp [checkRound, step, wrap, hc, hpending, hless, hdue, Except.map]
      · simp [checkRound, step, wrap, hc, hpending, hless, hdue, Except.map]

/-- What `timeouts.c` does on the clock that wraps is what is right on the one that does not. -/
theorem IdealTimers.step_wrap (ha : a.Ok) (he : Prompt a e) :
    timeoutStep a.wrap e = (a.step e).map (Prod.map id wrap) := by
  cases e with
  | passes ms => simp [timeoutStep, step, wrap, BitVec.ofNat_add, Except.map]
  | timeout msecs h arg =>
    by_cases hmsecs : msecs.toNat ≤ maxMsecs
    · have habs := sysTimeoutAbs_wrap (t := ⟨a.now + msecs.toNat, h, arg⟩) ha he (by simp)
        (by simpa using hmsecs)
      have htime : a.wrap.lwipSysNow + msecs = BitVec.ofNat 32 (a.now + msecs.toNat) := ofNat_add_toNat msecs
      simp only [timeoutStep, sysTimeout, lwipAssert, hmsecs, if_true, bind, Except.bind, htime, habs, step]
      cases a.add ⟨a.now + msecs.toNat, h, arg⟩ <;> rfl
    · simp [timeoutStep, sysTimeout, lwipAssert, hmsecs, bind, Except.bind, step, Except.map]
  | cyclic interval h arg =>
    obtain ⟨hin, hlate, hinterval⟩ := he
    simp only [timeoutStep, lwipCyclicTimer_wrap ha hin hlate hinterval, step]
    cases a.add ⟨a.again interval.toNat, h, arg⟩ <;> rfl
  | untimeout h arg =>
    have hunlink := unlinkTimeout_wrap (l := a.pending) h arg
    by_cases hany : (a.pending.any fun t => t.h = h ∧ t.arg = arg) = true
    · rw [if_pos hany] at hunlink
      simp only [timeoutStep, step, if_pos hany, wrap_nextTimeout, hunlink]
      rfl
    · rw [if_neg hany] at hunlink
      simp only [timeoutStep, step, if_neg hany, wrap_nextTimeout, hunlink]
      rfl
  | check => rfl
  | round => exact checkRound_wrap ha he
  | restart => simp only [timeoutStep, step, sysRestartTimeouts_wrap ha, Except.map, Prod.map, id]
  | sleeptime => simp only [timeoutStep, step, sleeptime_wrap ha he, Except.map, Prod.map, id]

theorem IdealTimers.add_of_set {t : IdealTimer} {answer : TimeoutAnswer}
    (hstep : (a.add t).map (fun a => (answer, a)) = .ok (o, b)) :
    b = { a with pending := t.insert a.pending } := by
  rw [add] at hstep
  split at hstep
  · obtain ⟨-, rfl⟩ := Prod.mk.inj (Except.ok.inj hstep)
    rfl
  · cases hstep

theorem IdealTimers.Ok.step (ha : a.Ok) (he : Prompt a e) (hstep : a.step e = .ok (o, b)) : b.Ok := by
  cases e with
  | passes ms =>
    obtain ⟨-, rfl⟩ := Prod.mk.inj (Except.ok.inj hstep)
    exact ha.sublist (.refl _) rfl (by simp) (by simpa using Nat.le_add_right_of_le ha.current)
      fun c hc => Nat.le_add_right_of_le (ha.checks c hc)
  | timeout msecs h arg =>
    simp only [IdealTimers.step] at hstep
    split at hstep
    next hmsecs =>
      rw [add_of_set hstep]
      exact ha.add he (by simp) (by simpa using hmsecs)
    · cases hstep
  | cyclic interval h arg =>
    obtain ⟨hin, -, hinterval⟩ := he
    simp only [IdealTimers.step] at hstep
    rw [add_of_set hstep]
    exact ha.add hin (again_mem ha hinterval).1 (again_mem ha hinterval).2
  | untimeout h arg =>
    simp only [IdealTimers.step] at hstep
    split at hstep
    · obtain ⟨-, rfl⟩ := Prod.mk.inj (Except.ok.inj hstep)
      exact ha.sublist (List.eraseP_sublist ..) rfl le_rfl ha.current ha.checks
    · obtain ⟨-, rfl⟩ := Prod.mk.inj (Except.ok.inj hstep)
      exact ha
  | check =>
    obtain ⟨-, rfl⟩ := Prod.mk.inj (Except.ok.inj hstep)
    exact ha.sublist (.refl _) rfl le_rfl ha.current (List.forall_mem_cons.mpr ⟨le_rfl, ha.checks⟩)
  | round =>
    cases hc : a.checks with
    | nil => simp [IdealTimers.step, hc] at hstep
    | cons c cs =>
      have hchecks := ha.checks
      rw [hc] at hchecks
      obtain ⟨hcnow, hcs⟩ := List.forall_mem_cons.mp hchecks
      cases hpending : a.pending with
      | nil =>
        simp only [IdealTimers.step, hc, hpending, List.head?_nil] at hstep
        obtain ⟨-, rfl⟩ := Prod.mk.inj (Except.ok.inj hstep)
        exact ha.sublist (.refl _) (by simp [hpending]) le_rfl ha.current hcs
      | cons t rest =>
        simp only [IdealTimers.step, hc, hpending, List.head?_cons, List.tail_cons] at hstep
        split at hstep
        next hdue =>
          obtain ⟨-, rfl⟩ := Prod.mk.inj (Except.ok.inj hstep)
          refine ha.sublist (l := rest) ?_ rfl le_rfl (hdue.trans hcnow) ?_
          · rw [hpending]
            exact List.sublist_cons_self ..
          · exact hchecks
        · obtain ⟨-, rfl⟩ := Prod.mk.inj (Except.ok.inj hstep)
          exact ha.sublist (.refl _) (by simp [hpending]) le_rfl ha.current hcs
  | restart =>
    obtain ⟨-, rfl⟩ := Prod.mk.inj (Except.ok.inj hstep)
    exact ha.rebase
  | sleeptime =>
    obtain ⟨-, rfl⟩ := Prod.mk.inj (Except.ok.inj hstep)
    exact ha

end Step

/-! ## Timers are called when they are due -/

theorem timeouts_run_wrap {es : List TimeoutEvent} (hes : Along IdealTimers.step Prompt es .boot) :
    run timeoutStep es .boot = (run IdealTimers.step es .boot).map (Prod.map id IdealTimers.wrap) := by
  rw [← IdealTimers.boot_wrap]
  exact run_map (I := IdealTimers.Ok) IdealTimers.wrap (fun _ _ ha he => IdealTimers.step_wrap ha he)
    (fun _ _ _ _ ha he => ha.step he) IdealTimers.boot_ok hes

/-- The calls of `timeouts.c`, in any order and over any stretch of time, answer what they would if the
clock did not wrap around, failed assertions included. -/
theorem timeouts_run_ideal {es : List TimeoutEvent} (hes : Along IdealTimers.step Prompt es .boot) :
    (run timeoutStep es .boot).map Prod.fst = (run IdealTimers.step es .boot).map Prod.fst := by
  rw [timeouts_run_wrap hes]
  cases run IdealTimers.step es .boot <;> rfl

theorem timeouts_run_ideal_wrapped :
    (run timeoutStep [.passes 4294967290, .timeout 10 7 1, .timeout 3 8 2, .passes 4, .check, .round]
      .boot).map Prod.fst =
    (run IdealTimers.step [.passes 4294967290, .timeout 10 7 1, .timeout 3 8 2, .passes 4, .check, .round]
      .boot).map Prod.fst :=
  timeouts_run_ideal (by decide +kernel)

section Due

variable {a : IdealTimers} {c : Nat} {cs : List Nat}

theorem IdealTimers.Ok.head_le (ha : a.Ok) {first : IdealTimer} {rest : List IdealTimer}
    (hpending : a.pending = first :: rest) : ∀ t ∈ a.pending, first.due ≤ t.due := by
  have hsorted := ha.sorted
  rw [hpending] at hsorted ⊢
  exact List.forall_mem_cons.mpr ⟨le_rfl, (List.pairwise_cons.mp hsorted).1⟩

/-- A round takes the timer that has been due longest, or there is none that was due when the check began. -/
theorem IdealTimers.round_cases (ha : a.Ok) (hc : a.checks = c :: cs) :
    (∃ t b, t ∈ a.pending ∧ t.due ≤ c ∧ (∀ u ∈ a.pending, t.due ≤ u.due) ∧
      a.step .round = .ok (.expires t.h t.arg, b)) ∨
    (∀ t ∈ a.pending, c < t.due) ∧ a.step .round = .ok (.returned, { a with checks := cs }) := by
  cases hpending : a.pending with
  | nil => exact .inr ⟨by simp, by simp [step, hc, hpending]⟩
  | cons first rest =>
    have hle := ha.head_le hpending
    rw [hpending] at hle
    by_cases hdue : first.due ≤ c
    · exact .inl ⟨first, _, List.mem_cons_self .., hdue, hle, by simp [step, hc, hpending, hdue]; rfl⟩
    · refine .inr ⟨fun t ht => ?_, by simp [step, hc, hpending, hdue]⟩
      have := hle t ht
      omega

theorem IdealTimers.sleeptime_cases (ha : a.Ok) :
    a.pending = [] ∧ a.step .sleeptime = .ok (.sleep sysTimeoutsSleeptimeInfinite, a) ∨
    ∃ t ∈ a.pending, (∀ u ∈ a.pending, t.due ≤ u.due) ∧ t.due - a.now < sysTimeoutsSleeptimeInfinite ∧
      a.step .sleeptime = .ok (.sleep (t.due - a.now), a) := by
  cases hpending : a.pending with
  | nil => exact .inl ⟨rfl, by simp [step, hpending]⟩
  | cons first rest =>
    have hle := ha.head_le hpending
    rw [hpending] at hle
    have hahead := ha.ahead first (by simp [hpending])
    refine .inr ⟨first, List.mem_cons_self .., hle, ?_, by simp [step, hpending]⟩
    simp only [maxAhead, maxMsecs, maxLate, sysTimeoutsSleeptimeInfinite] at *
    omega

end Due

/-- A check calls the timers that were due when it began, in the order they were due, and returns when there
are none left; the time to sleep is the time until the first is due, and is finite when there is one. -/
theorem timeouts_check_due {es : List TimeoutEvent} {os : List TimeoutAnswer} {s : Timeouts}
    (hes : Along IdealTimers.step Prompt es .boot) (hrun : run timeoutStep es .boot = .ok (os, s)) :
    ∃ a, run IdealTimers.step es .boot = .ok (os, a) ∧ s = a.wrap ∧
      (∀ c cs, a.checks = c :: cs → Prompt a .round →
        (∃ t b, t ∈ a.pending ∧ t.due ≤ c ∧ (∀ u ∈ a.pending, t.due ≤ u.due) ∧
          timeoutStep s .round = .ok (.expires t.h t.arg, b)) ∨
        (∀ t ∈ a.pending, c < t.due) ∧
          timeoutStep s .round = .ok (.returned, { s with checks := s.checks.tail })) ∧
      (Prompt a .sleeptime →
        a.pending = [] ∧ timeoutStep s .sleeptime = .ok (.sleep sysTimeoutsSleeptimeInfinite, s) ∨
        ∃ t ∈ a.pending, (∀ u ∈ a.pending, t.due ≤ u.due) ∧ t.due - a.now < sysTimeoutsSleeptimeInfinite ∧
          timeoutStep s .sleeptime = .ok (.sleep (t.due - a.now), s)) := by
  rw [timeouts_run_wrap hes] at hrun
  cases hideal : run IdealTimers.step es .boot with
  | error err => simp [hideal, Except.map] at hrun
  | ok r =>
    obtain ⟨os', a⟩ := r
    simp only [hideal, Except.map, Prod.map, id] at hrun
    obtain ⟨rfl, rfl⟩ := Prod.mk.inj (Except.ok.inj hrun)
    have ha : a.Ok := run_along (fun _ _ _ _ ha he => ha.step he) IdealTimers.boot_ok hes hideal
    refine ⟨a, rfl, rfl, fun c cs hc he => ?_, fun he => ?_⟩
    · rw [IdealTimers.step_wrap ha he]
      obtain ⟨t, b, ht, hdue, hfirst, hstep⟩ | ⟨hnone, hstep⟩ := IdealTimers.round_cases ha hc
      · exact .inl ⟨t, b.wrap, ht, hdue, hfirst, by rw [hstep]; rfl⟩
      · refine .inr ⟨hnone, ?_⟩
        rw [hstep]
        simp [IdealTimers.wrap, hc, Except.map]
    · rw [IdealTimers.step_wrap ha he]
      obtain ⟨hnone, hstep⟩ | ⟨t, ht, hfirst, hfinite, hstep⟩ := IdealTimers.sleeptime_cases ha
      · exact .inl ⟨hnone, by rw [hstep]; rfl⟩
      · exact .inr ⟨t, ht, hfirst, hfinite, by rw [hstep]; rfl⟩

/-- One timer is due before the clock wraps around, the other one behind it. -/
def wrappingTimers : IdealTimers :=
  ⟨[⟨4294967293, 8, 2⟩, ⟨4294967300, 7, 1⟩], 0, 4294967294, [4294967294]⟩

theorem timeouts_check_due_wrapped :
    timeoutStep wrappingTimers.wrap .sleeptime = .ok (.sleep 0, wrappingTimers.wrap) ∧
    ∃ t b, t ∈ wrappingTimers.pending ∧ t.due ≤ 4294967294 ∧ (∀ u ∈ wrappingTimers.pending, t.due ≤ u.due) ∧
      timeoutStep wrappingTimers.wrap .round = .ok (.expires t.h t.arg, b) := by
  obtain ⟨a, hideal, -, hround, hsleep⟩ := @timeouts_check_due
    [.passes 4294967290, .timeout 10 7 1, .timeout 3 8 2, .passes 4, .check]
    [.done, .set 7 1, .set 8 2, .done, .done] wrappingTimers.wrap (by decide +kernel) rfl
  have hreached : run IdealTimers.step
      [.passes 4294967290, .timeout 10 7 1, .timeout 3 8 2, .passes 4, .check] .boot =
      .ok ([.done, .set 7 1, .set 8 2, .done, .done], wrappingTimers) := by
    simp [run, IdealTimers.step, IdealTimers.add, IdealTimers.boot, IdealTimer.insert, wrappingTimers, maxMsecs,
      mempNumSysTimeout, bind, Except.bind, Except.map]
  rw [hreached] at hideal
  obtain ⟨-, rfl⟩ := Prod.mk.inj (Except.ok.inj hideal)
  refine ⟨?_, ?_⟩
  · obtain ⟨hnone, -⟩ | ⟨t, ht, hfirst, -, hstep⟩ := hsleep (by decide +kernel)
    · cases hnone
    · have hdue : t.due ≤ 4294967293 := hfirst ⟨4294967293, 8, 2⟩ (List.mem_cons_self ..)
      have hover : t.due - 4294967294 = 0 := by omega
      simp only [wrappingTimers, hover] at hstep
      exact hstep
  · obtain hdue | ⟨hnone, -⟩ := hround 4294967294 [] rfl (by decide +kernel)
    · exact hdue
    · exact absurd (hnone ⟨4294967293, 8, 2⟩ (List.mem_cons_self ..)) (by decide)

/-! ## No timer is lost or called twice

This needs no clock that keeps up: however the times compare, an entry stays on the list until it
expires or is removed. -/

def SysTimeo.client (t : SysTimeo) : Nat × Nat := (t.h, t.arg)

def Timeouts.clients (s : Timeouts) : List (Nat × Nat) := s.nextTimeout.map (·.client)

/-- What an answer says about the entries. -/
inductive ClientStep : TimeoutAnswer → List (Nat × Nat) → List (Nat × Nat) → Prop
  | set {h arg : Nat} {l l' : List (Nat × Nat)} (hroom : l.length < mempNumSysTimeout)
      (hl : l'.Perm ((h, arg) :: l)) : ClientStep (.set h arg) l l'
  | removed {h arg : Nat} {l l' : List (Nat × Nat)} (hl : l.Perm ((h, arg) :: l')) :
      ClientStep (.removed h arg) l l'
  | expires {h arg : Nat} {l : List (Nat × Nat)} : ClientStep (.expires h arg) ((h, arg) :: l) l
  | done {l : List (Nat × Nat)} : ClientStep .done l l
  | returned {l : List (Nat × Nat)} : ClientStep .returned l l
  | sleep {ms : Nat} {l : List (Nat × Nat)} : ClientStep (.sleep ms) l l

section Clients

variable {s s' : Timeouts} {e : TimeoutEvent} {o : TimeoutAnswer} {h arg : Nat}

theorem linkTimeout_perm (timeout : SysTimeo) (l : List SysTimeo) :
    (linkTimeout timeout l).Perm (timeout :: l) := by
  induction l with
  | nil => exact .refl _
  | cons t next ih =>
    rw [linkTimeout]
    split
    · exact .refl _
    · exact (ih.cons t).trans (.swap timeout t next)

theorem unlinkTimeout_perm {l l' : List SysTimeo} (hl : unlinkTimeout h arg l = some l') :
    (l.map (·.client)).Perm ((h, arg) :: l'.map (·.client)) := by
  induction l generalizing l' with
  | nil => cases hl
  | cons t next ih =>
    rw [unlinkTimeout] at hl
    split at hl
    next hmatch =>
      obtain ⟨rfl, rfl⟩ := hmatch
      obtain rfl := Option.some.inj hl
      exact .refl _
    · obtain ⟨next', hnext, rfl⟩ := Option.map_eq_some_iff.mp hl
      exact ((ih hnext).cons t.client).trans (.swap ..)

theorem sysTimeoutAbs_clients {absTime : BitVec 32} (hcall : sysTimeoutAbs absTime h arg s = .ok s') :
    ClientStep (.set h arg) s.clients s'.clients := by
  by_cases hroom : s.nextTimeout.length < mempNumSysTimeout
  · simp only [sysTimeoutAbs, lwipAssert, hroom, if_true, bind, Except.bind] at hcall
    obtain rfl := Except.ok.inj hcall
    have hperm := (linkTimeout_perm ⟨absTime, h, arg⟩ s.nextTimeout).map SysTimeo.client
    exact .set (by simpa [Timeouts.clients] using hroom) hperm
  · simp [sysTimeoutAbs, lwipAssert, hroom, bind, Except.bind] at hcall

/-- An answer of `sys_timeout` or `lwip_cyclic_timer` comes from its call of `sys_timeout_abs`. -/
theorem set_clients {r : Except String Timeouts}
    (hr : ∀ s', r = .ok s' → ClientStep (.set h arg) s.clients s'.clients)
    (hstep : r.map (fun s => (TimeoutAnswer.set h arg, s)) = .ok (o, s')) :
    ClientStep o s.clients s'.clients := by
  cases r with
  | error err => cases hstep
  | ok s₁ =>
    obtain ⟨rfl, rfl⟩ := Prod.mk.inj (Except.ok.inj hstep)
    exact hr s₁ rfl

theorem checkRound_clients (hstep : checkRound s = .ok (o, s')) : ClientStep o s.clients s'.clients := by
  rw [checkRound] at hstep
  split at hstep
  · cases hstep
  · split at hstep
    · obtain ⟨rfl, rfl⟩ := Prod.mk.inj (Except.ok.inj hstep)
      exact .returned
    next t next hnext =>
      split at hstep
      · obtain ⟨rfl, rfl⟩ := Prod.mk.inj (Except.ok.inj hstep)
        exact .returned
      · obtain ⟨rfl, rfl⟩ := Prod.mk.inj (Except.ok.inj hstep)
        simp only [Timeouts.clients, hnext, List.map_cons]
        exact .expires

theorem timeoutStep_clients (hstep : timeoutStep s e = .ok (o, s')) : ClientStep o s.clients s'.clients := by
  cases e with
  | passes ms =>
    obtain ⟨rfl, rfl⟩ := Prod.mk.inj (Except.ok.inj hstep)
    exact .done
  | timeout msecs h arg =>
    refine set_clients (fun s₁ hcall => ?_) hstep
    by_cases hmsecs : msecs.toNat ≤ maxMsecs
    · simp only [sysTimeout, lwipAssert, hmsecs, if_true, bind, Except.bind] at hcall
      exact sysTimeoutAbs_clients hcall
    · simp [sysTimeout, lwipAssert, hmsecs, bind, Except.bind] at hcall
  | cyclic interval h arg =>
    refine set_clients (fun s₁ hcall => ?_) hstep
    simp only [lwipCyclicTimer] at hcall
    split at hcall
    · exact sysTimeoutAbs_clients hcall
    · exact sysTimeoutAbs_clients hcall
  | untimeout h arg =>
    simp only [timeoutStep] at hstep
    split at hstep
    next l hl =>
      obtain ⟨rfl, rfl⟩ := Prod.mk.inj (Except.ok.inj hstep)
      exact .removed (unlinkTimeout_perm hl)
    · obtain ⟨rfl, rfl⟩ := Prod.mk.inj (Except.ok.inj hstep)
      exact .done
  | check =>
    obtain ⟨rfl, rfl⟩ := Prod.mk.inj (Except.ok.inj hstep)
    exact .done
  | round => exact checkRound_clients hstep
  | restart =>
    obtain ⟨rfl, rfl⟩ := Prod.mk.inj (Except.ok.inj hstep)
    -- only the times change
    have hclients : (sysRestartTimeouts s).clients = s.clients := by
      rw [sysRestartTimeouts]
      split
      · rfl
      · simp [Timeouts.clients, SysTimeo.client, Function.comp_def]
    rw [hclients]
    exact .done
  | sleeptime =>
    simp only [timeoutStep] at hstep
    cases hsleep : sysTimeoutsSleeptime s with
    | error err => simp [hsleep, Except.map] at hstep
    | ok ms =>
      simp only [hsleep, Except.map] at hstep
      obtain ⟨rfl, rfl⟩ := Prod.mk.inj (Except.ok.inj hstep)
      exact .sleep

end Clients

/-- Each timer that was set has expired, was removed or is pending. -/
structure Accounted (os : List TimeoutAnswer) (l : List (Nat × Nat)) : Prop where
  room : l.length ≤ mempNumSysTimeout
  count : ∀ h arg, os.count (.set h arg) =
    os.count (.expires h arg) + os.count (.removed h arg) + l.count (h, arg)

theorem ClientStep.accounted {os : List TimeoutAnswer} {o : TimeoutAnswer} {l l' : List (Nat × Nat)}
    (hstep : ClientStep o l l') (hos : Accounted os l) : Accounted (os ++ [o]) l' := by
  obtain ⟨hlen, hcount⟩ := hos
  cases hstep with
  | set hroom hl =>
    refine ⟨by rw [hl.length_eq]; exact hroom, fun h arg => ?_⟩
    have := hcount h arg
    simp only [List.count_append, hl.count_eq, List.count_cons, List.count_nil, beq_iff_eq,
      TimeoutAnswer.set.injEq, reduceCtorEq, if_false, Prod.mk.injEq]
    omega
  | removed hl =>
    have hlen' := hl.length_eq
    rw [List.length_cons] at hlen'
    refine ⟨by omega, fun h arg => ?_⟩
    have := hcount h arg
    simp only [hl.count_eq, List.count_append, List.count_cons, List.count_nil, beq_iff_eq,
      TimeoutAnswer.removed.injEq, reduceCtorEq, if_false, Prod.mk.injEq] at this ⊢
    omega
  | expires =>
    rw [List.length_cons] at hlen
    refine ⟨by omega, fun h arg => ?_⟩
    have := hcount h arg
    simp only [List.count_append, List.count_cons, List.count_nil, beq_iff_eq,
      TimeoutAnswer.expires.injEq, reduceCtorEq, if_false, Prod.mk.injEq] at this ⊢
    omega
  | done => exact ⟨hlen, fun h arg => by simpa [List.count_append] using hcount h arg⟩
  | returned => exact ⟨hlen, fun h arg => by simpa [List.count_append] using hcount h arg⟩
  | sleep => exact ⟨hlen, fun h arg => by simpa [List.count_append] using hcount h arg⟩

/-- In any run each timer that was set expires once or is removed once or is still on the list, and the list
never has more entries than the pool. -/
theorem timeouts_accounted {es : List TimeoutEvent} {os : List TimeoutAnswer} {s : Timeouts}
    (hrun : run timeoutStep es .boot = .ok (os, s)) : Accounted os s.clients := by
  have hboot : Accounted [] Timeouts.boot.clients := ⟨Nat.zero_le _, fun _ _ => rfl⟩
  exact run_answers (I := fun os s => Accounted os s.clients)
    (fun _ _ _ _ _ hs hstep => (timeoutStep_clients hstep).accounted hs) hboot hrun

theorem timeouts_accounted_two :
    ∃ s : Timeouts, Accounted [.set 7 1, .set 8 2, .done, .done, .expires 8 2, .removed 7 1] s.clients :=
  ⟨_, @timeouts_accounted
    [.timeout 10 7 1, .timeout 3 8 2, .passes 4, .check, .round, .untimeout 7 1] _ _ rfl⟩

end Lwip
