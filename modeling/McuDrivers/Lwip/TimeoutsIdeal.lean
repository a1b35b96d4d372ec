import McuDrivers.Lwip.Timeouts

set_option autoImplicit false

/-! # lwIP: timeouts on a clock that does not wrap

`IdealTimers` is what the list stands for: timers with a time each at which they are due, counted from
boot. `IdealTimers.wrap` forgets the multiples of `2 ^ 32`, and as long as the main loop keeps up
(`Prompt`: no timer is overdue by more than six days when times are compared) each call of
`timeouts.c` on the wrapped list does what is right for the ideal one. -/

namespace Lwip

open Eth (Word)

structure IdealTimer where
  due : Nat
  h : Nat
  arg : Nat

structure IdealTimers where
  pending : List IdealTimer
  /-- When the last timer that expired was due. -/
  current : Nat
  now : Nat
  checks : List Nat

def IdealTimers.boot : IdealTimers := ⟨[], 0, 0, []⟩

/-- Among timers in the order they are due, after those due at the same time. -/
def IdealTimer.insert (t : IdealTimer) : List IdealTimer → List IdealTimer
  | [] => [t]
  | u :: rest => if t.due < u.due then t :: u :: rest else u :: insert t rest

def IdealTimers.add (t : IdealTimer) (a : IdealTimers) : Except String IdealTimers :=
  if a.pending.length < mempNumSysTimeout then .ok { a with pending := t.insert a.pending }
  else .error "sys_timeout: timeout != NULL, pool MEMP_SYS_TIMEOUT is empty"

/-- When a timer that was due at `current` is due again: late by no more than its interval, it keeps
its rhythm. -/
def IdealTimers.again (a : IdealTimers) (interval : Nat) : Nat :=
  if a.current + interval < a.now then a.now + interval else a.current + interval

def IdealTimers.rebase (a : IdealTimers) : IdealTimers :=
  match a.pending with
  | [] => a
  | first :: _ =>
      { a with pending := a.pending.map fun t => { t with due := a.now + (t.due - first.due) } }

def IdealTimers.step (a : IdealTimers) : TimeoutEvent → Except String (TimeoutAnswer × IdealTimers)
  | .passes ms => .ok (.done, { a with now := a.now + ms })
  | .timeout msecs h arg =>
      if msecs.toNat ≤ maxMsecs then (a.add ⟨a.now + msecs.toNat, h, arg⟩).map fun a => (.set h arg, a)
      else .error "Timeout time too long, max is LWIP_UINT32_MAX/4 msecs"
  | .cyclic interval h arg => (a.add ⟨a.again interval.toNat, h, arg⟩).map fun a => (.set h arg, a)
  | .untimeout h arg =>
      if a.pending.any fun t => t.h = h ∧ t.arg = arg then
        .ok (.removed h arg, { a with pending := a.pending.eraseP fun t => t.h = h ∧ t.arg = arg })
      else .ok (.done, a)
  | .check => .ok (.done, { a with checks := a.now :: a.checks })
  | .round =>
      match a.checks with
      | [] => .error "sys_check_timeouts does not run"
      | c :: cs =>
          match a.pending.head? with
          | some t =>
              if t.due ≤ c then
                .ok (.expires t.h t.arg, { a with pending := a.pending.tail, current := t.due })
              else .ok (.returned, { a with checks := cs })
          | none => .ok (.returned, { a with checks := cs })
  | .restart => .ok (.done, a.rebase)
  | .sleeptime =>
      .ok (.sleep ((a.pending.head?.map fun t => t.due - a.now).getD sysTimeoutsSleeptimeInfinite), a)

/-! ## Wrapping -/

def IdealTimer.wrap (t : IdealTimer) : SysTimeo := ⟨BitVec.ofNat 32 t.due, t.h, t.arg⟩

def IdealTimers.wrap (a : IdealTimers) : Timeouts where
  nextTimeout := a.pending.map (·.wrap)
  currentTimeoutDueTime := BitVec.ofNat 32 a.current
  lwipSysNow := BitVec.ofNat 32 a.now
  checks := a.checks.map (BitVec.ofNat 32)

@[simp] theorem IdealTimer.wrap_time (t : IdealTimer) : t.wrap.time = BitVec.ofNat 32 t.due := rfl

@[simp] theorem IdealTimer.wrap_h (t : IdealTimer) : t.wrap.h = t.h := rfl

@[simp] theorem IdealTimer.wrap_arg (t : IdealTimer) : t.wrap.arg = t.arg := rfl

@[simp] theorem IdealTimers.wrap_nextTimeout (a : IdealTimers) :
    a.wrap.nextTimeout = a.pending.map (·.wrap) := rfl

def maxLate : Nat := 2 ^ 29

/-- No timer is overdue by more than `maxLate`. -/
def IdealTimers.InTime (a : IdealTimers) : Prop := ∀ t ∈ a.pending, a.now ≤ t.due + maxLate

/-- The main loop keeps up: where an event compares times, none of them is too far back, and the
interval of a cyclic timer is one that `sys_timeout` would take. -/
def Prompt (a : IdealTimers) : TimeoutEvent → Prop
  | .timeout _ _ _ => a.InTime
  | .sleeptime => a.InTime
  | .cyclic interval _ _ => a.InTime ∧ a.now ≤ a.current + maxLate ∧ interval.toNat ≤ maxMsecs
  | .round => a.InTime ∧ ∀ c ∈ a.checks, a.now ≤ c + maxLate
  | _ => True

instance : DecidablePred IdealTimers.InTime := fun a => inferInstanceAs (Decidable (∀ t ∈ a.pending, _))

instance Prompt.decidable (a : IdealTimers) : DecidablePred (Prompt a)
  | .timeout .. | .sleeptime => inferInstanceAs (Decidable a.InTime)
  | .cyclic .. => inferInstanceAs (Decidable (_ ∧ _ ∧ _))
  | .round => inferInstanceAs (Decidable (_ ∧ _))
  | .passes _ | .untimeout .. | .check | .restart => isTrue trivial

theorem lwipCyclicTimers_le : ∀ interval ∈ lwipCyclicTimers, interval.toNat ≤ maxMsecs := by
  simp [lwipCyclicTimers, maxMsecs]

section Wrap

variable {x y : Nat}

/-- Two times that are less than half the circle apart compare as they do unwrapped. -/
theorem timeLessThan_ofNat (hxy : x ≤ y + lwipMaxTimeout) (hyx : y ≤ x + lwipMaxTimeout) :
    timeLessThan (BitVec.ofNat 32 x) (BitVec.ofNat 32 y) = decide (x < y) := by
  simp only [timeLessThan, lwipMaxTimeout, BitVec.toNat_sub, BitVec.toNat_ofNat] at *
  congr 1
  apply propext
  omega

theorem ofNat_add_toNat (msecs : Word) : BitVec.ofNat 32 x + msecs = BitVec.ofNat 32 (x + msecs.toNat) := by
  simp [BitVec.ofNat_add]

theorem ofNat_sub_toNat (hxy : x ≤ y) (h : y ≤ x + lwipMaxTimeout) :
    (BitVec.ofNat 32 y - BitVec.ofNat 32 x).toNat = y - x := by
  simp only [lwipMaxTimeout, BitVec.toNat_sub, BitVec.toNat_ofNat] at *
  omega

theorem ofNat_rebase (hxy : x ≤ y) (now : Nat) :
    BitVec.ofNat 32 y - BitVec.ofNat 32 x + BitVec.ofNat 32 now = BitVec.ofNat 32 (now + (y - x)) := by
  apply BitVec.eq_of_toNat_eq
  simp only [BitVec.toNat_add, BitVec.toNat_sub, BitVec.toNat_ofNat]
  omega

end Wrap

section Insert

variable {t u : IdealTimer} {l : List IdealTimer}

theorem IdealTimer.insert_perm (t : IdealTimer) (l : List IdealTimer) : (t.insert l).Perm (t :: l) := by
  induction l with
  | nil => exact .refl _
  | cons u rest ih =>
    rw [insert]
    split
    · exact .refl _
    · exact (ih.cons u).trans (.swap t u rest)

theorem IdealTimer.mem_insert : u ∈ t.insert l ↔ u = t ∨ u ∈ l := by
  rw [(insert_perm t l).mem_iff, List.mem_cons]

theorem IdealTimer.insert_sorted (hl : l.Pairwise (·.due ≤ ·.due)) :
    (t.insert l).Pairwise (·.due ≤ ·.due) := by
  induction l with
  | nil => exact List.pairwise_singleton ..
  | cons u rest ih =>
    obtain ⟨hu, hrest⟩ := List.pairwise_cons.mp hl
    rw [insert]
    split
    next hlt =>
      refine List.pairwise_cons.mpr ⟨fun v hv => ?_, hl⟩
      rcases List.mem_cons.mp hv with rfl | hv
      · omega
      · have := hu v hv
        omega
    next hle =>
      refine List.pairwise_cons.mpr ⟨fun v hv => ?_, ih hrest⟩
      rcases mem_insert.mp hv with rfl | hv
      · omega
      · exact hu v hv

/-- The walk of `sys_timeout_abs` ends where the timer belongs. -/
theorem linkTimeout_wrap (hl : ∀ u ∈ l, t.due ≤ u.due + lwipMaxTimeout ∧ u.due ≤ t.due + lwipMaxTimeout) :
    linkTimeout t.wrap (l.map (·.wrap)) = (t.insert l).map (·.wrap) := by
  induction l with
  | nil => rfl
  | cons u rest ih =>
    obtain ⟨hu, hrest⟩ := List.forall_mem_cons.mp hl
    have hless : timeLessThan (BitVec.ofNat 32 t.due) (BitVec.ofNat 32 u.due) = decide (t.due < u.due) :=
      timeLessThan_ofNat hu.1 hu.2
    by_cases hlt : t.due < u.due
    · simp [linkTimeout, IdealTimer.insert, hless, hlt]
    · simp [linkTimeout, IdealTimer.insert, hless, hlt, ih hrest]

theorem unlinkTimeout_wrap (h arg : Nat) :
    unlinkTimeout h arg (l.map (·.wrap)) =
      if l.any fun t => t.h = h ∧ t.arg = arg then
        some ((l.eraseP fun t => t.h = h ∧ t.arg = arg).map (·.wrap))
      else none := by
  induction l with
  | nil => rfl
  | cons u rest ih =>
    by_cases hu : u.h = h ∧ u.arg = arg
    · simp [unlinkTimeout, hu]
    · rw [List.map_cons, unlinkTimeout, IdealTimer.wrap_h, IdealTimer.wrap_arg, if_neg hu, ih]
      simp only [List.any_cons, decide_eq_false hu, Bool.false_or, List.eraseP_cons]
      split <;> rfl

end Insert

/-! ## Steps -/

/-- How far a timer can be ahead of the clock, and of the other timers. -/
def maxAhead : Nat := maxMsecs + maxLate

structure IdealTimers.Ok (a : IdealTimers) : Prop where
  sorted : a.pending.Pairwise (·.due ≤ ·.due)
  ahead : ∀ t ∈ a.pending, t.due ≤ a.now + maxAhead
  span : ∀ t ∈ a.pending, ∀ u ∈ a.pending, u.due ≤ t.due + maxAhead
  current : a.current ≤ a.now
  checks : ∀ c ∈ a.checks, c ≤ a.now

theorem IdealTimers.boot_wrap : boot.wrap = .boot := rfl

theorem IdealTimers.boot_ok : boot.Ok := ⟨.nil, by simp [boot], by simp [boot], le_rfl, by simp [boot]⟩

section Step

variable {a b : IdealTimers} {t : IdealTimer} {o : TimeoutAnswer} {l : List IdealTimer}

/-- Timers taken off the list, or left where they are. -/
theorem IdealTimers.Ok.sublist (ha : a.Ok) (hl : l.Sublist a.pending) (hb : b.pending = l)
    (hnow : a.now ≤ b.now) (hcurrent : b.current ≤ b.now) (hchecks : ∀ c ∈ b.checks, c ≤ b.now) : b.Ok := by
  subst hb
  refine ⟨ha.sorted.sublist hl, fun t ht => ?_, fun t ht u hu => ?_, hcurrent, hchecks⟩
  · have := ha.ahead t (hl.subset ht)
    omega
  · exact ha.span t (hl.subset ht) u (hl.subset hu)

theorem IdealTimers.Ok.add (ha : a.Ok) (hin : a.InTime) (hnow : a.now ≤ t.due)
    (hdue : t.due ≤ a.now + maxMsecs) : IdealTimers.Ok { a with pending := t.insert a.pending } := by
  have hmax : maxAhead = maxMsecs + maxLate := rfl
  refine ⟨IdealTimer.insert_sorted ha.sorted, fun u hu => ?_, fun u hu v hv => ?_, ha.current, ha.checks⟩
  · rcases IdealTimer.mem_insert.mp hu with rfl | hu
    · simp only [hmax]
      omega
    · exact ha.ahead u hu
  · rcases IdealTimer.mem_insert.mp hu with hut | hu' <;> rcases IdealTimer.mem_insert.mp hv with hvt | hv'
    · simp [hut, hvt]
    · have := ha.ahead v hv'
      simp only [hut]
      omega
    -- the new timer is after another by its own time and what that one is overdue
    · have := hin u hu'
      simp only [hvt]
      omega
    · exact ha.span u hu' v hv'

theorem IdealTimers.sysTimeoutAbs_wrap (ha : a.Ok) (hin : a.InTime) (hnow : a.now ≤ t.due)
    (hdue : t.due ≤ a.now + maxMsecs) :
    sysTimeoutAbs (BitVec.ofNat 32 t.due) t.h t.arg a.wrap = (a.add t).map (·.wrap) := by
  -- what the timer is compared with is overdue by `maxLate` at most, and ahead by `maxAhead` at most
  have hnear : ∀ u ∈ a.pending, t.due ≤ u.due + lwipMaxTimeout ∧ u.due ≤ t.due + lwipMaxTimeout := by
    intro u hu
    have hlate := hin u hu
    have hahead := ha.ahead u hu
    simp only [maxAhead, maxMsecs, maxLate, lwipMaxTimeout] at *
    omega
  have hlink : linkTimeout ⟨BitVec.ofNat 32 t.due, t.h, t.arg⟩ (a.pending.map (·.wrap)) =
      (t.insert a.pending).map (·.wrap) := linkTimeout_wrap hnear
  by_cases hroom : a.pending.length < mempNumSysTimeout
  · simp [sysTimeoutAbs, add, lwipAssert, wrap, hroom, hlink, bind, Except.bind, Except.map]
  · simp [sysTimeoutAbs, add, lwipAssert, wrap, hroom, bind, Except.bind, Except.map]

theorem IdealTimers.again_mem (ha : a.Ok) {interval : Nat} (hinterval : interval ≤ maxMsecs) :
    a.now ≤ a.again interval ∧ a.again interval ≤ a.now + maxMsecs := by
  have := ha.current
  rw [again]
  split <;> omega

theorem IdealTimers.lwipCyclicTimer_wrap (ha : a.Ok) (hin : a.InTime) (hlate : a.now ≤ a.current + maxLate)
    {interval : Word} (hinterval : interval.toNat ≤ maxMsecs) (h arg : Nat) :
    lwipCyclicTimer interval h arg a.wrap = (a.add ⟨a.again interval.toNat, h, arg⟩).map (·.wrap) := by
  obtain ⟨hnow, hdue⟩ := again_mem ha hinterval
  rw [← sysTimeoutAbs_wrap (t := ⟨a.again interval.toNat, h, arg⟩) ha hin hnow hdue]
  have hcurrent := ha.current
  have hnext : a.wrap.currentTimeoutDueTime + interval = BitVec.ofNat 32 (a.current + interval.toNat) :=
    ofNat_add_toNat interval
  have hrestart : a.wrap.lwipSysNow + interval = BitVec.ofNat 32 (a.now + interval.toNat) :=
    ofNat_add_toNat interval
  have hless : timeLessThan (BitVec.ofNat 32 (a.current + interval.toNat)) a.wrap.lwipSysNow =
      decide (a.current + interval.toNat < a.now) := by
    apply timeLessThan_ofNat <;> simp only [maxMsecs, maxLate, lwipMaxTimeout] at * <;> omega
  by_cases hover : a.current + interval.toNat < a.now
  · simp [lwipCyclicTimer, hnext, hrestart, hless, hover, again]
  · simp [lwipCyclicTimer, hnext, hless, hover, again]

theorem IdealTimers.sysRestartTimeouts_wrap (ha : a.Ok) : sysRestartTimeouts a.wrap = a.rebase.wrap := by
  cases hpending : a.pending with
  | nil => simp [sysRestartTimeouts, rebase, wrap, hpending]
  | cons first rest =>
    have hsorted := ha.sorted
    rw [hpending] at hsorted
    have hle : ∀ t ∈ first :: rest, first.due ≤ t.due :=
      List.forall_mem_cons.mpr ⟨le_rfl, (List.pairwise_cons.mp hsorted).1⟩
    have hmap : ∀ t ∈ first :: rest,
        SysTimeo.mk (t.wrap.time - first.wrap.time + BitVec.ofNat 32 a.now) t.wrap.h t.wrap.arg =
          IdealTimer.wrap { t with due := a.now + (t.due - first.due) } := by
      intro t ht
      simp only [IdealTimer.wrap, ofNat_rebase (hle t ht)]
    simp only [sysRestartTimeouts, rebase, wrap, hpending, List.map_cons, List.map_map]
    congr 1
    exact congrArg₂ _ (hmap first (List.mem_cons_self ..))
      (List.map_congr_left fun t ht => hmap t (List.mem_cons_of_mem _ ht))

theorem IdealTimers.Ok.rebase (ha : a.Ok) : a.rebase.Ok := by
  cases hpending : a.pending with
  | nil => simpa [IdealTimers.rebase, hpending] using ha
  | cons first rest =>
    have hspan := ha.span
    have hsorted := ha.sorted
    have hfirst : first ∈ a.pending := by simp [hpending]
    simp only [IdealTimers.rebase, hpending]
    rw [← hpending]
    -- rebasing moves all timers alike, and the first to the clock: the span bounds how far the others are ahead
    refine ⟨List.pairwise_map.mpr (hsorted.imp fun h => by simp only; omega), fun t ht => ?_,
      fun t ht u hu => ?_, ha.current, ha.checks⟩
    · obtain ⟨t₀, ht₀, rfl⟩ := List.mem_map.mp ht
      have := hspan first hfirst t₀ ht₀
      simp only
      omega
    · obtain ⟨t₀, ht₀, rfl⟩ := List.mem_map.mp ht
      obtain ⟨u₀, hu₀, rfl⟩ := List.mem_map.mp hu
      have := hspan first hfirst u₀ hu₀
      simp only
      omega

theorem IdealTimers.sleeptime_wrap (ha : a.Ok) (hin : a.InTime) :
    sysTimeoutsSleeptime a.wrap =
      .ok ((a.pending.head?.map fun t => t.due - a.now).getD sysTimeoutsSleeptimeInfinite) := by
  cases hpending : a.pending with
  | nil => simp [sysTimeoutsSleeptime, wrap, hpending]
  | cons first rest =>
    have hlate := hin first (by simp [hpending])
    have hahead := ha.ahead first (by simp [hpending])
    have hnear : first.due ≤ a.now + lwipMaxTimeout ∧ a.now ≤ first.due + lwipMaxTimeout := by
      simp only [maxAhead, maxMsecs, maxLate, lwipMaxTimeout] at *
      omega
    have hless : timeLessThan (BitVec.ofNat 32 first.due) (BitVec.ofNat 32 a.now) =
        decide (first.due < a.now) :=
      timeLessThan_ofNat hnear.1 hnear.2
    simp only [sysTimeoutsSleeptime, wrap, hpending, List.map_cons, List.head?_cons, Option.map_some,
      Option.getD_some, IdealTimer.wrap_time, hless]
    by_cases hlt : first.due < a.now
    · simp [hlt, Nat.sub_eq_zero_of_le hlt.le]
    · have hsleep : (BitVec.ofNat 32 first.due - BitVec.ofNat 32 a.now).toNat =
          first.due - a.now :=
        ofNat_sub_toNat (by omega) hnear.1
      have hassert : first.due - a.now ≤ lwipMaxTimeout := by omega
      simp only [hlt, decide_false, Bool.false_eq_true, if_false, lwipAssert, hsleep, hassert, if_true,
        bind, Except.bind]

end Step

end Lwip
