import Mathlib.Data.BitVec

set_option autoImplicit false

/-! # Bounded polling

A driver polls a register until it reads what it waits for, or until its budget of reads is used up.
What the register reads as is a sequence `answers`, one entry for each read. `pollNext p answers n i`
looks at the `n` answers from the `i`-th on for the first that satisfies `p`, and gives the position
after it. -/

variable {α : Type}

def pollNext (p : α → Bool) (answers : Nat → α) : (n i : Nat) → Option Nat
  | 0, _ => none
  | n + 1, i => if p (answers i) then some (i + 1) else pollNext p answers n (i + 1)

theorem pollNext_eq_none {p : α → Bool} {answers : Nat → α} {n i : Nat} :
    pollNext p answers n i = none ↔ ∀ j, j < n → p (answers (i + j)) = false := by
  induction n generalizing i with
  | zero => simp [pollNext]
  | succ n ih =>
      unfold pollNext
      constructor
      · intro h j hj
        split at h
        · simp at h
        · rename_i hp
          cases j with
          | zero => simpa using hp
          | succ j =>
              have hnext := ih.mp h j (by omega)
              rwa [Nat.add_right_comm] at hnext
      · intro h
        have hfirst := h 0 (by omega)
        rw [if_neg (by simpa using hfirst), ih]
        intro j hj
        have hnext := h (j + 1) (by omega)
        rwa [show i + (j + 1) = i + 1 + j by omega] at hnext

/-- The answer before the position is one that satisfies `p`. -/
theorem pollNext_eq_some {p : α → Bool} {answers : Nat → α} {n i k : Nat}
    (h : pollNext p answers n i = some k) :
    ∃ j, k = j + 1 ∧ i ≤ j ∧ j < i + n ∧ p (answers j) = true := by
  induction n generalizing i with
  | zero => cases h
  | succ n ih =>
      rw [pollNext] at h
      split at h
      · rename_i hp
        cases h
        exact ⟨i, rfl, Nat.le_refl i, by omega, hp⟩
      · obtain ⟨j, hk, hle, hlt, hj⟩ := ih h
        exact ⟨j, hk, by omega, by omega, hj⟩

/-- Up to where the poll ends there is an answer that satisfies `p` if and only if it is found. -/
theorem pollNext_isSome {p : α → Bool} {answers : Nat → α} {n i : Nat} :
    (pollNext p answers n i).isSome ↔
      ∃ j, i ≤ j ∧ j < (pollNext p answers n i).getD (i + n) ∧ p (answers j) = true := by
  cases h : pollNext p answers n i with
  | none =>
      rw [pollNext_eq_none] at h
      simp only [Option.isSome_none, Option.getD_none, Bool.false_eq_true, false_iff]
      rintro ⟨j, hle, hlt, hj⟩
      have hnot := h (j - i) (by omega)
      rw [Nat.add_sub_cancel' hle, hj] at hnot
      cases hnot
  | some k =>
      obtain ⟨j, hk, hle, -, hj⟩ := pollNext_eq_some h
      simp only [Option.isSome_some, Option.getD_some, true_iff]
      exact ⟨j, hle, by omega, hj⟩

theorem pollNext_isSome_iff {p : α → Bool} {answers : Nat → α} {n i : Nat} :
    (pollNext p answers n i).isSome ↔ ∃ j, j < n ∧ p (answers (i + j)) = true := by
  rw [← not_iff_not, Option.not_isSome_iff_eq_none, pollNext_eq_none]
  simp

theorem pollNext_of_first {p : α → Bool} {answers : Nat → α} {n i : Nat} (hn : 0 < n)
    (h : p (answers i) = true) : pollNext p answers n i = some (i + 1) := by
  obtain ⟨m, rfl⟩ : ∃ m, n = m + 1 := ⟨n - 1, by omega⟩
  exact if_pos h

/-- More polls do not change what is found. -/
theorem pollNext_mono {p : α → Bool} {answers : Nat → α} {n m i k : Nat} (hnm : n ≤ m)
    (h : pollNext p answers n i = some k) : pollNext p answers m i = some k := by
  induction n generalizing i m with
  | zero => cases h
  | succ n ih =>
      obtain ⟨m, rfl⟩ : ∃ m', m = m' + 1 := ⟨m - 1, by omega⟩
      unfold pollNext at h ⊢
      split
      · next hp => rwa [if_pos hp] at h
      · next hp =>
          rw [if_neg hp] at h
          exact ih (by omega) h

theorem pollNext_succ_eq_none {p : α → Bool} {answers : Nat → α} {n i : Nat}
    (h : pollNext p answers n i = none) :
    pollNext p answers (n + 1) i = none ↔ p (answers (i + n)) = false := by
  rw [pollNext_eq_none] at h ⊢
  constructor
  · intro hall
    exact hall n (Nat.lt_succ_self n)
  · intro hlast j hj
    rcases Nat.lt_succ_iff_lt_or_eq.mp hj with hlt | rfl
    · exact h j hlt
    · exact hlast

/-! ## Polling with effects -/

/-- How a polling loop has ended: whether what it polls for was there, the number of polls, and the
    state after them. -/
structure Polled (σ : Type) where
  met : Bool
  timeout : Nat
  state : σ

variable {σ : Type}

/-- `do timeout++; while (!poll && timeout < budget)`, with `left` polls left. -/
def pollUpTo (poll : σ → Bool × σ) : (left timeout : Nat) → σ → Polled σ
  | 0, timeout, s => ⟨false, timeout, s⟩
  | left + 1, timeout, s =>
      if (poll s).1 then ⟨true, timeout + 1, (poll s).2⟩
      else pollUpTo poll left (timeout + 1) (poll s).2

/-- What no poll breaks is not broken by the loop. -/
theorem pollUpTo_keeps {poll : σ → Bool × σ} {P : σ → Prop} (hpoll : ∀ s, P s → P (poll s).2)
    (n t : Nat) {s : σ} (h : P s) : P (pollUpTo poll n t s).state := by
  induction n generalizing t s with
  | zero => exact h
  | succ n ih =>
      unfold pollUpTo
      split
      · exact hpoll s h
      · exact ih (t + 1) (hpoll s h)

/-- What the poll shows that ends the loop is there after it. -/
theorem pollUpTo_met {poll : σ → Bool × σ} {P Q : σ → Prop} (hpoll : ∀ s, P s → P (poll s).2)
    (hmet : ∀ s, P s → (poll s).1 = true → Q (poll s).2) (n t : Nat) {s : σ} (h : P s)
    (hdone : (pollUpTo poll n t s).met = true) : Q (pollUpTo poll n t s).state := by
  induction n generalizing t s with
  | zero => cases hdone
  | succ n ih =>
      unfold pollUpTo at hdone ⊢
      split
      · next hfirst => exact hmet s h hfirst
      · next hfirst =>
          rw [if_neg hfirst] at hdone
          exact ih (t + 1) (hpoll s h) hdone

/-- Each poll looks at the next one of `answers`; `pos` is the number of those that came before. -/
structure PollsNext (poll : σ → Bool × σ) (pos : σ → Nat) (p : α → Bool) (answers : Nat → α) :
    Prop where
  met : ∀ s, (poll s).1 = p (answers (pos s))
  next : ∀ s, pos (poll s).2 = pos s + 1

section PollsNext

variable {poll : σ → Bool × σ} {pos : σ → Nat} {p : α → Bool} {answers : Nat → α}

theorem PollsNext.met_eq (h : PollsNext poll pos p answers) (n t : Nat) (s : σ) :
    (pollUpTo poll n t s).met = (pollNext p answers n (pos s)).isSome := by
  induction n generalizing t s with
  | zero => rfl
  | succ n ih =>
      unfold pollUpTo pollNext
      rw [h.met s]
      split
      · rfl
      · rw [ih, h.next]

/-- The loop ends after the first answer that is polled for. -/
theorem PollsNext.pos_of_some (h : PollsNext poll pos p answers) {n k : Nat} (t : Nat) {s : σ}
    (hk : pollNext p answers n (pos s) = some k) : pos (pollUpTo poll n t s).state = k := by
  induction n generalizing t s with
  | zero => cases hk
  | succ n ih =>
      unfold pollNext at hk
      unfold pollUpTo
      rw [h.met s]
      split at hk
      · next hp =>
          cases hk
          rw [if_pos hp]
          exact h.next s
      · next hp =>
          rw [if_neg hp]
          refine ih (t + 1) ?_
          rw [h.next]
          exact hk

/-- A loop that compares the number of polls with its budget afterwards does not see what comes with the
    last one. -/
theorem PollsNext.timeout_eq_iff (h : PollsNext poll pos p answers) (n t : Nat) (s : σ) :
    (pollUpTo poll (n + 1) t s).timeout = t + (n + 1) ↔ pollNext p answers n (pos s) = none := by
  induction n generalizing t s with
  | zero =>
      unfold pollUpTo
      split <;> simp [pollUpTo, pollNext]
  | succ n ih =>
      rw [pollUpTo, pollNext, h.met s]
      split
      · simp
      · rw [← h.next, ← ih (t + 1)]
        omega

theorem PollsNext.timeout_eq_budget (h : PollsNext poll pos p answers) {n : Nat} (hn : 0 < n) (s : σ) :
    (pollUpTo poll n 0 s).timeout = n ↔ pollNext p answers (n - 1) (pos s) = none := by
  obtain ⟨m, rfl⟩ : ∃ m, n = m + 1 := ⟨n - 1, by omega⟩
  rw [Nat.add_sub_cancel, ← h.timeout_eq_iff m 0 s, Nat.zero_add]

/-- A loop that does not use up its budget has found what it polls for. -/
theorem PollsNext.met_of_timeout (h : PollsNext poll pos p answers) {n : Nat} (hn : 0 < n) {s : σ}
    (hleft : (pollUpTo poll n 0 s).timeout ≠ n) : (pollUpTo poll n 0 s).met = true := by
  rw [h.met_eq, Option.isSome_iff_exists]
  rw [Ne, h.timeout_eq_budget hn, ← Ne, Option.ne_none_iff_exists'] at hleft
  obtain ⟨k, hk⟩ := hleft
  exact ⟨k, pollNext_mono (Nat.sub_le n 1) hk⟩

end PollsNext

/-! ## Counters that run down -/

/-- `while (timeOut--) { if (poll) break; }`, with a counter of `w` bits: the counter and the state
    afterwards. -/
def pollDown (w : Nat) (poll : σ → Bool × σ) : (timeOut : Nat) → σ → BitVec w × σ
  -- the test that ends the loop has decremented as well
  | 0, s => (0 - 1, s)
  | timeOut + 1, s =>
      if (poll s).1 then (BitVec.ofNat w timeOut, (poll s).2) else pollDown w poll timeOut (poll s).2

section PollDown

variable {poll : σ → Bool × σ} {pos : σ → Nat} {p : α → Bool} {answers : Nat → α} {w n : Nat}

/-- The polls that are made are those up to the first answer that is polled for. -/
theorem PollsNext.pos_pollDown (h : PollsNext poll pos p answers) (w n : Nat) (s : σ) :
    pos (pollDown w poll n s).2 = (pollNext p answers n (pos s)).getD (pos s + n) := by
  induction n generalizing s with
  | zero => rfl
  | succ n ih =>
      rw [pollDown, pollNext, h.met s]
      split
      · exact h.next s
      · rw [ih, h.next, Nat.add_right_comm, Nat.add_assoc]

/-- The counter ends at 0 where the last poll finds what the others did not. Where none finds it, the
    counter wraps around. -/
theorem PollsNext.pollDown_eq_zero (h : PollsNext poll pos p answers) (hw : 0 < w) (hn : n < 2 ^ w)
    (s : σ) : (pollDown w poll (n + 1) s).1 = 0 ↔
      pollNext p answers n (pos s) = none ∧ p (answers (pos s + n)) = true := by
  induction n generalizing s with
  | zero =>
      have hwidth : w ≠ 0 := by omega
      rw [pollDown, h.met s]
      split
      · next hp => simpa [pollNext] using hp
      · next hp => simp [pollDown, pollNext, hp, hwidth]
  | succ n ih =>
      rw [pollDown, pollNext, h.met s]
      split
      · have hleft : BitVec.ofNat w (n + 1) ≠ 0 := by
          intro hzero
          have hval := congrArg BitVec.toNat hzero
          rw [BitVec.toNat_ofNat, Nat.mod_eq_of_lt hn] at hval
          cases hval
        exact iff_of_false hleft (by simp)
      · rw [ih (by omega), h.next, Nat.add_right_comm, Nat.add_assoc]

/-- A counter that is 0 after the loop tells that nothing was found by the polls that were made just if
    something was found before the last one. -/
theorem PollsNext.pollDown_tells_iff (h : PollsNext poll pos p answers) (hw : 0 < w) (hn : n < 2 ^ w)
    (s : σ) : ((pollDown w poll (n + 1) s).1 = 0 ↔ ¬ ∃ j, pos s ≤ j ∧
        j < pos (pollDown w poll (n + 1) s).2 ∧ p (answers j) = true) ↔
      ∃ j, j < n ∧ p (answers (pos s + j)) = true := by
  rw [h.pollDown_eq_zero hw hn s, h.pos_pollDown, ← pollNext_isSome, ← pollNext_isSome_iff]
  cases hfound : pollNext p answers n (pos s) with
  | none =>
      have hlast : p (answers (pos s + n)) = true ↔ (pollNext p answers (n + 1) (pos s)).isSome := by
        rw [← not_iff_not, Bool.not_eq_true, ← pollNext_succ_eq_none hfound,
          Option.not_isSome_iff_eq_none]
      simp only [hlast, true_and]
      cases pollNext p answers (n + 1) (pos s) <;> simp
  | some k =>
      rw [pollNext_mono (Nat.le_succ n) hfound]
      simp

end PollDown
