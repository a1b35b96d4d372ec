import Mathlib.Data.List.Basic

set_option autoImplicit false

/-! # Counted loops

`forLoop n body` is `for (i = 0; i < n; i++) body(i)`, on an explicit state. Its one rule is the
loop invariant, which may speak of the counter. -/

variable {σ : Type}

def forLoop (n : Nat) (body : Nat → σ → σ) (s : σ) : σ :=
  (List.range n).foldl (fun s i => body i s) s

@[simp] theorem forLoop_zero (body : Nat → σ → σ) (s : σ) : forLoop 0 body s = s := rfl

theorem forLoop_succ (n : Nat) (body : Nat → σ → σ) (s : σ) :
    forLoop (n + 1) body s = body n (forLoop n body s) := by
  simp [forLoop, List.range_succ]

/-- What holds before the loop and is carried from each iteration to the next holds after it. -/
theorem forLoop_induct {n : Nat} (body : Nat → σ → σ) {s : σ} (P : Nat → σ → Prop) (h₀ : P 0 s)
    (hstep : ∀ i t, i < n → P i t → P (i + 1) (body i t)) : P n (forLoop n body s) := by
  induction n with
  | zero => exact h₀
  | succ n ih =>
      rw [forLoop_succ]
      refine hstep n _ (by omega) (ih fun i t hi => hstep i t (by omega))

theorem forLoop_congr {n : Nat} {body body' : Nat → σ → σ} (h : ∀ i, i < n → body i = body' i) (s : σ) :
    forLoop n body s = forLoop n body' s := by
  induction n with
  | zero => rfl
  | succ n ih =>
      rw [forLoop_succ, forLoop_succ, h n (by omega), ih fun i hi => h i (by omega)]

/-- What no iteration changes is not changed by the loop. -/
theorem forLoop_keeps {α : Type} (n : Nat) (body : Nat → σ → σ) (f : σ → α)
    (h : ∀ i s, f (body i s) = f s) (s : σ) : f (forLoop n body s) = f s :=
  forLoop_induct body (fun _ t => f t = f s) rfl fun i t _ ht => (h i t).trans ht

/-- If each iteration changes the part of the state that has its number and keeps the others, the loop
    changes each part once. -/
theorem forLoop_pointwise {α : Type} {n : Nat} (body : Nat → σ → σ) (part : Nat → σ → α)
    (change : Nat → α → α)
    (hbody : ∀ i j t, i < n → j < n →
      part j (body i t) = if i = j then change j (part j t) else part j t) (s : σ) {j : Nat}
    (hj : j < n) : part j (forLoop n body s) = change j (part j s) := by
  have hloop := forLoop_induct body (s := s)
    (fun k t => part j t = if j < k then change j (part j s) else part j s) (if_neg (Nat.not_lt_zero j)).symm
    (n := n) ?_
  · rw [hloop, if_pos hj]
  · intro i t hi ht
    rw [hbody i j t hi hj, ht]
    rcases Nat.lt_trichotomy i j with hlt | rfl | hgt
    · simp [show i ≠ j by omega, show ¬ j < i by omega, show ¬ j < i + 1 by omega]
    · simp
    · simp [show i ≠ j by omega, show j < i by omega, show j < i + 1 by omega]
