import McuDrivers.Library.Prog
import Mathlib.Logic.Function.Iterate

set_option autoImplicit false

/-! # Programs among events

What the environment does while a program runs, given as a schedule: the events before each access of
the program, and those after the last one. `Prog.among` gives the result of the program, and every state
there was from its start to its end. -/

namespace Schedule

variable {σ E β : Type} (env : E → σ → σ)

def after (events : List E) (s : σ) : σ := events.foldl (fun s e => env e s) s

/-- The states that the events pass through, with the first and the last one. -/
def passed : List E → σ → List σ
  | [], s => [s]
  | e :: events, s => s :: passed events (env e s)

variable {env} {s u : σ}

@[simp] theorem after_nil : after env [] s = s := rfl

@[simp] theorem after_cons (e : E) (events : List E) :
    after env (e :: events) s = after env events (env e s) := rfl

theorem after_append (a b : List E) : after env (a ++ b) s = after env b (after env a s) :=
  List.foldl_append

theorem mem_passed_append (a b : List E) :
    u ∈ passed env (a ++ b) s ↔ u ∈ passed env a s ∨ u ∈ passed env b (after env a s) := by
  induction a generalizing s with
  | nil =>
      have hfirst : s ∈ passed env b s := by cases b <;> simp [passed]
      simp only [List.nil_append, passed, List.mem_singleton, after_nil]
      constructor
      · exact .inr
      · rintro (rfl | h)
        · exact hfirst
        · exact h
  | cons e a ih => simp only [List.cons_append, passed, List.mem_cons, ih, after_cons, or_assoc]

/-! ## A value that the events move on -/

variable {val : σ → β} {f : β → β} {ticks : E → Bool}

theorem val_after (henv : ∀ e s, val (env e s) = if ticks e then f (val s) else val s)
    (events : List E) (s : σ) :
    val (after env events s) = f^[events.countP ticks] (val s) := by
  induction events generalizing s with
  | nil => rfl
  | cons e events ih =>
      rw [after_cons, ih, henv]
      cases h : ticks e with
      | false => simp [h]
      | true => simp [h]

/-- The values passed through are those that the ticks among the events lead to. -/
theorem exists_passed_iff (henv : ∀ e s, val (env e s) = if ticks e then f (val s) else val s)
    (P : β → Prop) (events : List E) (s : σ) :
    (∃ u ∈ passed env events s, P (val u)) ↔
      ∃ j, j ≤ events.countP ticks ∧ P (f^[j] (val s)) := by
  induction events generalizing s with
  | nil => simp [passed]
  | cons e events ih =>
      simp only [passed, List.mem_cons, exists_eq_or_imp, ih, henv, List.countP_cons]
      cases ticks e with
      | false =>
          simp only [Bool.false_eq_true, if_false, Nat.add_zero]
          constructor
          · rintro (h | h)
            · exact ⟨0, Nat.zero_le _, h⟩
            · exact h
          · exact .inr
      | true =>
          simp only [if_true]
          constructor
          · rintro (h | ⟨j, hj, h⟩)
            · exact ⟨0, Nat.zero_le _, h⟩
            · exact ⟨j + 1, by omega, h⟩
          · rintro ⟨j, hj, h⟩
            cases j with
            | zero => exact .inl h
            | succ j => exact .inr ⟨j, by omega, h⟩

end Schedule

namespace Prog

open Schedule

variable {σ E α β γ : Type} (env : E → σ → σ)

/-- A program with the events of one list before each of its accesses, and those of the lists that are
    left after the last one: its result, and the states from its start to its end. -/
def among : Prog σ α → List (List E) → σ → α × List σ
  | ret a, segs, s => (a, passed env segs.flatten s)
  | act upd next, segs, s =>
      let found := after env (segs.headD []) s
      let rest := (next found).among segs.tail (upd found)
      (rest.1, passed env (segs.headD []) s ++ rest.2)

/-- Two reads, and what is made of them. -/
theorem among_two_reads (f : σ → α) (g : σ → β) (h : α → β → γ) (before between later : List E)
    (s : σ) :
    ((do let a ← get f; let b ← get g; return h a b : Prog σ γ).among env
        [before, between, later] s).1 =
      h (f (Schedule.after env before s)) (g (Schedule.after env (before ++ between) s)) := by
  rw [Schedule.after_append]
  rfl

variable {env}

theorem mem_among_two_reads (f : σ → α) (g : σ → β) (h : α → β → γ)
    (before between later : List E) (s u : σ) :
    u ∈ ((do let a ← get f; let b ← get g; return h a b : Prog σ γ).among env
        [before, between, later] s).2 ↔
      u ∈ passed env (before ++ between ++ later) s := by
  rw [mem_passed_append, mem_passed_append, Schedule.after_append, or_assoc, ← List.mem_append,
    ← List.mem_append]
  simp only [get, act_bind, ret_bind, pure_eq, among, List.headD_cons, List.tail_cons, id_eq,
    List.flatten_cons, List.flatten_nil, List.append_nil]

end Prog
