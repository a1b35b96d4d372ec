import Mathlib.Data.List.Induction
import Mathlib.Tactic.Common

set_option autoImplicit false

/-! # Sequences of calls

Calls made one after the other, each from the state in which the one before returned. `Calls.All`
says of every call of a sequence what `P` says of a call, the state it found and the state it left.
`Calls.after` is the state that a sequence leaves, and `Calls.last` what is left of a value that some of
the calls set. -/

namespace Calls

variable {σ C : Type} (step : C → σ → σ)

def All (P : C → σ → σ → Prop) : List C → σ → Prop
  | [], _ => True
  | c :: calls, s => P c s (step c s) ∧ All P calls (step c s)

variable {step} {P : C → σ → σ → Prop}

/-- One call of which it is wrong refutes what is said of all sequences. -/
theorem not_forall_all {c : C} {s : σ} (h : ¬ P c s (step c s)) :
    ¬ ∀ calls, All step P calls s :=
  fun hall => h (hall [c]).1

/-- Where an invariant holds, what is said of a call may be replaced by what it amounts to there. -/
theorem all_congr {I : σ → Prop} {Q : C → σ → σ → Prop}
    (hP : ∀ c s, I s → (P c s (step c s) ↔ Q c s (step c s)))
    (hI : ∀ c s, I s → P c s (step c s) → I (step c s)) {calls : List C} {s : σ} (hs : I s) :
    All step P calls s ↔ All step Q calls s := by
  induction calls generalizing s with
  | nil => simp [All]
  | cons c calls ih =>
      rw [All, All, ← hP c s hs]
      exact and_congr_right fun hc => ih (hI c s hs hc)

/-- What is said of the call alone is said of each call of the list. -/
theorem all_const {Q : C → Prop} {calls : List C} {s : σ} :
    All step (fun c _ _ => Q c) calls s ↔ ∀ c ∈ calls, Q c := by
  induction calls generalizing s with
  | nil => simp [All]
  | cons c calls ih => rw [All, List.forall_mem_cons, ih]

/-- If what is said of a call depends on the call alone, as long as an invariant holds, and what is
    said preserves the invariant, then it is said of every call or fails at the first that is not so. -/
theorem all_iff {I : σ → Prop} {Q : C → Prop} (hP : ∀ c s, I s → (P c s (step c s) ↔ Q c))
    (hI : ∀ c s, I s → P c s (step c s) → I (step c s)) {calls : List C} {s : σ} (hs : I s) :
    All step P calls s ↔ ∀ c ∈ calls, Q c :=
  (all_congr hP hI hs).trans all_const

/-! ## The state that is left -/

section After

variable (step)

def after (calls : List C) (s : σ) : σ := calls.foldl (fun s c => step c s) s

@[simp] theorem after_nil (s : σ) : after step [] s = s := rfl

@[simp] theorem after_append_singleton (calls : List C) (c : C) (s : σ) :
    after step (calls ++ [c]) s = step c (after step calls s) :=
  List.foldl_append

end After

variable {α : Type}

/-- What the last call gives that gives something, or what there was before. -/
def last (gives : C → Option α) (calls : List C) (before : α) : α :=
  (calls.reverse.findSome? gives).getD before

@[simp] theorem last_nil (gives : C → Option α) (before : α) : last gives [] before = before := rfl

@[simp] theorem last_append_singleton (gives : C → Option α) (calls : List C) (c : C) (before : α) :
    last gives (calls ++ [c]) before = (gives c).getD (last gives calls before) := by
  unfold last
  rw [List.reverse_concat, List.findSome?_cons]
  cases gives c <;> rfl

/-- A part of the state that each call sets, or leaves alone, is as the last call that set it made it. -/
theorem after_eq_last {f : σ → α} {gives : C → Option α} {ok : C → Prop}
    (hstep : ∀ c s, ok c → f (step c s) = (gives c).getD (f s)) {calls : List C}
    (hcalls : ∀ c ∈ calls, ok c) (s : σ) : f (after step calls s) = last gives calls (f s) := by
  induction calls using List.reverseRecOn with
  | nil => rfl
  | append_singleton calls c ih =>
      rw [after_append_singleton, last_append_singleton, hstep c _ (hcalls c (by simp)),
        ih fun c' hc' => hcalls c' (by simp [hc'])]

/-! ## Every moment of a sequence -/

/-- What holds before the first call, and is kept by a call just if something is true of the call and
    of those before it, holds at every moment just if this is true of every call. -/
theorem prefixes_iff {Good : List C → Prop} {Ok : List C → C → Prop} {calls : List C}
    (hnil : Good []) (hstep : ∀ past c, past ++ [c] <+: calls → Good past →
      (Good (past ++ [c]) ↔ Ok past c)) :
    (∀ past, past <+: calls → Good past) ↔ ∀ past c, past ++ [c] <+: calls → Ok past c := by
  constructor
  · intro h past c hprefix
    have hpast : past <+: calls := (List.prefix_append past [c]).trans hprefix
    exact (hstep past c hprefix (h past hpast)).mp (h _ hprefix)
  · intro h past
    induction past using List.reverseRecOn with
    | nil => exact fun _ => hnil
    | append_singleton past c ih =>
        intro hprefix
        have hpast : past <+: calls := (List.prefix_append past [c]).trans hprefix
        exact (hstep past c hprefix (ih hpast)).mpr (h past c hprefix)

end Calls
