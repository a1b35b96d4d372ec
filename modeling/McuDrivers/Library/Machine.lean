import Mathlib.Data.List.Forall2
import Mathlib.Tactic.Common

set_option autoImplicit false

/-! # Runs of a machine

A machine takes events one after another; each gives an answer and a new state, or an error that ends
the run. What a step keeps, of the state and of the events and answers so far, a run keeps. -/

namespace Machine

variable {σ ε ο : Type*} (step : σ → ε → Except String (ο × σ))

/-- The answers to some events, and the state after them. -/
def run : List ε → σ → Except String (List ο × σ)
  | [], s => .ok ([], s)
  | e :: es, s => do
      let (o, s) ← step s e
      let (os, s) ← run es s
      .ok (o :: os, s)

variable {step} {s s' s'' : σ} {e : ε} {o : ο} {es es' : List ε} {os os' : List ο}

@[simp] theorem run_nil : run step [] s = .ok ([], s) := rfl

theorem run_cons_of_ok (hstep : step s e = .ok (o, s')) (hrun : run step es s' = .ok (os, s'')) :
    run step (e :: es) s = .ok (o :: os, s'') := by
  simp only [run, hstep, hrun, bind, Except.bind]

/-- A run that succeeds is its first step and the run after it. -/
theorem of_run_cons (hrun : run step (e :: es) s = .ok (os, s'')) :
    ∃ o os' s', step s e = .ok (o, s') ∧ run step es s' = .ok (os', s'') ∧ os = o :: os' := by
  simp only [run, bind, Except.bind] at hrun
  split at hrun
  · cases hrun
  next r hfirst =>
    split at hrun
    · cases hrun
    next r' hrest =>
      obtain ⟨rfl, rfl⟩ := Prod.mk.inj (Except.ok.inj hrun)
      exact ⟨r.1, r'.1, r.2, hfirst, hrest, rfl⟩

theorem run_append_of_ok (hrun : run step es s = .ok (os, s')) (hrun' : run step es' s' = .ok (os', s'')) :
    run step (es ++ es') s = .ok (os ++ os', s'') := by
  induction es generalizing s os with
  | nil =>
    obtain ⟨rfl, rfl⟩ := Prod.mk.inj (Except.ok.inj hrun)
    exact hrun'
  | cons e es ih =>
    obtain ⟨o, os₁, s₁, hfirst, hrest, rfl⟩ := of_run_cons hrun
    exact run_cons_of_ok hfirst (ih hrest)

/-- What every step keeps of the events, the answers and the state, every run keeps. -/
theorem run_history (I : List ε → List ο → σ → Prop) (allowed : ε → Prop)
    (hstep : ∀ past answers s e, I past answers s → allowed e →
      ∃ o s', step s e = .ok (o, s') ∧ I (past ++ [e]) (answers ++ [o]) s')
    {past : List ε} {answers : List ο} (hs : I past answers s) (hes : ∀ e ∈ es, allowed e) :
    ∃ os s', run step es s = .ok (os, s') ∧ I (past ++ es) (answers ++ os) s' := by
  induction es generalizing s past answers with
  | nil => exact ⟨[], s, rfl, by simpa using hs⟩
  | cons e es ih =>
    obtain ⟨o, s₁, hfirst, hs₁⟩ := hstep past answers s e hs (hes e (List.mem_cons_self ..))
    obtain ⟨os, s', hrest, hs'⟩ := ih hs₁ fun e' he' => hes e' (List.mem_cons_of_mem _ he')
    refine ⟨o :: os, s', run_cons_of_ok hfirst hrest, ?_⟩
    simpa using hs'

/-- What every step keeps of the state, every run keeps. -/
theorem run_invariant {I : σ → Prop} {allowed : ε → Prop}
    (hstep : ∀ s e, I s → allowed e → ∃ o s', step s e = .ok (o, s') ∧ I s') (hs : I s)
    (hes : ∀ e ∈ es, allowed e) : ∃ os s', run step es s = .ok (os, s') ∧ I s' :=
  @run_history _ _ _ step s es (fun _ _ => I) allowed (fun _ _ => hstep) [] [] hs hes

/-- What every step that succeeds keeps of the answers so far and the state, a run keeps. -/
theorem run_answers {I : List ο → σ → Prop}
    (hstep : ∀ past s e o s', I past s → step s e = .ok (o, s') → I (past ++ [o]) s')
    {past : List ο} (hs : I past s) (hrun : run step es s = .ok (os, s')) : I (past ++ os) s' := by
  induction es generalizing s past os with
  | nil =>
    obtain ⟨rfl, rfl⟩ := Prod.mk.inj (Except.ok.inj hrun)
    simpa using hs
  | cons e es ih =>
    obtain ⟨o, os₁, s₁, hfirst, hrest, rfl⟩ := of_run_cons hrun
    simpa using ih (hstep past s e o s₁ hs hfirst) hrest

/-! ## Two machines -/

section Along

variable (step) (P : σ → ε → Prop)

/-- The condition holds at every step of the run, as far as the run goes. -/
def Along : List ε → σ → Prop
  | [], _ => True
  | e :: es, s => P s e ∧ match step s e with
    | .ok (_, s) => Along es s
    | .error _ => True

instance Along.decidable [∀ s e, Decidable (P s e)] : ∀ es s, Decidable (Along step P es s)
  | [], _ => isTrue trivial
  | e :: es, s =>
      have : Decidable (match step s e with
          | .ok (_, s) => Along step P es s
          | .error _ => True) :=
        match step s e with
        | .ok (_, s) => Along.decidable es s
        | .error _ => isTrue trivial
      inferInstanceAs (Decidable (_ ∧ _))

end Along

variable {τ : Type*} {step' : τ → ε → Except String (ο × τ)} {P : τ → ε → Prop} {I : τ → Prop}

/-- Where the steps of one machine, along a run on which `P` holds, are the images of another's, the run is
the image of the other's run. -/
theorem run_map (f : τ → σ)
    (hstep : ∀ t e, I t → P t e → step (f t) e = (step' t e).map (Prod.map id f))
    (hkept : ∀ t e o t', I t → P t e → step' t e = .ok (o, t') → I t') {t : τ} (ht : I t)
    (hes : Along step' P es t) : run step es (f t) = (run step' es t).map (Prod.map id f) := by
  induction es generalizing t with
  | nil => rfl
  | cons e es ih =>
    obtain ⟨he, hes⟩ := hes
    cases h : step' t e with
    | error err => simp [run, hstep t e ht he, h, bind, Except.bind, Except.map]
    | ok r =>
      obtain ⟨o, t'⟩ := r
      simp only [h] at hes
      have hrest := ih (hkept t e o t' ht he h) hes
      simp only [run, hstep t e ht he, h, bind, Except.bind, Except.map, Prod.map, id] at hrest ⊢
      rw [hrest]
      cases run step' es t' <;> rfl

/-- What the steps of a run on which `P` holds keep, the run keeps. -/
theorem run_along (hkept : ∀ t e o t', I t → P t e → step' t e = .ok (o, t') → I t') {t t' : τ}
    (ht : I t) (hes : Along step' P es t) (hrun : run step' es t = .ok (os, t')) : I t' := by
  induction es generalizing t os with
  | nil =>
    obtain ⟨rfl, rfl⟩ := Prod.mk.inj (Except.ok.inj hrun)
    exact ht
  | cons e es ih =>
    obtain ⟨he, hes⟩ := hes
    obtain ⟨o, os₁, t₁, hfirst, hrest, -⟩ := of_run_cons hrun
    simp only [hfirst] at hes
    exact ih (hkept t e o t₁ ht he hfirst) hes hrest

end Machine
