import McuDrivers.Library.Prog

set_option autoImplicit false

/-! # Runs of a program in its environment

`Prog.wp` speaks of all runs of a program at once. `Prog.Run` is one of them, with the accesses that it
makes: what holds of a run can then depend on what the environment did in it. -/

namespace Prog

open Relation

variable {σ α β : Type}

/-- A run of a program from the state of its first access to its result, with its accesses, each as the
    states before and after it. After every access the environment takes any number of `R` steps. -/
inductive Run (R : σ → σ → Prop) : Prog σ α → σ → List (σ × σ) → α → σ → Prop where
  | ret (a : α) (s : σ) : Run R (.ret a) s [] a s
  | act {upd : σ → σ} {next : σ → Prog σ α} {s s' t : σ} {tr : List (σ × σ)} {a : α}
      (henv : ReflTransGen R (upd s) s') (hrest : Run R (next s) s' tr a t) :
      Run R (.act upd next) s ((s, upd s) :: tr) a t

variable {R : σ → σ → Prop} {s t : σ} {tr : List (σ × σ)} {a : α}

@[simp] theorem run_ret {b : α} : Run R (.ret b) s tr a t ↔ tr = [] ∧ a = b ∧ t = s := by
  constructor
  · intro h
    cases h
    exact ⟨rfl, rfl, rfl⟩
  · rintro ⟨rfl, rfl, rfl⟩
    exact .ret _ _

theorem run_get {f : σ → α} : Run R (get f) s tr a t ↔
    tr = [(s, s)] ∧ a = f s ∧ ReflTransGen R s t := by
  constructor
  · intro h
    cases h with
    | act henv hrest =>
        obtain ⟨rfl, rfl, rfl⟩ := run_ret.mp hrest
        exact ⟨rfl, rfl, henv⟩
  · rintro ⟨rfl, rfl, henv⟩
    exact .act henv (.ret _ _)

/-- A run of a sequence is a run of the first part, and one of the second from where it ends. -/
theorem run_bind {p : Prog σ α} {q : α → Prog σ β} {b : β} : Run R (p >>= q) s tr b t ↔
    ∃ tr₁ a u tr₂, tr = tr₁ ++ tr₂ ∧ Run R p s tr₁ a u ∧ Run R (q a) u tr₂ b t := by
  induction p generalizing s tr with
  | ret a =>
      constructor
      · intro h
        exact ⟨[], a, s, tr, rfl, .ret _ _, h⟩
      · rintro ⟨tr₁, a', u, tr₂, rfl, hp, hq⟩
        obtain ⟨rfl, rfl, rfl⟩ := run_ret.mp hp
        exact hq
  | act upd next ih =>
      constructor
      · intro h
        cases h with
        | act henv hrest =>
            obtain ⟨tr₁, a, u, tr₂, rfl, hp, hq⟩ := (ih s).mp hrest
            exact ⟨_, a, u, tr₂, rfl, .act henv hp, hq⟩
      · rintro ⟨tr₁, a, u, tr₂, rfl, hp, hq⟩
        cases hp with
        | act henv hrest => exact .act henv ((ih s).mpr ⟨_, a, u, tr₂, rfl, hrest, hq⟩)

theorem Run.bind {p : Prog σ α} {q : α → Prog σ β} {u : σ} {tr₁ tr₂ : List (σ × σ)} {b : β}
    (hp : Run R p s tr₁ a u) (hq : Run R (q a) u tr₂ b t) : Run R (p >>= q) s (tr₁ ++ tr₂) b t :=
  run_bind.mpr ⟨tr₁, a, u, tr₂, rfl, hp, hq⟩

/-- The run in which the environment does nothing. -/
theorem run_exec (p : Prog σ α) (s : σ) : Run R p s (p.trace s) (p.exec s).1 (p.exec s).2 := by
  induction p generalizing s with
  | ret a => exact .ret _ _
  | act upd next ih => exact .act .refl (ih s (upd s))

namespace Run

/-- What neither the environment nor an access can break holds in every access of a run, and at its end. -/
theorem keeps {I : σ → Prop} {p : Prog σ α} (h : Run R p s tr a t) (hR : Stable R I)
    (hp : p.Accesses fun s s' => I s → I s') (hs : I s) : (∀ acc ∈ tr, I acc.1) ∧ I t := by
  induction h with
  | ret a s => exact ⟨by simp, hs⟩
  | @act upd next s s' t tr a henv hrest ih =>
      obtain ⟨hall, ht⟩ := ih (hp.2 s) (hR.star (hp.1 s hs) henv)
      exact ⟨List.forall_mem_cons.mpr ⟨hs, hall⟩, ht⟩

/-- What every run ends in is what this one ends in. -/
theorem of_wp {G : σ → σ → Prop} {Q : α → σ → Prop} {p : Prog σ α} (h : Run R p s tr a t)
    (hQ : ∀ a, Stable R (Q a)) (hp : p.wp R (fun _ _ => True) G Q s) : Q a t := by
  induction h with
  | ret a s => exact hp
  | act henv hrest ih => exact ih (wp_env hQ (hp _ .refl trivial).2 henv)

theorem of_returns {Post : α → Prop} {p : Prog σ α} (h : Run R p s tr a t) (hp : p.Returns Post) :
    Post a := by
  induction h with
  | ret a s => exact hp
  | @act upd next s s' t tr a henv hrest ih => exact ih (hp s)

end Run

end Prog
