import Mathlib.Logic.Relation

set_option autoImplicit false

/-! # Programs as sequences of atomic accesses

A driver function reads and writes memory that a peripheral reads and writes at the same time. Such
a function is a `Prog σ α`: a tree of atomic accesses to a shared state `σ`, ending in a value of
type `α`. Between two accesses the other party may do what it likes; inside one it may not. Nothing
here knows what the state is.

Three readings of a program are given:

* `Prog.exec` runs it alone, from a state to its result and final state;
* `Prog.wp R A G p Q s` is the rely/guarantee reading: whatever the environment does between the
  accesses (steps of `R`), as long as every access of the program is one that `A` admits, every
  access is one that `G` allows, and the program ends only in states and results that `Q` accepts;
* `Interleave.lean` gives the small-step reading, and derives runs from `wp`. -/

/-- A program over the shared state `σ`: either it is over, or it makes one atomic access (`upd`)
    and goes on with what it saw (`next`, applied to the state the access found). -/
inductive Prog (σ α : Type) where
  | ret (a : α) : Prog σ α
  | act (upd : σ → σ) (next : σ → Prog σ α) : Prog σ α

namespace Prog

variable {σ α β : Type}

/-- Sequencing: `q` takes over where `p` returns. -/
def andThen : Prog σ α → (α → Prog σ β) → Prog σ β
  | ret a, q => q a
  | act upd next, q => act upd (fun s => (next s).andThen q)

instance : Monad (Prog σ) where
  pure := ret
  bind := andThen

/-- An atomic read. -/
def get (f : σ → α) : Prog σ α := act id (fun s => ret (f s))

/-- An atomic write. -/
def put (f : σ → σ) : Prog σ Unit := act f (fun _ => ret ())

@[simp] theorem pure_eq (a : α) : (pure a : Prog σ α) = ret a := rfl

@[simp] theorem ret_bind (a : α) (q : α → Prog σ β) : (ret a >>= q) = q a := rfl

@[simp] theorem act_bind (upd : σ → σ) (next : σ → Prog σ α) (q : α → Prog σ β) :
    (act upd next >>= q) = act upd (fun s => next s >>= q) := rfl

theorem bind_assoc {γ : Type} (p : Prog σ α) (q : α → Prog σ β) (r : β → Prog σ γ) :
    ((p >>= q) >>= r) = (p >>= fun a => q a >>= r) := by
  induction p with
  | ret a => rfl
  | act upd next ih =>
      simp only [act_bind]
      congr 1
      funext s
      exact ih s

/-! ## Running a program alone -/

/-- The result and the final state of a program that nobody interferes with. -/
def exec : Prog σ α → σ → α × σ
  | ret a, s => (a, s)
  | act upd next, s => (next s).exec (upd s)

@[simp] theorem exec_ret (a : α) (s : σ) : (ret a : Prog σ α).exec s = (a, s) := rfl

@[simp] theorem exec_act (upd : σ → σ) (next : σ → Prog σ α) (s : σ) :
    (act upd next).exec s = (next s).exec (upd s) := rfl

@[simp] theorem exec_get (f : σ → α) (s : σ) : (get f).exec s = (f s, s) := rfl

@[simp] theorem exec_put (f : σ → σ) (s : σ) : (put f).exec s = ((), f s) := rfl

@[simp] theorem exec_bind (p : Prog σ α) (q : α → Prog σ β) (s : σ) :
    (p >>= q).exec s = (q (p.exec s).1).exec (p.exec s).2 := by
  induction p generalizing s with
  | ret a => rfl
  | act upd next ih => exact ih s (upd s)

@[simp] theorem exec_map (f : α → β) (p : Prog σ α) (s : σ) :
    (f <$> p).exec s = (f (p.exec s).1, (p.exec s).2) :=
  exec_bind p (fun a => ret (f a)) s

/-- The accesses of that run, each as the states before and after it. -/
def trace : Prog σ α → σ → List (σ × σ)
  | ret _, _ => []
  | act upd next, s => (s, upd s) :: (next s).trace (upd s)

@[simp] theorem trace_ret (a : α) (s : σ) : (ret a : Prog σ α).trace s = [] := rfl

@[simp] theorem trace_put (f : σ → σ) (s : σ) : (put f).trace s = [(s, f s)] := rfl

@[simp] theorem trace_bind (p : Prog σ α) (q : α → Prog σ β) (s : σ) :
    (p >>= q).trace s = p.trace s ++ (q (p.exec s).1).trace (p.exec s).2 := by
  induction p generalizing s with
  | ret a => rfl
  | act upd next ih =>
      rw [act_bind, trace, ih s]
      rfl

/-! ## Rely and guarantee -/

section RelyGuarantee

variable (R A G : σ → σ → Prop)

/-- Weakest precondition under interference. Before each access the environment takes any number of
    `R` steps; the access itself is assumed to be admitted by `A` and has to be allowed by `G`. -/
def wp : Prog σ α → (α → σ → Prop) → σ → Prop
  | ret a, Q, s => Q a s
  | act upd next, Q, s => ∀ s', Relation.ReflTransGen R s s' → A s' (upd s') →
      G s' (upd s') ∧ (next s').wp Q (upd s')

/-- An assertion that the environment cannot invalidate. -/
def Stable (P : σ → Prop) : Prop := ∀ s s', P s → R s s' → P s'

variable {R A G}

theorem Stable.star {P : σ → Prop} (hP : Stable R P) {s s' : σ} (h : P s)
    (hs : Relation.ReflTransGen R s s') : P s' := by
  induction hs with
  | refl => exact h
  | tail _ hstep ih => exact hP _ _ ih hstep

theorem Stable.and {P P' : σ → Prop} (hP : Stable R P) (hP' : Stable R P') :
    Stable R (fun s => P s ∧ P' s) :=
  fun s s' h hs => ⟨hP s s' h.1 hs, hP' s s' h.2 hs⟩

@[simp] theorem wp_ret (a : α) (Q : α → σ → Prop) (s : σ) :
    (ret a : Prog σ α).wp R A G Q s ↔ Q a s := Iff.rfl

theorem wp_bind (p : Prog σ α) (q : α → Prog σ β) (Q : β → σ → Prop) (s : σ) :
    (p >>= q).wp R A G Q s ↔ p.wp R A G (fun a s => (q a).wp R A G Q s) s := by
  induction p generalizing s with
  | ret a => rfl
  | act upd next ih =>
      simp only [act_bind, wp]
      refine forall_congr' fun s' => ?_
      simp only [ih]

theorem wp_mono {p : Prog σ α} {Q Q' : α → σ → Prop} {s : σ} (h : p.wp R A G Q s)
    (hQ : ∀ a s, Q a s → Q' a s) : p.wp R A G Q' s := by
  induction p generalizing s with
  | ret a => exact hQ a s h
  | act upd next ih =>
      intro s' hs ha
      exact ⟨(h s' hs ha).1, ih s' (h s' hs ha).2⟩

/-- Rule for a sequence, with an assertion in the middle. -/
theorem wp_seq {p : Prog σ α} {q : α → Prog σ β} {P : α → σ → Prop} {Q : β → σ → Prop} {s : σ}
    (hp : p.wp R A G P s) (hq : ∀ a s, P a s → (q a).wp R A G Q s) :
    (p >>= q).wp R A G Q s :=
  (wp_bind p q Q s).mpr (wp_mono hp hq)

/-- Frame rule: what the environment keeps and no allowed access breaks still holds at the end. -/
theorem wp_frame {p : Prog σ α} {Q : α → σ → Prop} {I : σ → Prop} {s : σ}
    (h : p.wp R A G Q s) (hI : Stable R I) (hG : ∀ s s', G s s' → I s → I s') (hi : I s) :
    p.wp R A G (fun a s => Q a s ∧ I s) s := by
  induction p generalizing s with
  | ret a => exact ⟨h, hi⟩
  | act upd next ih =>
      intro s' hs ha
      have hstep := h s' hs ha
      exact ⟨hstep.1, ih s' hstep.2 (hG _ _ hstep.1 (hI.star hi hs))⟩

/-- An environment that does nothing is one of the environments. -/
theorem exec_of_wp {p : Prog σ α} {Q : α → σ → Prop} {s : σ} (h : p.wp R A G Q s)
    (hA : ∀ s s', A s s') : Q (p.exec s).1 (p.exec s).2 := by
  induction p generalizing s with
  | ret a => exact h
  | act upd next ih => exact ih s (h s .refl (hA _ _)).2

/-- The environment may step before the first access as well. -/
theorem wp_env {p : Prog σ α} {Q : α → σ → Prop} {s s' : σ} (hQ : ∀ a, Stable R (Q a))
    (h : p.wp R A G Q s) (hs : Relation.ReflTransGen R s s') : p.wp R A G Q s' := by
  cases p with
  | ret a => exact (hQ a).star h hs
  | act upd next => exact fun s'' hs' => h s'' (hs.trans hs')

/-- The first access, made at once, and the rest of the program. -/
theorem wp_first {p : Prog σ α} {Q : α → σ → Prop} {s : σ} {upd : σ → σ} {next : σ → Prog σ α}
    (hp : p = act upd next) (h : p.wp R A G Q s) (ha : A s (upd s)) :
    G s (upd s) ∧ (next s).wp R A G Q (upd s) := by
  subst hp
  exact h s .refl ha

/-- Rule for a read: assert something stable, and use it where the read happens. -/
theorem wp_get {f : σ → α} {Q : α → σ → Prop} {P : σ → Prop} {s : σ} (hP : Stable R P)
    (h : P s) (hq : ∀ s, P s → G s s ∧ Q (f s) s) : (get f).wp R A G Q s :=
  fun s' hs _ => hq s' (hP.star h hs)

/-- Rule for a write. -/
theorem wp_put {f : σ → σ} {Q : Unit → σ → Prop} {P : σ → Prop} {s : σ} (hP : Stable R P)
    (h : P s) (hq : ∀ s, P s → A s (f s) → G s (f s) ∧ Q () (f s)) : (put f).wp R A G Q s :=
  fun s' hs ha => hq s' (hP.star h hs) ha

end RelyGuarantee

/-! ## What a program can do and return at all -/

/-- Every access that the program can come to make is one that `G` allows, whatever it sees. -/
def Accesses (G : σ → σ → Prop) : Prog σ α → Prop
  | ret _ => True
  | act upd next => (∀ s, G s (upd s)) ∧ ∀ s, (next s).Accesses G

@[simp] theorem accesses_ret (G : σ → σ → Prop) (a : α) : (ret a : Prog σ α).Accesses G := trivial

@[simp] theorem accesses_get (G : σ → σ → Prop) (f : σ → α) :
    (get f).Accesses G ↔ ∀ s, G s s := by
  simp [get, Accesses]

@[simp] theorem accesses_put (G : σ → σ → Prop) (f : σ → σ) :
    (put f).Accesses G ↔ ∀ s, G s (f s) := by
  simp [put, Accesses]

theorem accesses_bind {G : σ → σ → Prop} {p : Prog σ α} {q : α → Prog σ β} (hp : p.Accesses G)
    (hq : ∀ a, (q a).Accesses G) : (p >>= q).Accesses G := by
  induction p with
  | ret a => exact hq a
  | act upd next ih => exact ⟨hp.1, fun s => ih s (hp.2 s)⟩

theorem accesses_mono {G G' : σ → σ → Prop} {p : Prog σ α} (hp : p.Accesses G)
    (h : ∀ s s', G s s' → G' s s') : p.Accesses G' := by
  induction p with
  | ret a => trivial
  | act upd next ih => exact ⟨fun s => h _ _ (hp.1 s), fun s => ih s (hp.2 s)⟩

/-- A relation that accesses respect relates the two ends of a run alone. -/
theorem exec_of_accesses {G : σ → σ → Prop} {p : Prog σ α} (hp : p.Accesses G)
    (hrefl : ∀ s, G s s) (htrans : ∀ {s t u}, G s t → G t u → G s u) (s : σ) :
    G s (p.exec s).2 := by
  induction p generalizing s with
  | ret a => exact hrefl s
  | act upd next ih => exact htrans (hp.1 s) (ih s (hp.2 s) (upd s))

/-- So is every access of a run alone. -/
theorem trace_of_accesses {G : σ → σ → Prop} {p : Prog σ α} (hp : p.Accesses G) (s : σ) :
    ∀ a ∈ p.trace s, G a.1 a.2 := by
  induction p generalizing s with
  | ret a => simp
  | act upd next ih =>
      simp only [trace, List.forall_mem_cons]
      exact ⟨hp.1 s, ih s (hp.2 s) (upd s)⟩

/-- Every value that the program can come to return satisfies `Post`, whatever it sees. -/
def Returns (Post : α → Prop) : Prog σ α → Prop
  | ret a => Post a
  | act _ next => ∀ s, (next s).Returns Post

@[simp] theorem returns_ret (Post : α → Prop) (a : α) :
    (ret a : Prog σ α).Returns Post ↔ Post a := Iff.rfl

@[simp] theorem returns_act (Post : α → Prop) (upd : σ → σ) (next : σ → Prog σ α) :
    (act upd next).Returns Post ↔ ∀ s, (next s).Returns Post := Iff.rfl

theorem returns_bind {Post : β → Prop} {p : Prog σ α} {q : α → Prog σ β}
    (hq : ∀ a, (q a).Returns Post) : (p >>= q).Returns Post := by
  induction p with
  | ret a => exact hq a
  | act upd next ih => exact fun s => ih s

theorem returns_seq {Post : β → Prop} {Mid : α → Prop} {p : Prog σ α} {q : α → Prog σ β}
    (hp : p.Returns Mid) (hq : ∀ a, Mid a → (q a).Returns Post) : (p >>= q).Returns Post := by
  induction p with
  | ret a => exact hq a hp
  | act upd next ih => exact fun s => ih s (hp s)

/-- An assertion that no environment step and no access of the kind `H`, if admitted, can break is
    carried along. -/
theorem wp_of_admitted {R A G H : σ → σ → Prop} {P : σ → Prop} {p : Prog σ α} {s : σ}
    (hp : p.Accesses H) (hP : Stable R P)
    (hstep : ∀ s s', P s → A s s' → H s s' → G s s' ∧ P s') (h : P s) :
    p.wp R A G (fun _ => P) s := by
  induction p generalizing s with
  | ret a => exact h
  | act upd next ih =>
      intro s' hs ha
      have h' := hstep _ _ (hP.star h hs) ha (hp.1 s')
      exact ⟨h'.1, ih s' (hp.2 s') h'.2⟩

/-- An assertion that no access and no environment step can break is carried along. -/
theorem wp_of_accesses {R A G : σ → σ → Prop} {P : σ → Prop} {p : Prog σ α} {s : σ}
    (hp : p.Accesses fun s s' => P s → P s') (hP : Stable R P)
    (hG : ∀ s s', P s → P s' → G s s') (h : P s) : p.wp R A G (fun _ => P) s :=
  wp_of_admitted hp hP (fun s s' hs _ hkeep => ⟨hG s s' hs (hkeep hs), hkeep hs⟩) h

/-- Frame rule, for what no access of the program can break. -/
theorem wp_and_accesses {R A G : σ → σ → Prop} {I : σ → Prop} {p : Prog σ α}
    {Q : α → σ → Prop} {s : σ} (h : p.wp R A G Q s) (hp : p.Accesses fun s s' => I s → I s')
    (hI : Stable R I) (hi : I s) : p.wp R A G (fun a s => Q a s ∧ I s) s := by
  induction p generalizing s with
  | ret a => exact ⟨h, hi⟩
  | act upd next ih =>
      intro s' hs ha
      have hstep := h s' hs ha
      exact ⟨hstep.1, ih s' hstep.2 (hp.2 s') (hp.1 s' (hI.star hi hs))⟩

theorem exec_of_returns {Post : α → Prop} {p : Prog σ α} (h : p.Returns Post) (s : σ) :
    Post (p.exec s).1 := by
  induction p generalizing s with
  | ret a => exact h
  | act upd next ih => exact ih s (h s) (upd s)

/-- What is known of the value returned, whatever the program sees. -/
theorem wp_and_returns {R A G : σ → σ → Prop} {Post : α → Prop} {p : Prog σ α}
    {Q : α → σ → Prop} {s : σ} (h : p.wp R A G Q s) (hp : p.Returns Post) :
    p.wp R A G (fun a s => Q a s ∧ Post a) s := by
  induction p generalizing s with
  | ret a => exact ⟨h, hp⟩
  | act upd next ih =>
      intro s' hs ha
      exact ⟨(h s' hs ha).1, ih s' (h s' hs ha).2 (hp s')⟩

theorem wp_of_returns {R A : σ → σ → Prop} {Post : α → Prop} {p : Prog σ α} (h : p.Returns Post)
    (s : σ) : p.wp R A (fun _ _ => True) (fun a _ => Post a) s := by
  induction p generalizing s with
  | ret a => exact h
  | act upd next ih => exact fun s' _ _ => ⟨trivial, ih s' (h s') _⟩

end Prog
