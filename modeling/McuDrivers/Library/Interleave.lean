import McuDrivers.Library.Prog

set_option autoImplicit false

/-! # Interleavings of one processor with its hardware

A `System` is a set of calls, each with a `Prog` as its body, and a relation `hw` of steps that the
hardware takes on its own. A run alternates freely: while a call is in progress the hardware may
step between any two of its accesses, and between calls as well. A call begins with its first
access; nothing happens between the two that could not have happened before.

A `Discipline` restricts the runs that a statement is about: `entry` is asked of the state in which
a call makes its first access, `access` of every access. `Discipline.any` asks nothing.

`Sound` packages the one induction: an assertion `J` about the state and the history of finished
calls that the hardware keeps, and that every body restores in the sense of `Prog.wp`, holds
whenever no call is in progress; and every access of every run is one that the guarantee allows. -/

variable {σ C ρ : Type}

/-- The calls a processor can make, and what the hardware does meanwhile. -/
structure System (σ C ρ : Type) where
  hw : σ → σ → Prop
  body : C → Prog σ ρ

/-- A moment of a run: the shared state, the call in progress with what is left of it, and the
    finished calls with their results, oldest first. -/
structure Config (σ C ρ : Type) where
  st : σ
  running : Option (C × Prog σ ρ)
  done : List (C × ρ)

/-- No call in progress, none made so far. -/
def Config.start (s : σ) : Config σ C ρ := ⟨s, none, []⟩

/-- What is asked of the calls of a run. -/
structure Discipline (σ C : Type) where
  entry : C → σ → Prop
  access : C → σ → σ → Prop

/-- Every run. -/
def Discipline.any : Discipline σ C := ⟨fun _ _ => True, fun _ _ _ => True⟩

/-- Runs restricted only in the states in which calls begin. -/
def Discipline.onEntry (entry : C → σ → Prop) : Discipline σ C := ⟨entry, fun _ _ _ => True⟩

/-- Runs restricted only in the accesses their calls make. -/
def Discipline.onAccess (access : C → σ → σ → Prop) : Discipline σ C := ⟨fun _ _ => True, access⟩

/-! ## Notes

What a call finds when it begins is often not to be seen in what it returns. In a noted run each call
carries a note of it, so that the history of finished calls tells. -/

/-- The same calls, each with a note. -/
def System.noting (sys : System σ C ρ) (ω : Type) : System σ (C × ω) ρ :=
  ⟨sys.hw, fun k => sys.body k.1⟩

/-- Of a noted call, the note is what `obs` says of the state in which the call begins. -/
def Discipline.noting {ω : Type} (D : Discipline σ C) (obs : C → σ → ω) : Discipline σ (C × ω) :=
  ⟨fun k s => D.entry k.1 s ∧ k.2 = obs k.1 s, fun k => D.access k.1⟩

/-- A moment of a noted run, without the notes. -/
def Config.erase {ω : Type} (c : Config σ (C × ω) ρ) : Config σ C ρ :=
  ⟨c.st, c.running.map fun kp => (kp.1.1, kp.2), c.done.map fun kr => (kr.1.1, kr.2)⟩

namespace System

open Relation

variable (sys : System σ C ρ) (D : Discipline σ C)

/-- One access made by a call of `k`: its first (which begins the call) or a later one. -/
inductive Access (k : C) : Config σ C ρ → Config σ C ρ → Prop
  | first {s d upd next} (hbody : sys.body k = .act upd next) (he : D.entry k s)
      (ha : D.access k s (upd s)) : Access k ⟨s, none, d⟩ ⟨upd s, some (k, next s), d⟩
  | later {s d upd next} (ha : D.access k s (upd s)) :
      Access k ⟨s, some (k, .act upd next), d⟩ ⟨upd s, some (k, next s), d⟩

/-- One step of a run. -/
inductive Step : Config σ C ρ → Config σ C ρ → Prop
  | hw {s s' r d} (h : sys.hw s s') : Step ⟨s, r, d⟩ ⟨s', r, d⟩
  | access {k c c'} (h : sys.Access D k c c') : Step c c'
  | ret {s k r d} : Step ⟨s, some (k, .ret r), d⟩ ⟨s, none, d ++ [(k, r)]⟩

/-- The configurations that the runs from `c₀` reach. -/
abbrev Reach (c₀ c : Config σ C ρ) : Prop := ReflTransGen (sys.Step D) c₀ c

variable {sys D}

/-- While a call is in progress, accesses are made by that call. -/
theorem Access.running {k k' : C} {s : σ} {p : Prog σ ρ} {d : List (C × ρ)} {c' : Config σ C ρ}
    (h : sys.Access D k ⟨s, some (k', p), d⟩ c') : k = k' := by
  cases h
  rfl

/-- The history of finished calls only grows. -/
theorem Reach.done_prefix {c c' : Config σ C ρ} (h : sys.Reach D c c') : c.done <+: c'.done := by
  induction h with
  | refl => exact List.prefix_refl _
  | tail _ hstep ih =>
      refine ih.trans ?_
      cases hstep with
      | hw => exact List.prefix_refl _
      | access h => cases h <;> exact List.prefix_refl _
      | ret => exact List.prefix_append _ _

/-! ## Hardware steps and whole calls as runs -/

theorem Reach.hwStar {s s' : σ} (h : ReflTransGen sys.hw s s') (r : Option (C × Prog σ ρ))
    (d : List (C × ρ)) : sys.Reach D ⟨s, r, d⟩ ⟨s', r, d⟩ := by
  induction h with
  | refl => exact .refl
  | tail _ hstep ih => exact ih.tail (.hw hstep)

theorem Reach.execTrace {k : C} {p : Prog σ ρ} {s : σ} (hacc : ∀ a ∈ p.trace s, D.access k a.1 a.2)
    (d : List (C × ρ)) :
    sys.Reach D ⟨s, some (k, p), d⟩ ⟨(p.exec s).2, none, d ++ [(k, (p.exec s).1)]⟩ := by
  induction p generalizing s with
  | ret a => exact .single .ret
  | act upd next ih =>
      rw [Prog.trace, List.forall_mem_cons] at hacc
      exact .head (.access (.later hacc.1)) (ih s hacc.2)

/-- A call that nobody interferes with is a run, if its accesses are admitted. -/
theorem Reach.callTrace (sys : System σ C ρ) {D : Discipline σ C} {k : C} {s : σ}
    (he : D.entry k s) (hacc : ∀ a ∈ (sys.body k).trace s, D.access k a.1 a.2)
    (hact : ∀ r, sys.body k ≠ .ret r) (d : List (C × ρ)) :
    sys.Reach D ⟨s, none, d⟩
      ⟨((sys.body k).exec s).2, none, d ++ [(k, ((sys.body k).exec s).1)]⟩ := by
  cases hb : sys.body k with
  | ret r => exact absurd hb (hact r)
  | act upd next =>
      rw [hb, Prog.trace, List.forall_mem_cons] at hacc
      exact .head (.access (.first hb he hacc.1)) (Reach.execTrace hacc.2 d)

/-- So is every call where all accesses are. -/
theorem Reach.call (sys : System σ C ρ) {D : Discipline σ C} {k : C} {s : σ} (he : D.entry k s)
    (hacc : ∀ s s', D.access k s s') (hact : ∀ r, sys.body k ≠ .ret r) (d : List (C × ρ)) :
    sys.Reach D ⟨s, none, d⟩
      ⟨((sys.body k).exec s).2, none, d ++ [(k, ((sys.body k).exec s).1)]⟩ :=
  Reach.callTrace sys he (fun a _ => hacc a.1 a.2) hact d

/-- Every run can be noted. -/
theorem Reach.noted {ω : Type} (obs : C → σ → ω) {s : σ} {c : Config σ C ρ}
    (h : sys.Reach D (.start s) c) :
    ∃ c', (sys.noting ω).Reach (D.noting obs) (.start s) c' ∧ c'.erase = c := by
  induction h with
  | refl => exact ⟨.start s, .refl, rfl⟩
  | tail _ hstep ih =>
      obtain ⟨⟨st, running, done⟩, hreach, heq⟩ := ih
      cases hstep with
      | hw hs =>
          obtain ⟨rfl, rfl, rfl⟩ := Config.mk.inj heq
          exact ⟨_, hreach.tail (.hw hs), rfl⟩
      | @access k _ _ h =>
          cases h with
          | @first _ _ upd next hbody he ha =>
              obtain ⟨rfl, hidle, rfl⟩ := Config.mk.inj heq
              obtain rfl := Option.map_eq_none_iff.mp hidle
              have hfirst : (sys.noting ω).Access (D.noting obs) (k, obs k st) ⟨st, none, done⟩
                  ⟨upd st, some ((k, obs k st), next st), done⟩ := .first hbody ⟨he, rfl⟩ ha
              exact ⟨_, hreach.tail (.access hfirst), rfl⟩
          | @later _ _ upd next ha =>
              obtain ⟨rfl, hrun, rfl⟩ := Config.mk.inj heq
              obtain ⟨⟨k, p⟩, rfl, hkp⟩ := Option.map_eq_some_iff.mp hrun
              obtain ⟨rfl, rfl⟩ := Prod.mk.inj hkp
              have hlater : (sys.noting ω).Access (D.noting obs) k ⟨st, some (k, .act upd next), done⟩
                  ⟨upd st, some (k, next st), done⟩ := .later ha
              exact ⟨_, hreach.tail (.access hlater), rfl⟩
      | ret =>
          obtain ⟨rfl, hrun, rfl⟩ := Config.mk.inj heq
          obtain ⟨⟨k, p⟩, rfl, hkp⟩ := Option.map_eq_some_iff.mp hrun
          obtain ⟨rfl, rfl⟩ := Prod.mk.inj hkp
          exact ⟨_, hreach.tail .ret, by simp [Config.erase]⟩

/-! ## From bodies to runs -/

variable (sys D) in
/-- `J` is kept by the hardware and restored by every call, with accesses allowed by `G`. -/
structure Sound (J : List (C × ρ) → σ → Prop) (G : C → σ → σ → Prop) : Prop where
  hw : ∀ d, Prog.Stable sys.hw (J d)
  body : ∀ k d s, J d s → D.entry k s →
    (sys.body k).wp sys.hw (D.access k) (G k) (fun r => J (d ++ [(k, r)])) s

variable (sys D) in
/-- The same, of bodies that count on making their first access in the state in which they begin. -/
structure SoundFirst (J : List (C × ρ) → σ → Prop) (G : C → σ → σ → Prop) : Prop where
  hw : ∀ d, Prog.Stable sys.hw (J d)
  body : ∀ k d s upd next, sys.body k = .act upd next → J d s → D.entry k s →
    D.access k s (upd s) → G k s (upd s) ∧
      (next s).wp sys.hw (D.access k) (G k) (fun r => J (d ++ [(k, r)])) (upd s)

variable (sys D) in
/-- What `Sound` maintains: `J` between calls, and inside a call that the rest of it restores `J`. -/
def Good (J : List (C × ρ) → σ → Prop) (G : C → σ → σ → Prop) (c : Config σ C ρ) : Prop :=
  match c.running with
  | none => J c.done c.st
  | some (k, p) => p.wp sys.hw (D.access k) (G k) (fun r => J (c.done ++ [(k, r)])) c.st

section Sound

variable {J : List (C × ρ) → σ → Prop} {G : C → σ → σ → Prop}

theorem Sound.first (hJ : sys.Sound D J G) : sys.SoundFirst D J G where
  hw := hJ.hw
  body := by
    intro k d s upd next hbody hs he ha
    exact Prog.wp_first hbody (hJ.body k d s hs he) ha

namespace SoundFirst

variable (hJ : sys.SoundFirst D J G)
include hJ

theorem good_access {k : C} {c c' : Config σ C ρ} (hc : sys.Good D J G c)
    (h : sys.Access D k c c') : G k c.st c'.st ∧ sys.Good D J G c' := by
  cases h with
  | first hbody he ha => exact hJ.body k _ _ _ _ hbody hc he ha
  | later ha => exact hc _ .refl ha

theorem good_step {c c' : Config σ C ρ} (hc : sys.Good D J G c) (h : sys.Step D c c') :
    sys.Good D J G c' := by
  cases h with
  | @hw s s' r d hs =>
      cases r with
      | none => exact hJ.hw d s s' hc hs
      | some kp => exact Prog.wp_env (fun _ => hJ.hw _) hc (.single hs)
  | access h => exact (hJ.good_access hc h).2
  | ret => exact hc

theorem good {c₀ c : Config σ C ρ} (h₀ : sys.Good D J G c₀) (h : sys.Reach D c₀ c) :
    sys.Good D J G c := by
  induction h with
  | refl => exact h₀
  | tail _ hstep ih => exact hJ.good_step ih hstep

/-- Between calls `J` holds, of every run. -/
theorem idle {s : σ} {c : Config σ C ρ} (h₀ : J [] s) (h : sys.Reach D (.start s) c)
    (hc : c.running = none) : J c.done c.st := by
  have hstart : sys.Good D J G (.start s) := h₀
  have hg := hJ.good hstart h
  simpa only [Good, hc] using hg

/-- Every access of every run is one the guarantee allows. -/
theorem guarantee {s : σ} {k : C} {c c' : Config σ C ρ} (h₀ : J [] s)
    (h : sys.Reach D (.start s) c) (ha : sys.Access D k c c') : G k c.st c'.st := by
  have hstart : sys.Good D J G (.start s) := h₀
  exact (hJ.good_access (hJ.good hstart h) ha).1

/-- A property of the state that neither the hardware nor an allowed access can break holds at
    every moment of every run. -/
theorem always {I : σ → Prop} {s : σ} {c : Config σ C ρ} (h₀ : J [] s) (hI₀ : I s)
    (hhw : Prog.Stable sys.hw I) (hG : ∀ k s s', G k s s' → I s → I s')
    (h : sys.Reach D (.start s) c) : I c.st := by
  induction h with
  | refl => exact hI₀
  | @tail c c' hreach hstep ih =>
      cases hstep with
      | hw hs => exact hhw _ _ ih hs
      | access ha => exact hG _ _ _ (hJ.guarantee h₀ hreach ha) ih
      | ret => exact ih

end SoundFirst

theorem Sound.idle (hJ : sys.Sound D J G) {s : σ} {c : Config σ C ρ} (h₀ : J [] s)
    (h : sys.Reach D (.start s) c) (hc : c.running = none) : J c.done c.st :=
  hJ.first.idle h₀ h hc

theorem Sound.guarantee (hJ : sys.Sound D J G) {s : σ} {k : C} {c c' : Config σ C ρ} (h₀ : J [] s)
    (h : sys.Reach D (.start s) c) (ha : sys.Access D k c c') : G k c.st c'.st :=
  hJ.first.guarantee h₀ h ha

theorem Sound.always (hJ : sys.Sound D J G) {I : σ → Prop} {s : σ} {c : Config σ C ρ} (h₀ : J [] s)
    (hI₀ : I s) (hhw : Prog.Stable sys.hw I) (hG : ∀ k s s', G k s s' → I s → I s')
    (h : sys.Reach D (.start s) c) : I c.st :=
  hJ.first.always h₀ hI₀ hhw hG h

end Sound

/-- What is known of the result of the call in progress is true of the result it comes to have,
    whatever happens after. -/
theorem Reach.result {c c' : Config σ C ρ} {k : C} {p : Prog σ ρ} {G : σ → σ → Prop}
    {Post : ρ → Prop} (hc : c.running = some (k, p))
    (hp : p.wp sys.hw (D.access k) G (fun r _ => Post r) c.st) (h : sys.Reach D c c')
    {k' : C} {r : ρ} (hr : c'.done[c.done.length]? = some (k', r)) : k' = k ∧ Post r := by
  -- Either the call is still in progress, with the same promise, or it is the next entry of `done`.
  have key : (c'.done = c.done ∧ ∃ q, c'.running = some (k, q) ∧
        q.wp sys.hw (D.access k) G (fun r _ => Post r) c'.st) ∨
      ∃ r, Post r ∧ c.done ++ [(k, r)] <+: c'.done := by
    clear hr
    induction h with
    | refl => exact .inl ⟨rfl, p, hc, hp⟩
    | @tail c₁ c₂ hreach hstep ih =>
        rcases ih with ⟨hd, q, hq, hwp⟩ | ⟨r', hpost, hpre⟩
        · cases hstep with
          | hw hs =>
              exact .inl ⟨hd, q, hq, Prog.wp_env (fun _ _ _ h _ => h) hwp (.single hs)⟩
          | access ha =>
              cases ha with
              | first => exact absurd hq (by simp)
              | later ha =>
                  simp only [Option.some.injEq, Prod.mk.injEq] at hq
                  obtain ⟨rfl, rfl⟩ := hq
                  exact .inl ⟨hd, _, rfl, (hwp _ .refl ha).2⟩
          | ret =>
              simp only [Option.some.injEq, Prod.mk.injEq] at hq
              obtain ⟨rfl, rfl⟩ := hq
              exact .inr ⟨_, hwp, hd ▸ List.prefix_refl _⟩
        · exact .inr ⟨r', hpost, hpre.trans (Reach.done_prefix (.single hstep))⟩
  rcases key with ⟨hd, _⟩ | ⟨r', hpost, t, ht⟩
  · rw [hd] at hr
    simp at hr
  · have hnext : (k', r) = (k, r') := by
      have := hr
      rw [← ht, List.append_assoc, List.getElem?_append_right (Nat.le_refl _), Nat.sub_self] at this
      simpa using this.symm
    cases hnext
    exact ⟨rfl, hpost⟩

end System
