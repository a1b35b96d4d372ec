import Mathlib.Data.BitVec
import McuDrivers.Library.Interleave

set_option autoImplicit false

/-! # Event flags in a register that software rewrites

Some bits of a register are event flags: the hardware sets them at any moment, and a 0 stored to one
clears it, where a 1 does nothing. The other bits are software's, and software changes them by reading
the register, editing what it read and storing it back (`change`). A flag that comes in between is
stored back as 0.

`EventReg σ w` says where a state `σ` has such a register. While a change is in progress the state
remembers which bits the change stores as it read them (`pending`). In runs in which no flag comes
among these (`Outside`), a flag goes only where a call that names it clears it (`none_lost`); a flag
that does come among them is lost (`store_loses`). -/

structure EventReg (σ : Type) (w : Nat) where
  /-- the event flags -/
  flags : BitVec w
  val : σ → BitVec w
  /-- the bits that a change in progress stores back as it read them -/
  pending : σ → Option (BitVec w)
  hold : Option (BitVec w) → σ → σ
  store : BitVec w → σ → σ
  val_hold : ∀ m s, val (hold m s) = val s
  pending_hold : ∀ m s, pending (hold m s) = m
  pending_store : ∀ v s, pending (store v s) = none
  flag_store : ∀ v s i, flags.getLsbD i = true →
    (val (store v s)).getLsbD i = ((val s).getLsbD i && v.getLsbD i)

namespace EventReg

variable {σ : Type} {w : Nat} (r : EventReg σ w)

/-- The flag `i` is set. -/
def Has (s : σ) (i : Nat) : Prop := r.flags.getLsbD i = true ∧ (r.val s).getLsbD i = true

/-- `REG = (REG & keep) | set` -/
def change (keep set : BitVec w) : Prog σ Unit :=
  .act (r.hold (some keep)) fun s => .put (r.store ((r.val s &&& keep) ||| set))

/-- The hardware sets flags, and leaves to software what is software's. -/
def Raising (hw : σ → σ → Prop) : Prop :=
  ∀ s s', hw s s' → r.pending s' = r.pending s ∧ ∀ i, r.Has s i → r.Has s' i

/-- A step of the hardware in which no flag comes that a change in progress would store as 0. -/
def Outside (hw : σ → σ → Prop) (s s' : σ) : Prop :=
  hw s s' ∧ ∀ keep, r.pending s = some keep →
    ∀ i, keep.getLsbD i = true → r.Has s' i → r.Has s i

/-- Of the flags only those of `m` go. -/
def ClearsOnly (m : BitVec w) (s s' : σ) : Prop :=
  ∀ i, r.Has s i → ¬ r.Has s' i → m.getLsbD i = true

/-- No flag goes, and no change is begun or ended. -/
def Calm (s s' : σ) : Prop := r.pending s' = r.pending s ∧ ∀ i, r.Has s i → r.Has s' i

variable {r}

@[simp] theorem has_hold (m : Option (BitVec w)) (s : σ) (i : Nat) :
    r.Has (r.hold m s) i ↔ r.Has s i := by
  simp [Has, r.val_hold]

theorem has_store {v : BitVec w} {s : σ} {i : Nat} :
    r.Has (r.store v s) i ↔ r.Has s i ∧ v.getLsbD i = true := by
  unfold Has
  constructor
  · rintro ⟨hf, hv⟩
    rw [r.flag_store v s i hf, Bool.and_eq_true] at hv
    exact ⟨⟨hf, hv.1⟩, hv.2⟩
  · rintro ⟨⟨hf, hs⟩, hv⟩
    refine ⟨hf, ?_⟩
    rw [r.flag_store v s i hf, hs, hv]
    rfl

theorem ClearsOnly.of_keeps {m : BitVec w} {s s' : σ} (h : ∀ i, r.Has s i → r.Has s' i) :
    r.ClearsOnly m s s' :=
  fun i hi hnot => absurd (h i hi) hnot

theorem Calm.of_eq {s s' : σ} (hp : r.pending s' = r.pending s) (hv : r.val s' = r.val s) :
    r.Calm s s' := by
  refine ⟨hp, fun i hi => ?_⟩
  unfold Has at hi ⊢
  rwa [hv]

/-- A flag that comes after the register was read, at a bit that is stored as it was read, is lost. -/
theorem store_loses {keep set : BitVec w} {s s' : σ} {i : Nat} (hflag : r.flags.getLsbD i = true)
    (hread : ¬ r.Has s i) (hset : set.getLsbD i = false) :
    ¬ r.Has (r.store ((r.val s &&& keep) ||| set) s') i := by
  rw [has_store]
  rintro ⟨-, hv⟩
  have hval : (r.val s).getLsbD i = false := by
    simpa [Has, hflag] using hread
  simp [hval, hset] at hv

/-! ## What the hardware does while a call is in progress -/

section Environment

variable {hw : σ → σ → Prop} (hr : r.Raising hw)
include hr

theorem Outside.notPending : Prog.Stable (r.Outside hw) fun s => r.pending s = none :=
  fun s s' hs h => (hr s s' h.1).1.trans hs

/-- Any number of steps: the change in progress is the same, and no flag came among its bits. -/
theorem Outside.star {s s' : σ} (h : Relation.ReflTransGen (r.Outside hw) s s') :
    r.pending s' = r.pending s ∧ (∀ i, r.Has s i → r.Has s' i) ∧
      ∀ keep, r.pending s = some keep →
        ∀ i, keep.getLsbD i = true → r.Has s' i → r.Has s i := by
  induction h with
  | refl => exact ⟨rfl, fun _ hi => hi, fun _ _ _ _ hi => hi⟩
  | @tail t u _ hstep ih =>
      obtain ⟨hpend, hkeeps, hnone⟩ := ih
      have hraise := hr t u hstep.1
      refine ⟨hraise.1.trans hpend, fun i hi => hraise.2 i (hkeeps i hi), ?_⟩
      intro keep hkeep i hi hu
      have ht : r.Has t i := hstep.2 keep (hpend.trans hkeep) i hi hu
      exact hnone keep hkeep i hi ht

end Environment

/-! ## Programs that clear only the flags they name -/

variable {α β : Type}

variable (r) in
/-- `p` clears only flags of `m`, and no change is in progress when it is over. -/
def Safe (hw A : σ → σ → Prop) (m : BitVec w) (p : Prog σ α) : Prop :=
  ∀ s, r.pending s = none →
    p.wp (r.Outside hw) A (r.ClearsOnly m) (fun _ s => r.pending s = none) s

variable {hw A : σ → σ → Prop} {m : BitVec w}

theorem safe_ret (a : α) : r.Safe hw A m (.ret a) := fun _ hs => hs

theorem safe_bind {p : Prog σ α} {q : α → Prog σ β} (hp : r.Safe hw A m p)
    (hq : ∀ a, r.Safe hw A m (q a)) : r.Safe hw A m (p >>= q) :=
  fun s hs => Prog.wp_seq (hp s hs) fun a s' hs' => hq a s' hs'

theorem safe_of_calm (hr : r.Raising hw) {p : Prog σ α} (hp : p.Accesses r.Calm) :
    r.Safe hw A m p := by
  intro s hs
  refine Prog.wp_of_admitted hp (Outside.notPending hr) (fun s s' hs _ hcalm => ?_) hs
  exact ⟨.of_keeps hcalm.2, hcalm.1.trans hs⟩

/-- What was read is stored, and at the bits that are kept nothing came since. What is not kept is
    named, or was not set. -/
theorem safe_change_of (hr : r.Raising hw) {keep set : BitVec w}
    (hclear : ∀ s v, r.pending s = some keep → A s (r.store v s) →
      ∀ i, r.Has s i → keep.getLsbD i = false → m.getLsbD i = true) :
    r.Safe hw A m (r.change keep set) := by
  intro s _ s₁ _ _
  refine ⟨.of_keeps fun i hi => (has_hold _ s₁ i).mpr hi, fun s₂ hs₂ hadmitted => ?_⟩
  refine ⟨fun i hi hnot => ?_, r.pending_store _ _⟩
  obtain ⟨hpend, -, hnone⟩ := Outside.star hr hs₂
  rw [r.pending_hold] at hpend
  cases hkeep : keep.getLsbD i with
  | false => exact hclear s₂ _ hpend hadmitted i hi hkeep
  | true =>
      have hread : r.Has s₁ i :=
        (has_hold _ s₁ i).mp (hnone keep (r.pending_hold _ _) i hkeep hi)
      rw [has_store] at hnot
      refine absurd ⟨hi, ?_⟩ hnot
      simp [hread.2, hkeep]

theorem safe_change (hr : r.Raising hw) {keep set : BitVec w}
    (hclear : ∀ i, r.flags.getLsbD i = true → keep.getLsbD i = false → m.getLsbD i = true) :
    r.Safe hw A m (r.change keep set) :=
  safe_change_of hr fun _ _ _ _ i hi hkeep => hclear i hi.1 hkeep

/-! ## Runs -/

variable {C ρ : Type}

variable (r) in
/-- In every run from `s`, with no change in progress at first, a flag goes only in an access of a call
    that names it. -/
def NoneLost (named : C → BitVec w) (sys : System σ C ρ) (D : Discipline σ C) (s : σ) : Prop :=
  ∀ c c' : Config σ C ρ, sys.Reach D (.start (r.hold none s)) c → sys.Step D c c' →
    ∀ i, r.Has c.st i → ¬ r.Has c'.st i →
      ∃ k, sys.Access D k c c' ∧ (named k).getLsbD i = true

theorem none_lost (hr : r.Raising hw) {named : C → BitVec w} {body : C → Prog σ ρ}
    {D : Discipline σ C} (hbody : ∀ k, r.Safe hw (D.access k) (named k) (body k)) (s : σ) :
    r.NoneLost named ⟨r.Outside hw, body⟩ D s := by
  have hsound : System.Sound ⟨r.Outside hw, body⟩ D (fun _ s => r.pending s = none)
      fun k => r.ClearsOnly (named k) :=
    ⟨fun _ => Outside.notPending hr, fun k _ s hs _ => hbody k s hs⟩
  intro c c' hreach hstep i hi hnot
  cases hstep with
  | hw h => exact absurd ((hr _ _ h.1).2 i hi) hnot
  | access h =>
      exact ⟨_, h, hsound.guarantee (r.pending_hold none s) hreach h i hi hnot⟩
  | ret => exact absurd hi hnot

/-- A flag that comes while the first change of a call is in progress goes with its store. -/
theorem not_noneLost {named : C → BitVec w} {sys : System σ C ρ} {k : C} {keep set : BitVec w}
    {q : Prog σ ρ} {s s' : σ} {i : Nat} {d : List (C × ρ)}
    (hreach : sys.Reach .any (.start (r.hold none s))
      ⟨s', some (k, .act (r.store ((r.val s &&& keep) ||| set)) fun _ => q), d⟩)
    (hflag : r.Has s' i) (hread : ¬ r.Has s i) (hset : set.getLsbD i = false)
    (hnamed : (named k).getLsbD i = false) : ¬ r.NoneLost named sys .any s := by
  intro h
  obtain ⟨k', haccess, hk'⟩ := h _ _ hreach (.access (.later trivial)) i hflag
    (store_loses hflag.1 hread hset)
  rw [haccess.running, hnamed] at hk'
  cases hk'

end EventReg
