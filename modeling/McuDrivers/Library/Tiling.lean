import Mathlib.Data.List.Chain
import Mathlib.Data.List.Pairwise
import Mathlib.Tactic.Common

set_option autoImplicit false

/-! # Tilings of a stretch of memory

An allocator cuts its memory into blocks that follow one another without a gap, each used or free. The
list of the blocks says everything: `total` is the length of the stretch, `usedFrom a` are the used
blocks with their addresses, if the stretch starts at `a`.

A tiling is `Coalesced` if no two free blocks are neighbours. Then it is determined by its used blocks
(`Coalesced.ext`), and whatever room is left between them lies in one block (`Coalesced.room`). -/

structure Block where
  len : Nat
  used : Bool
  deriving DecidableEq, Repr

namespace Tiling

def total : List Block → Nat
  | [] => 0
  | b :: bs => b.len + total bs

/-- The used blocks, by address and length. -/
def usedFrom : (a : Nat) → List Block → List (Nat × Nat)
  | _, [] => []
  | a, b :: bs => if b.used then (a, b.len) :: usedFrom (a + b.len) bs else usedFrom (a + b.len) bs

/-- The lengths of the used blocks together. -/
def usedLen : List Block → Nat
  | [] => 0
  | b :: bs => if b.used then b.len + usedLen bs else usedLen bs

/-- The address of the first free block, or where the tiling ends. -/
def firstFree : (a : Nat) → List Block → Nat
  | a, [] => a
  | a, b :: bs => if b.used then firstFree (a + b.len) bs else a

/-- Where the blocks begin, and where the last one ends. -/
def starts : (a : Nat) → List Block → List Nat
  | a, [] => [a]
  | a, b :: bs => a :: starts (a + b.len) bs

def Coalesced (bs : List Block) : Prop := bs.IsChain fun b c => b.used = true ∨ c.used = true

variable {a : Nat} {b c : Block} {bs cs xs ys : List Block}

/-! ## Parts of a tiling -/

@[simp] theorem total_nil : total [] = 0 := rfl

@[simp] theorem total_cons : total (b :: bs) = b.len + total bs := rfl

@[simp] theorem total_append : total (xs ++ ys) = total xs + total ys := by
  induction xs with
  | nil => simp
  | cons b xs ih => simp [ih, Nat.add_assoc]

@[simp] theorem usedFrom_nil : usedFrom a [] = [] := rfl

theorem usedFrom_used (h : b.used = true) :
    usedFrom a (b :: bs) = (a, b.len) :: usedFrom (a + b.len) bs := by
  rw [usedFrom, if_pos h]

theorem usedFrom_free (h : b.used = false) : usedFrom a (b :: bs) = usedFrom (a + b.len) bs := by
  simp [usedFrom, h]

@[simp] theorem usedFrom_append :
    usedFrom a (xs ++ ys) = usedFrom a xs ++ usedFrom (a + total xs) ys := by
  induction xs generalizing a with
  | nil => simp
  | cons b xs ih =>
      rw [List.cons_append, usedFrom, usedFrom, ih, total_cons, Nat.add_assoc]
      split <;> rfl

@[simp] theorem usedLen_append : usedLen (xs ++ ys) = usedLen xs + usedLen ys := by
  induction xs with
  | nil => simp [usedLen]
  | cons b xs ih =>
      rw [List.cons_append, usedLen, usedLen, ih]
      split <;> omega

theorem usedLen_le_total : usedLen bs ≤ total bs := by
  induction bs with
  | nil => exact Nat.le_refl _
  | cons b bs ih =>
      rw [usedLen, total_cons]
      split <;> omega

/-- A used block lies inside the tiling. -/
theorem usedFrom_bounds {p n : Nat} (h : (p, n) ∈ usedFrom a bs) : a ≤ p ∧ p + n ≤ a + total bs := by
  induction bs generalizing a with
  | nil => exact absurd h (by simp)
  | cons b bs ih =>
      rw [total_cons]
      rw [usedFrom] at h
      split at h
      · rcases List.mem_cons.mp h with heq | hmem
        · obtain ⟨rfl, rfl⟩ := Prod.mk.inj heq
          omega
        · have := ih hmem
          omega
      · have := ih h
        omega

/-- Used blocks are one after the other. -/
theorem usedFrom_sorted : (usedFrom a bs).Pairwise fun x y => x.1 + x.2 ≤ y.1 := by
  induction bs generalizing a with
  | nil => exact .nil
  | cons b bs ih =>
      rw [usedFrom]
      split
      · exact List.pairwise_cons.mpr ⟨fun y hy => (usedFrom_bounds hy).1, ih⟩
      · exact ih

/-- Two used blocks do not overlap. -/
theorem usedFrom_apart {p n q m : Nat} (hp : (p, n) ∈ usedFrom a bs) (hq : (q, m) ∈ usedFrom a bs)
    (hne : p ≠ q) : p + n ≤ q ∨ q + m ≤ p := by
  have hsymm : Std.Symm fun x y : Nat × Nat => x.1 + x.2 ≤ y.1 ∨ y.1 + y.2 ≤ x.1 :=
    ⟨fun _ _ => Or.symm⟩
  have hall : (usedFrom a bs).Pairwise fun x y : Nat × Nat => x.1 + x.2 ≤ y.1 ∨ y.1 + y.2 ≤ x.1 :=
    usedFrom_sorted.imp .inl
  exact hall.forall hp hq fun heq => hne (Prod.mk.inj heq).1

/-- A used block is one block of the tiling. -/
theorem exists_of_mem_usedFrom {p n : Nat} (h : (p, n) ∈ usedFrom a bs) :
    ∃ xs ys, bs = xs ++ ⟨n, true⟩ :: ys ∧ p = a + total xs := by
  induction bs generalizing a with
  | nil => exact absurd h (by simp)
  | cons b bs ih =>
      have hlater : (p, n) ∈ usedFrom (a + b.len) bs →
          ∃ xs ys, b :: bs = xs ++ ⟨n, true⟩ :: ys ∧ p = a + total xs := by
        intro hmem
        obtain ⟨xs, ys, rfl, rfl⟩ := ih hmem
        exact ⟨b :: xs, ys, rfl, by rw [total_cons, Nat.add_assoc]⟩
      rw [usedFrom] at h
      split at h
      · rename_i hused
        rcases List.mem_cons.mp h with heq | hmem
        · obtain ⟨rfl, rfl⟩ := Prod.mk.inj heq
          exact ⟨[], bs, by rw [← hused]; rfl, rfl⟩
        · exact hlater hmem
      · exact hlater h

/-- Of two blocks of a tiling the one that begins earlier stands before the other. -/
theorem mem_of_total_lt {xs' ys' : List Block} (h : xs ++ c :: ys = xs' ++ b :: ys')
    (hlt : total xs' < total xs) : b ∈ xs := by
  rcases List.append_eq_append_iff.mp h with ⟨zs, rfl, -⟩ | ⟨zs, rfl, hzs⟩
  · rw [total_append] at hlt
    omega
  · cases zs with
    | nil => simp at hlt
    | cons d zs =>
        obtain ⟨rfl, -⟩ := List.cons.inj hzs
        simp

theorem starts_append : a + total xs ∈ starts a (xs ++ ys) := by
  induction xs generalizing a with
  | nil => cases ys <;> simp [starts]
  | cons b xs ih =>
      rw [List.cons_append, starts, total_cons, ← Nat.add_assoc]
      exact List.mem_cons_of_mem _ ih

theorem le_of_mem_starts {x : Nat} (h : x ∈ starts a bs) : a ≤ x := by
  induction bs generalizing a with
  | nil => exact Nat.le_of_eq (List.mem_singleton.mp h).symm
  | cons b bs ih =>
      rcases List.mem_cons.mp h with rfl | h
      · exact Nat.le_refl _
      · exact Nat.le_trans (Nat.le_add_right _ _) (ih h)

/-- No block begins inside a used one. -/
theorem starts_outside {p n x : Nat} (hp : (p, n) ∈ usedFrom a bs) (hx : x ∈ starts a bs) :
    x ≤ p ∨ p + n ≤ x := by
  induction bs generalizing a with
  | nil => exact absurd hp (by simp)
  | cons b bs ih =>
      rw [usedFrom] at hp
      rcases List.mem_cons.mp hx with rfl | hx
      · split at hp
        · rcases List.mem_cons.mp hp with heq | hp
          · exact .inl (Nat.le_of_eq (Prod.mk.inj heq).1.symm)
          · exact .inl (Nat.le_trans (Nat.le_add_right _ _) (usedFrom_bounds hp).1)
        · exact .inl (Nat.le_trans (Nat.le_add_right _ _) (usedFrom_bounds hp).1)
      · split at hp
        · rcases List.mem_cons.mp hp with heq | hp
          · obtain ⟨rfl, rfl⟩ := Prod.mk.inj heq
            exact .inr (le_of_mem_starts hx)
          · exact ih hp hx
        · exact ih hp hx

/-! ## The first free block -/

theorem firstFree_le : firstFree a bs ≤ a + total bs := by
  induction bs generalizing a with
  | nil => exact Nat.le_refl _
  | cons b bs ih =>
      rw [firstFree, total_cons]
      split
      · have := ih (a := a + b.len)
        omega
      · omega

theorem le_firstFree : a ≤ firstFree a bs := by
  induction bs generalizing a with
  | nil => exact Nat.le_refl _
  | cons b bs ih =>
      rw [firstFree]
      split
      · exact Nat.le_trans (Nat.le_add_right _ _) ih
      · exact Nat.le_refl _

theorem firstFree_append_used (h : ∀ b ∈ xs, b.used = true) :
    firstFree a (xs ++ ys) = firstFree (a + total xs) ys := by
  induction xs generalizing a with
  | nil => rfl
  | cons b xs ih =>
      rw [List.cons_append, firstFree, if_pos (h b List.mem_cons_self),
        ih fun c hc => h c (List.mem_cons_of_mem _ hc), total_cons, Nat.add_assoc]

/-- With a free block in the first part, the second does not matter. -/
theorem firstFree_append_free (hfree : ∃ b ∈ xs, b.used = false) :
    firstFree a (xs ++ ys) = firstFree a xs := by
  induction xs generalizing a with
  | nil => exact absurd hfree (by simp)
  | cons b xs ih =>
      rw [List.cons_append, firstFree, firstFree]
      split
      · rename_i hused
        refine ih ?_
        obtain ⟨c, hc, hcfree⟩ := hfree
        rcases List.mem_cons.mp hc with rfl | hc
        · exact absurd hused (by simp [hcfree])
        · exact ⟨c, hc, hcfree⟩
      · rfl

theorem firstFree_of_used (h : ∀ b ∈ xs, b.used = true) : firstFree a xs = a + total xs := by
  have := @firstFree_append_used a _ [] h
  rwa [List.append_nil] at this

theorem firstFree_lt (hpos : ∀ b ∈ xs, 0 < b.len) (hfree : ∃ b ∈ xs, b.used = false) :
    firstFree a xs < a + total xs := by
  induction xs generalizing a with
  | nil => exact absurd hfree (by simp)
  | cons b xs ih =>
      have hb := hpos b List.mem_cons_self
      rw [firstFree, total_cons]
      split
      · rename_i hused
        have hlt := ih (a := a + b.len) (fun c hc => hpos c (List.mem_cons_of_mem _ hc)) (by
          obtain ⟨c, hc, hcfree⟩ := hfree
          rcases List.mem_cons.mp hc with rfl | hc
          · exact absurd hused (by simp [hcfree])
          · exact ⟨c, hc, hcfree⟩)
        omega
      · omega

theorem all_used_or_exists_free (xs : List Block) :
    (∀ b ∈ xs, b.used = true) ∨ ∃ b ∈ xs, b.used = false := by
  by_cases h : ∃ b ∈ xs, b.used = false
  · exact .inr h
  · exact .inl fun b hb => by
      cases hused : b.used with
      | true => rfl
      | false => exact absurd ⟨b, hb, hused⟩ h

/-- What stands before a free block decides which one is the first. -/
theorem firstFree_append_cons_free (n : Nat) : firstFree a (xs ++ ⟨n, false⟩ :: ys) = firstFree a xs := by
  rcases all_used_or_exists_free xs with hall | hfree
  · rw [firstFree_append_used hall, firstFree_of_used hall]
    rfl
  · exact firstFree_append_free hfree

/-- The tiling up to its first free block. -/
theorem exists_of_firstFree (bs : List Block) (a : Nat) :
    (firstFree a bs = a + total bs ∧ ∀ b ∈ bs, b.used = true) ∨
      ∃ xs n ys, bs = xs ++ ⟨n, false⟩ :: ys ∧ (∀ b ∈ xs, b.used = true) ∧
        firstFree a bs = a + total xs := by
  induction bs generalizing a with
  | nil => exact .inl ⟨rfl, by simp⟩
  | cons b bs ih =>
      rw [firstFree]
      cases hused : b.used with
      | false => exact .inr ⟨[], b.len, bs, by rw [← hused]; rfl, by simp, rfl⟩
      | true =>
          rw [if_pos rfl, total_cons]
          rcases ih (a + b.len) with ⟨heq, hall⟩ | ⟨xs, n, ys, rfl, hall, heq⟩
          · exact .inl ⟨by rw [heq, Nat.add_assoc], List.forall_mem_cons.mpr ⟨hused, hall⟩⟩
          · exact .inr ⟨b :: xs, n, ys, rfl, List.forall_mem_cons.mpr ⟨hused, hall⟩,
              by rw [heq, total_cons, Nat.add_assoc]⟩

/-! ## Tilings without neighbouring free blocks -/

theorem coalesced_cons_cons :
    Coalesced (b :: c :: bs) ↔ (b.used = true ∨ c.used = true) ∧ Coalesced (c :: bs) :=
  List.isChain_cons_cons

theorem Coalesced.tail (h : Coalesced (b :: bs)) : Coalesced bs := List.IsChain.tail h

theorem Coalesced.left (h : Coalesced (xs ++ ys)) : Coalesced xs := (List.isChain_append.mp h).1

theorem Coalesced.right (h : Coalesced (xs ++ ys)) : Coalesced ys := (List.isChain_append.mp h).2.1

/-- A free block stands between used ones. -/
theorem coalesced_free (n : Nat) : Coalesced (xs ++ ⟨n, false⟩ :: ys) ↔
    Coalesced xs ∧ Coalesced ys ∧ (∀ b ∈ xs.getLast?, b.used = true) ∧
      ∀ b ∈ ys.head?, b.used = true := by
  rw [Coalesced, List.isChain_append, List.isChain_cons]
  simp only [List.head?_cons, Option.mem_some_iff, forall_eq', Bool.false_eq_true, or_false,
    false_or]
  exact ⟨fun ⟨h, ⟨hy, hys⟩, hx⟩ => ⟨h, hys, hx, hy⟩, fun ⟨h, hys, hx, hy⟩ => ⟨h, ⟨hy, hys⟩, hx⟩⟩

/-- What stands beside a used block does not matter. -/
theorem coalesced_used (n : Nat) : Coalesced (xs ++ ⟨n, true⟩ :: ys) ↔ Coalesced xs ∧ Coalesced ys := by
  rw [Coalesced, List.isChain_append, List.isChain_cons]
  simp only [List.head?_cons, Option.mem_some_iff, forall_eq', true_or, or_true, implies_true,
    true_and, and_true]
  exact Iff.rfl

/-- A coalesced tiling is determined by its used blocks. -/
theorem Coalesced.ext (hb : Coalesced bs) (hc : Coalesced cs) (hbpos : ∀ b ∈ bs, 0 < b.len)
    (hcpos : ∀ c ∈ cs, 0 < c.len) (htotal : total bs = total cs)
    (hused : usedFrom a bs = usedFrom a cs) : bs = cs := by
  induction bs generalizing a cs with
  | nil =>
      cases cs with
      | nil => rfl
      | cons c cs =>
          have := hcpos c List.mem_cons_self
          rw [total_nil, total_cons] at htotal
          omega
  | cons b bs ih =>
      have hbp := hbpos b List.mem_cons_self
      cases cs with
      | nil =>
          rw [total_nil, total_cons] at htotal
          omega
      | cons c cs =>
          have hcp := hcpos c List.mem_cons_self
          rw [total_cons, total_cons] at htotal
          -- once the first blocks are the same, so are the others
          have hrest : b = c → usedFrom (a + b.len) bs = usedFrom (a + b.len) cs →
              b :: bs = c :: cs := by
            rintro rfl h
            rw [ih hb.tail hc.tail (fun d hd => hbpos d (List.mem_cons_of_mem _ hd))
              (fun d hd => hcpos d (List.mem_cons_of_mem _ hd)) (by omega) h]
          obtain ⟨m, bu⟩ := b
          obtain ⟨n, cu⟩ := c
          dsimp only at hbp hcp htotal hrest
          cases bu <;> cases cu
          · rw [usedFrom_free rfl, usedFrom_free rfl] at hused
            dsimp only at hused
            have hlen : m = n := by
              have hbnext := ((@coalesced_free [] _ m).mp hb).2.2.2
              have hcnext := ((@coalesced_free [] _ n).mp hc).2.2.2
              cases bs with
              | nil =>
                  cases cs with
                  | nil => simpa using htotal
                  | cons c' cs =>
                      rw [usedFrom_used (hcnext c' rfl)] at hused
                      exact absurd hused (by simp)
              | cons b' bs =>
                  rw [usedFrom_used (hbnext b' rfl)] at hused
                  cases cs with
                  | nil => exact absurd hused (by simp)
                  | cons c' cs =>
                      rw [usedFrom_used (hcnext c' rfl)] at hused
                      have := congrArg Prod.fst (List.cons.inj hused).1
                      dsimp only at this
                      omega
            subst hlen
            exact hrest rfl hused
          · rw [usedFrom_free rfl, usedFrom_used rfl] at hused
            have hmem : (a, n) ∈ usedFrom (a + m) bs := by rw [hused]; exact List.mem_cons_self
            have := (usedFrom_bounds hmem).1
            omega
          · rw [usedFrom_used rfl, usedFrom_free rfl] at hused
            have hmem : (a, m) ∈ usedFrom (a + n) cs := by rw [← hused]; exact List.mem_cons_self
            have := (usedFrom_bounds hmem).1
            omega
          · rw [usedFrom_used rfl, usedFrom_used rfl] at hused
            obtain ⟨hhead, htail⟩ := List.cons.inj hused
            obtain rfl := (Prod.mk.inj hhead).2
            exact hrest rfl htail

/-- Room that meets no used block lies in one free block. -/
theorem Coalesced.room {x n : Nat} (h : Coalesced bs) (hn : 0 < n) (hlo : a ≤ x)
    (hhi : x + n ≤ a + total bs)
    (hfree : ∀ p m, (p, m) ∈ usedFrom a bs → x + n ≤ p ∨ p + m ≤ x) :
    ∃ xs m ys, bs = xs ++ ⟨m, false⟩ :: ys ∧ a + total xs ≤ x ∧ x + n ≤ a + total xs + m := by
  induction bs generalizing a with
  | nil =>
      rw [total_nil] at hhi
      omega
  | cons b bs ih =>
      rw [total_cons] at hhi
      have hlater : (∀ p m, (p, m) ∈ usedFrom (a + b.len) bs → x + n ≤ p ∨ p + m ≤ x) →
          a + b.len ≤ x → ∃ xs m ys, b :: bs = xs ++ ⟨m, false⟩ :: ys ∧ a + total xs ≤ x ∧
            x + n ≤ a + total xs + m := by
        intro hfree hle
        obtain ⟨xs, m, ys, rfl, hxs, hm⟩ := ih h.tail hle (by omega) hfree
        exact ⟨b :: xs, m, ys, rfl, by rw [total_cons]; omega, by rw [total_cons]; omega⟩
      obtain ⟨l, bu⟩ := b
      dsimp only at hhi hlater
      cases bu with
      | true =>
          rw [usedFrom_used rfl] at hfree
          have hhere := hfree a l List.mem_cons_self
          exact hlater (fun p m hmem => hfree p m (List.mem_cons_of_mem _ hmem)) (by omega)
      | false =>
          rw [usedFrom_free rfl] at hfree
          by_cases hx : a + l ≤ x
          · exact hlater hfree hx
          · -- it begins in this block, and a used block or the end follows
            refine ⟨[], l, bs, rfl, by simpa using hlo, ?_⟩
            rw [total_nil, Nat.add_zero]
            have hnext := ((@coalesced_free [] _ l).mp h).2.2.2
            cases bs with
            | nil => simpa using hhi
            | cons c bs =>
                have hc := hfree (a + l) c.len (by
                  rw [usedFrom_used (hnext c rfl)]
                  exact List.mem_cons_self)
                omega

end Tiling
