import Mathlib.Data.List.Basic
import Mathlib.Data.Nat.ModEq

set_option autoImplicit false

/-! # A ring of cells as a bounded queue

A producer and a consumer share `n` cells and visit them in the same cyclic order. Position `k`
(counted from the beginning of time, never reduced) is the cell `k % n`. A cell is either free or
full of some item; what these mean is left to two predicates, so that a cell may be a bit of one
word and the bytes of a buffer elsewhere.

`Ring.Holds n full free items head`: of the items produced so far the first `head` were consumed,
the others are in the cells at their positions, in order, and the rest of the ring is free. The
lemmas are the queue operations: `push` at the tail, `pop` at the head, and what the cell at the
tail or at the head says about the whole ring. -/

namespace Ring

variable {α : Type}

structure Holds (n : Nat) (full : Nat → α → Prop) (free : Nat → Prop) (items : List α)
    (head : Nat) : Prop where
  head_le : head ≤ items.length
  length_le : items.length ≤ head + n
  cell : ∀ k x, head ≤ k → items[k]? = some x → full (k % n) x
  gap : ∀ k, items.length ≤ k → k < head + n → free (k % n)

/-- Different positions of one window of length `n` are different cells. -/
theorem mod_ne {n h a b : Nat} (ha : h ≤ a) (ha' : a < h + n) (hb : h ≤ b) (hb' : b < h + n)
    (hne : a ≠ b) : a % n ≠ b % n := by
  intro heq
  rcases Nat.lt_or_gt_of_ne hne with hlt | hlt
  · have hmod : (b - a) % n = 0 := Nat.sub_mod_eq_zero_of_mod_eq heq.symm
    rw [Nat.mod_eq_of_lt (by omega)] at hmod
    omega
  · have hmod : (a - b) % n = 0 := Nat.sub_mod_eq_zero_of_mod_eq heq
    rw [Nat.mod_eq_of_lt (by omega)] at hmod
    omega

/-- Every cell occurs in every window of length `n`. -/
theorem exists_position {n i : Nat} (h : Nat) (hi : i < n) :
    ∃ k, h ≤ k ∧ k < h + n ∧ k % n = i := by
  have hn : 0 < n := by omega
  have hlt := Nat.mod_lt h hn
  have hdiv := Nat.div_add_mod h n
  by_cases hle : h % n ≤ i
  · refine ⟨n * (h / n) + i, by omega, by omega, ?_⟩
    rw [Nat.mul_add_mod, Nat.mod_eq_of_lt hi]
  · refine ⟨n * (h / n + 1) + i, by rw [Nat.mul_add]; omega, by rw [Nat.mul_add]; omega, ?_⟩
    rw [Nat.mul_add_mod, Nat.mod_eq_of_lt hi]

namespace Holds

variable {n head : Nat} {full full' : Nat → α → Prop} {free free' : Nat → Prop} {items : List α}

/-- A ring with every cell free holds nothing. -/
theorem empty (hfree : ∀ i, i < n → free i) : Holds n full free ([] : List α) 0 where
  head_le := Nat.le_refl _
  length_le := Nat.zero_le _
  cell := fun k x _ h => by simp at h
  gap := fun k _ h => hfree _ (Nat.mod_lt _ (by omega))

/-- Only the cells of the ring matter. -/
theorem transfer (h : Holds n full free items head) (hn : 0 < n)
    (hfull : ∀ i x, i < n → full i x → full' i x) (hfree : ∀ i, i < n → free i → free' i) :
    Holds n full' free' items head where
  head_le := h.head_le
  length_le := h.length_le
  cell := fun k x hk hx => hfull _ _ (Nat.mod_lt _ hn) (h.cell k x hk hx)
  gap := fun k hk hk' => hfree _ (Nat.mod_lt _ hn) (h.gap k hk hk')

theorem push {x : α} (h : Holds n full free items head) (hroom : items.length < head + n)
    (hx : full' (items.length % n) x)
    (hfull : ∀ i y, i < n → i ≠ items.length % n → full i y → full' i y)
    (hfree : ∀ i, i < n → i ≠ items.length % n → free i → free' i) :
    Holds n full' free' (items ++ [x]) head := by
  have hhead := h.head_le
  have hn : 0 < n := by omega
  refine ⟨by simp; omega, by simp; omega, fun k y hk hy => ?_, fun k hk hk' => ?_⟩
  · rcases Nat.lt_trichotomy k items.length with hlt | rfl | hgt
    · rw [List.getElem?_append_left hlt] at hy
      refine hfull _ _ (Nat.mod_lt _ hn) ?_ (h.cell k y hk hy)
      exact mod_ne hk (by omega) hhead hroom (Nat.ne_of_lt hlt)
    · rw [List.getElem?_append_right (Nat.le_refl _), Nat.sub_self] at hy
      simp only [List.getElem?_cons_zero, Option.some.injEq] at hy
      exact hy ▸ hx
    · rw [List.getElem?_eq_none (by simp; omega)] at hy
      exact absurd hy (by simp)
  · simp only [List.length_append, List.length_cons, List.length_nil, Nat.zero_add] at hk
    refine hfree _ (Nat.mod_lt _ hn) ?_ (h.gap k (by omega) hk')
    exact mod_ne (by omega) hk' hhead hroom (by omega)

theorem pop (h : Holds n full free items head) (hne : head < items.length)
    (hx : free' (head % n))
    (hfull : ∀ i y, i < n → i ≠ head % n → full i y → full' i y)
    (hfree : ∀ i, i < n → i ≠ head % n → free i → free' i) :
    Holds n full' free' items (head + 1) := by
  have hlen := h.length_le
  have hn : 0 < n := by omega
  refine ⟨hne, by omega, fun k y hk hy => ?_, fun k hk hk' => ?_⟩
  · have hklen : k < items.length := (List.getElem?_eq_some_iff.mp hy).1
    refine hfull _ _ (Nat.mod_lt _ hn) ?_ (h.cell k y (by omega) hy)
    exact mod_ne (by omega) (by omega) (Nat.le_refl _) (by omega) (by omega)
  · by_cases hlast : k = head + n
    · rw [hlast, Nat.add_mod_right]
      exact hx
    · refine hfree _ (Nat.mod_lt _ hn) ?_ (h.gap k hk (by omega))
      exact mod_ne (by omega) (by omega) (Nat.le_refl _) (by omega) (by omega)

section Exclusive

variable (hexcl : ∀ i x, full i x → ¬ free i)
include hexcl

/-- The cell at the tail is free exactly when there is room. -/
theorem free_tail_iff (h : Holds n full free items head) (hn : 0 < n) :
    free (items.length % n) ↔ items.length < head + n := by
  have hlen := h.length_le
  refine ⟨fun hf => ?_, fun hroom => h.gap _ (Nat.le_refl _) hroom⟩
  by_contra hge
  -- A ring without room: the tail cell is the head cell again, and that is full.
  have htail : items.length = head + n := by omega
  have hhead : head < items.length := by omega
  have hfull := h.cell head _ (Nat.le_refl _) (List.getElem?_eq_getElem hhead)
  rw [htail, Nat.add_mod_right] at hf
  exact hexcl _ _ hfull hf

/-- If any cell is free, the one at the tail is. -/
theorem free_tail_iff_exists (h : Holds n full free items head) (hn : 0 < n) :
    free (items.length % n) ↔ ∃ i, i < n ∧ free i := by
  refine ⟨fun hf => ⟨_, Nat.mod_lt _ hn, hf⟩, fun ⟨i, hi, hf⟩ => ?_⟩
  rw [h.free_tail_iff hexcl hn]
  have hlen := h.length_le
  by_contra hge
  obtain ⟨k, hk, hk', rfl⟩ := exists_position head hi
  have hklen : k < items.length := by omega
  exact hexcl _ _ (h.cell k _ hk (List.getElem?_eq_getElem hklen)) hf

/-- The cell at the head is free exactly when the ring is empty. -/
theorem free_head_iff (h : Holds n full free items head) (hn : 0 < n) :
    free (head % n) ↔ items.length = head := by
  have hhead := h.head_le
  refine ⟨fun hf => ?_, fun heq => h.gap head (Nat.le_of_eq heq) (by omega)⟩
  by_contra hne
  have hlt : head < items.length := by omega
  exact hexcl _ _ (h.cell head _ (Nat.le_refl _) (List.getElem?_eq_getElem hlt)) hf

end Exclusive

end Holds

end Ring
