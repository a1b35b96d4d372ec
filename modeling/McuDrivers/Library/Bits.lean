import Mathlib.Data.BitVec

set_option autoImplicit false

/-! # Masks

What reading a field of a register through a mask (`r &&& m`) gives after bits were set (`r ||| b`)
or kept (`r &&& b`). Each side condition speaks of the masks alone, so that it closes by `decide`
when they are literals. -/

namespace Mask

variable {w : Nat} {r b m : BitVec w}

/-- Setting bits outside the mask is not seen through it. -/
theorem or_and_of_disjoint (r : BitVec w) (h : b &&& m = 0) : (r ||| b) &&& m = r &&& m := by
  rw [BitVec.and_or_distrib_right, h]
  exact BitVec.or_zero

/-- Setting all bits of the mask is seen as the mask. -/
theorem or_and_of_subset (r : BitVec w) (h : b &&& m = m) : (r ||| b) &&& m = m := by
  rw [BitVec.and_or_distrib_right, h]
  ext i
  simp

theorem or_and_ne_zero (b : BitVec w) (h : r &&& m ≠ 0) : (r ||| b) &&& m ≠ 0 := by
  intro h0
  refine h ?_
  rw [BitVec.and_or_distrib_right] at h0
  ext i hi
  have hi0 := congrArg (fun x => x[i]) h0
  simp only [BitVec.getElem_or, BitVec.ofNat_eq_ofNat, BitVec.getElem_zero,
    Bool.or_eq_false_iff] at hi0
  simpa using hi0.1

/-- Keeping at least the bits of the mask is not seen through it. -/
theorem and_and_of_subset (r : BitVec w) (h : b &&& m = m) : (r &&& b) &&& m = r &&& m := by
  rw [BitVec.and_assoc, h]

/-- Clearing all bits of the mask is seen as zero. -/
theorem and_and_of_disjoint (r : BitVec w) (h : b &&& m = 0) : (r &&& b) &&& m = 0 := by
  rw [BitVec.and_assoc, h]
  exact BitVec.and_zero

/-- A word without bits of a mask has none of a part of it. -/
theorem and_eq_zero_of_subset (h : r &&& b = 0) (hm : b &&& m = m) : r &&& m = 0 := by
  rw [← and_and_of_subset r hm, h]
  exact BitVec.zero_and

theorem or_and_eq_zero {a b : BitVec w} (ha : a &&& m = 0) (hb : b &&& m = 0) :
    (a ||| b) &&& m = 0 := by
  rw [or_and_of_disjoint a hb, ha]

theorem and_eq_self (h : r &&& ~~~m = 0) : r &&& m = r := by
  calc r &&& m = (r &&& m) ||| (r &&& ~~~m) := by rw [h]; exact BitVec.or_zero.symm
    _ = r := by rw [← BitVec.and_or_distrib_left, BitVec.or_not_self, BitVec.and_allOnes]

/-- A word below a power of two has the bits below it alone. -/
theorem and_eq_self_of_lt {n : Nat} (hn : n < w) (h : r.toNat < 2 ^ n) :
    r &&& BitVec.ofNat w (2 ^ n - 1) = r := by
  have hpow : 2 ^ n < 2 ^ w := Nat.pow_lt_pow_right (by decide) hn
  apply BitVec.eq_of_toNat_eq
  rw [BitVec.toNat_and, BitVec.toNat_ofNat, Nat.mod_eq_of_lt (by omega),
    Nat.and_two_pow_sub_one_eq_mod, Nat.mod_eq_of_lt h]

/-- Storing `v` under what was kept through `b`, outside of the mask: its bits were kept. -/
theorem store_and_of_subset (r : BitVec w) {v : BitVec w} (hb : b &&& m = m) (hv : v &&& m = 0) :
    ((r &&& b) ||| v) &&& m = r &&& m := by
  rw [or_and_of_disjoint _ hv, and_and_of_subset r hb]

/-- And inside of it: its bits were cleared. -/
theorem store_and_of_disjoint (r v : BitVec w) (hb : b &&& m = 0) :
    ((r &&& b) ||| v) &&& m = v &&& m := by
  rw [BitVec.and_or_distrib_right, and_and_of_disjoint r hb]
  exact BitVec.zero_or

/-! ## One bit -/

theorem twoPow_ne_zero {k : Nat} (hk : k < w) : BitVec.twoPow w k ≠ 0 := by
  intro hzero
  have hbit := congrArg (·.getLsbD k) hzero
  simp [hk] at hbit

theorem and_twoPow_ne_zero (v : BitVec w) {k : Nat} (hk : k < w) :
    v &&& BitVec.twoPow w k ≠ 0 ↔ v.getLsbD k = true := by
  rw [BitVec.and_twoPow]
  split
  · next hset => simpa [hset] using twoPow_ne_zero hk
  · next hclear => simp [hclear]

theorem and_twoPow_eq (v : BitVec w) {k : Nat} (hk : k < w) :
    v &&& BitVec.twoPow w k = BitVec.twoPow w k ↔ v.getLsbD k = true := by
  rw [BitVec.and_twoPow]
  split
  · next hset => simp [hset]
  · next hclear => simpa [hclear] using (twoPow_ne_zero hk).symm

/-! ## Packed words -/

/-- A word put together from parts, each given beside the mask of its bits. -/
def pack (parts : List (BitVec w × BitVec w)) : BitVec w :=
  parts.foldr (fun p word => p.2 ||| word) 0

theorem pack_cons (p : BitVec w × BitVec w) (rest : List (BitVec w × BitVec w)) :
    pack (p :: rest) = p.2 ||| pack rest := rfl

/-- No two masks share a bit, and no part has a bit outside of its mask. -/
structure Packed (parts : List (BitVec w × BitVec w)) : Prop where
  disjoint : (parts.map Prod.fst).Pairwise fun m m' => m &&& m' = 0
  within : ∀ p ∈ parts, p.2 &&& p.1 = p.2

theorem pack_and_of_disjoint {parts : List (BitVec w × BitVec w)}
    (hin : ∀ p ∈ parts, p.2 &&& p.1 = p.2) (hm : ∀ p ∈ parts, m &&& p.1 = 0) :
    pack parts &&& m = 0 := by
  induction parts with
  | nil => exact BitVec.zero_and
  | cons p rest ih =>
      simp only [List.forall_mem_cons] at hin hm
      have hp : p.2 &&& m = 0 := by
        rw [← hin.1]
        exact and_and_of_disjoint p.2 ((BitVec.and_comm _ _).trans hm.1)
      exact or_and_eq_zero hp (ih hin.2 hm.2)

/-- Each part is read back through its mask. -/
theorem Packed.unpack {parts : List (BitVec w × BitVec w)} (h : Packed parts)
    {p : BitVec w × BitVec w} (hp : p ∈ parts) : pack parts &&& p.1 = p.2 := by
  obtain ⟨hdisjoint, hin⟩ := h
  induction parts with
  | nil => cases hp
  | cons q rest ih =>
      simp only [List.map_cons, List.pairwise_cons, List.forall_mem_map] at hdisjoint
      simp only [List.forall_mem_cons] at hin
      rw [pack_cons]
      rcases List.mem_cons.mp hp with rfl | hrest
      · rw [BitVec.and_or_distrib_right, hin.1, pack_and_of_disjoint hin.2 hdisjoint.1]
        exact BitVec.or_zero
      · have hq : q.2 &&& p.1 = 0 := by
          rw [← hin.1]
          exact and_and_of_disjoint q.2 (hdisjoint.1 p hrest)
        rw [BitVec.and_or_distrib_right, hq, ih hrest hdisjoint.2 hin.2]
        exact BitVec.zero_or

/-- What has no bit outside of a mask has none outside of it in a wider word, -/
theorem widened_and_widened {n : Nat} {v mask : BitVec n} (h : v &&& mask = v) :
    v.setWidth w &&& mask.setWidth w = v.setWidth w := by
  rw [← BitVec.setWidth_and, h]

/-- nor if both are moved there. -/
theorem shifted_and_shifted {n : Nat} {v mask : BitVec n} (h : v &&& mask = v) (k : Nat) :
    v.setWidth w <<< k &&& mask.setWidth w <<< k = v.setWidth w <<< k := by
  rw [← BitVec.shiftLeft_and_distrib, widened_and_widened h]

/-- What was moved without losing bits is moved back. -/
theorem shiftLeft_ushiftRight_self {k : Nat} (h : r.toNat * 2 ^ k < 2 ^ w) : (r <<< k) >>> k = r := by
  apply BitVec.eq_of_toNat_eq
  rw [BitVec.toNat_ushiftRight, BitVec.toNat_shiftLeft, Nat.shiftLeft_eq, Nat.mod_eq_of_lt h,
    Nat.shiftRight_eq_div_pow, Nat.mul_div_cancel _ (Nat.two_pow_pos k)]

/-- What was moved into a wider word is moved back. -/
theorem setWidth_shifted {n k : Nat} (v : BitVec n) (h : n + k ≤ w) :
    ((v.setWidth w <<< k) >>> k).setWidth n = v := by
  apply BitVec.eq_of_getLsbD_eq
  intro i hi
  have hw : k + i < w := by omega
  have hw' : i < w := by omega
  simp [hi, hw, hw']

end Mask
