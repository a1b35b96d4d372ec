import Mathlib.Data.BitVec

set_option autoImplicit false

/-! # Fields of a register

A field is `len` bits of a word from bit `lsb` on, and lies inside the word. `get` and `set` read and
write it as C reads and writes a bit field: what is stored has the width of the field, and the other
bits of the word are kept. -/

structure BitField (w : Nat) where
  lsb : Nat
  len : Nat
  fits : lsb + len ≤ w

namespace BitField

variable {w : Nat}

/-- The field of one bit. -/
def bit (i : Nat) (h : i < w) : BitField w := ⟨i, 1, h⟩

def mask (f : BitField w) : BitVec w := (BitVec.allOnes f.len).setWidth w <<< f.lsb

def get (f : BitField w) (r : BitVec w) : BitVec f.len := r.extractLsb' f.lsb f.len

def set (f : BitField w) (v : BitVec f.len) (r : BitVec w) : BitVec w :=
  (r &&& ~~~f.mask) ||| (v.setWidth w <<< f.lsb)

/-- Two fields without a common bit. -/
def Disjoint (f g : BitField w) : Prop := f.lsb + f.len ≤ g.lsb ∨ g.lsb + g.len ≤ f.lsb

instance (f g : BitField w) : Decidable (f.Disjoint g) :=
  inferInstanceAs (Decidable (_ ∨ _))

theorem getLsbD_mask (f : BitField w) (i : Nat) :
    f.mask.getLsbD i = decide (f.lsb ≤ i ∧ i < f.lsb + f.len) := by
  have hfits := f.fits
  simp only [mask, BitVec.getLsbD_shiftLeft, BitVec.getLsbD_setWidth, BitVec.getLsbD_allOnes]
  by_cases h : f.lsb ≤ i ∧ i < f.lsb + f.len
  · have h1 : i < w := by omega
    have h2 : i - f.lsb < w := by omega
    have h3 : i - f.lsb < f.len := by omega
    simp [h, h1, h2, h3]
  · simp only [h, decide_false]
    by_cases hi : i < f.lsb
    · simp [hi]
    · have h3 : ¬ i - f.lsb < f.len := by omega
      simp [h3]

theorem getLsbD_get (f : BitField w) (r : BitVec w) (i : Nat) :
    (f.get r).getLsbD i = (decide (i < f.len) && r.getLsbD (f.lsb + i)) := by
  simp [get]

/-! ## Reading through masks -/

theorem get_and (f : BitField w) (r b : BitVec w) : f.get (r &&& b) = f.get r &&& f.get b := by
  ext i hi
  simp [get]

theorem get_or (f : BitField w) (r b : BitVec w) : f.get (r ||| b) = f.get r ||| f.get b := by
  ext i hi
  simp [get]

theorem get_or_of_zero {f : BitField w} {b : BitVec w} (hb : f.get b = 0) (r : BitVec w) :
    f.get (r ||| b) = f.get r := by
  rw [get_or, hb]
  exact BitVec.or_zero

theorem get_and_of_zero {f : BitField w} {b : BitVec w} (hb : f.get b = 0) (r : BitVec w) :
    f.get (r &&& b) = 0 := by
  rw [get_and, hb]
  exact BitVec.and_zero

theorem get_and_of_ones {f : BitField w} {b : BitVec w} (hb : f.get b = BitVec.allOnes f.len)
    (r : BitVec w) : f.get (r &&& b) = f.get r := by
  rw [get_and, hb, BitVec.and_allOnes]

/-- Storing outside of the field: it was kept, and nothing was added to it. -/
theorem get_store_other {f : BitField w} {m b : BitVec w} (hm : f.get m = BitVec.allOnes f.len)
    (hb : f.get b = 0) (r : BitVec w) : f.get ((r &&& m) ||| b) = f.get r := by
  rw [get_or_of_zero hb, get_and_of_ones hm]

/-- Storing to the field: it was cleared, and the value added. -/
theorem get_store {f : BitField w} {m : BitVec w} (hm : f.get m = 0) (r b : BitVec w) :
    f.get ((r &&& m) ||| b) = f.get b := by
  rw [get_or, get_and_of_zero hm]
  exact BitVec.zero_or

/-- A field is the same in words that agree on its bits. -/
theorem get_congr {f : BitField w} {r r' b : BitVec w} (hb : f.get b = BitVec.allOnes f.len)
    (h : r' &&& b = r &&& b) : f.get r' = f.get r := by
  rw [← get_and_of_ones hb r', h, get_and_of_ones hb]

/-- Part of a field is the same where the field is. -/
theorem get_congr_of_within {f g : BitField w} {r r' : BitVec w} (hlow : g.lsb ≤ f.lsb)
    (hhigh : f.lsb + f.len ≤ g.lsb + g.len) (h : g.get r' = g.get r) : f.get r' = f.get r := by
  apply BitVec.eq_of_getLsbD_eq
  intro i hi
  have hbit := congrArg (·.getLsbD (f.lsb - g.lsb + i)) h
  have hin : f.lsb - g.lsb + i < g.len := by omega
  have hpos : g.lsb + (f.lsb - g.lsb + i) = f.lsb + i := by omega
  simp only [getLsbD_get, hin, hpos, decide_true, Bool.true_and] at hbit
  rw [getLsbD_get, getLsbD_get, hbit]

/-- A word below the field is not seen in it. -/
theorem get_eq_zero_of_lt {f : BitField w} {r : BitVec w} (h : r.toNat < 2 ^ f.lsb) :
    f.get r = 0 := by
  apply BitVec.eq_of_toNat_eq
  simp [get, Nat.shiftRight_eq_div_pow, Nat.div_eq_of_lt h]

/-- Nor is a small one that is shifted up, but not as far as the field. -/
theorem get_shiftLeft_of_lt {f : BitField w} {r : BitVec w} {k n : Nat} (hr : r.toNat < 2 ^ k)
    (h : k + n ≤ f.lsb) : f.get (r <<< n) = 0 := by
  apply get_eq_zero_of_lt
  calc (r <<< n).toNat = r.toNat * 2 ^ n % 2 ^ w := by rw [BitVec.toNat_shiftLeft, Nat.shiftLeft_eq]
    _ ≤ r.toNat * 2 ^ n := Nat.mod_le _ _
    _ < 2 ^ k * 2 ^ n := Nat.mul_lt_mul_of_pos_right hr (Nat.two_pow_pos n)
    _ = 2 ^ (k + n) := (Nat.pow_add 2 k n).symm
    _ ≤ 2 ^ f.lsb := Nat.pow_le_pow_right (by decide) h

/-- A field without a bit of the word reads as zero. -/
theorem get_eq_zero {f : BitField w} {r : BitVec w} (h : r &&& f.mask = 0) : f.get r = 0 := by
  have hfits := f.fits
  apply BitVec.eq_of_getLsbD_eq
  intro i hi
  have hbit := congrArg (·.getLsbD (f.lsb + i)) h
  simp only [BitVec.getLsbD_and, getLsbD_mask] at hbit
  rw [getLsbD_get]
  simpa [hi] using hbit

/-- Masked in place, a word is the field at its position. -/
theorem and_mask (f : BitField w) (r : BitVec w) :
    r &&& f.mask = (f.get r).setWidth w <<< f.lsb := by
  have hfits := f.fits
  apply BitVec.eq_of_getLsbD_eq
  intro i hi
  simp only [BitVec.getLsbD_and, getLsbD_mask, BitVec.getLsbD_shiftLeft, BitVec.getLsbD_setWidth,
    getLsbD_get]
  by_cases hlow : i < f.lsb
  · have hout : ¬ f.lsb ≤ i := by omega
    simp [hlow, hout]
  · have hle : f.lsb ≤ i := by omega
    have hiff : i - f.lsb < f.len ↔ i < f.lsb + f.len := by omega
    have hw : i - f.lsb < w := by omega
    simp [hlow, hle, hi, hw, hiff, Bool.and_comm]

/-- What holds of each value of the field, at its position, holds of a word masked in place. -/
theorem forall_and_mask (f : BitField w) {m : BitVec w} (hm : f.mask = m) (P : BitVec w → Prop)
    (h : ∀ v : BitVec f.len, P (v.setWidth w <<< f.lsb)) (r : BitVec w) : P (r &&& m) := by
  rw [← hm, and_mask]
  exact h (f.get r)

/-- The same for a field in two pieces. -/
theorem forall_and_masks (f g : BitField w) {m : BitVec w} (hm : f.mask ||| g.mask = m)
    (P : BitVec w → Prop)
    (h : ∀ (u : BitVec f.len) (v : BitVec g.len),
      P ((u.setWidth w <<< f.lsb) ||| (v.setWidth w <<< g.lsb)))
    (r : BitVec w) : P (r &&& m) := by
  rw [← hm, BitVec.and_or_distrib_left, and_mask, and_mask]
  exact h (f.get r) (g.get r)

/-- Shifted down and masked, it is the field. -/
theorem shiftRight_and (f : BitField w) (r : BitVec w) :
    (r >>> f.lsb) &&& (BitVec.allOnes f.len).setWidth w = (f.get r).setWidth w := by
  apply BitVec.eq_of_getLsbD_eq
  intro i hi
  simp only [BitVec.getLsbD_and, BitVec.getLsbD_ushiftRight, BitVec.getLsbD_setWidth,
    BitVec.getLsbD_allOnes, getLsbD_get, hi, decide_true, Bool.true_and]
  exact Bool.and_comm _ _

/-- A value shifted up to the field is read back, as far as the field is wide. -/
theorem get_shiftLeft (f : BitField w) (v : BitVec w) : f.get (v <<< f.lsb) = v.setWidth f.len := by
  have hfits := f.fits
  apply BitVec.eq_of_getLsbD_eq
  intro i hi
  have hw : f.lsb + i < w := by omega
  have hge : ¬ f.lsb + i < f.lsb := by omega
  rw [getLsbD_get, BitVec.getLsbD_shiftLeft, BitVec.getLsbD_setWidth]
  simp only [hi, hw, hge, decide_true, decide_false, Bool.not_false, Bool.true_and,
    Nat.add_sub_cancel_left]

/-- A value shifted up beyond the field is not seen in it. -/
theorem get_shiftLeft_of_le {f : BitField w} {n : Nat} (h : f.lsb + f.len ≤ n) (v : BitVec w) :
    f.get (v <<< n) = 0 := by
  apply BitVec.eq_of_getLsbD_eq
  intro i hi
  have hlow : f.lsb + i < n := by omega
  rw [getLsbD_get]
  simp [hlow]

/-! ## Reading what was stored -/

@[simp] theorem get_set (f : BitField w) (v : BitVec f.len) (r : BitVec w) :
    f.get (f.set v r) = v := by
  have hfits := f.fits
  apply BitVec.eq_of_getLsbD_eq
  intro i hi
  have hw : f.lsb + i < w := by omega
  have hi' : i < w := by omega
  simp only [getLsbD_get, set, BitVec.getLsbD_or, BitVec.getLsbD_and, BitVec.getLsbD_not,
    getLsbD_mask, BitVec.getLsbD_shiftLeft, BitVec.getLsbD_setWidth]
  simp [hi, hw, hi']

/-- Storing what the field holds changes nothing. -/
theorem set_get (f : BitField w) (r : BitVec w) : f.set (f.get r) r = r := by
  rw [set, ← and_mask, ← BitVec.and_or_distrib_left, BitVec.or_comm, BitVec.or_not_self,
    BitVec.and_allOnes]

theorem set_eq_self_iff {f : BitField w} {v : BitVec f.len} {r : BitVec w} :
    f.set v r = r ↔ f.get r = v := by
  constructor
  · intro h
    rw [← h, get_set]
  · rintro rfl
    exact f.set_get r

/-- A store to one field is not seen in another. -/
theorem get_set_of_disjoint {f g : BitField w} (h : f.Disjoint g) (v : BitVec g.len)
    (r : BitVec w) : f.get (g.set v r) = f.get r := by
  have hfits := f.fits
  unfold Disjoint at h
  apply BitVec.eq_of_getLsbD_eq
  intro i hi
  have hw : f.lsb + i < w := by omega
  have hout : ¬ (g.lsb ≤ f.lsb + i ∧ f.lsb + i < g.lsb + g.len) := by omega
  simp only [getLsbD_get, set, BitVec.getLsbD_or, BitVec.getLsbD_and, BitVec.getLsbD_not,
    getLsbD_mask, BitVec.getLsbD_shiftLeft, BitVec.getLsbD_setWidth, hout]
  rcases Nat.lt_or_ge (f.lsb + i) g.lsb with hlow | hhigh
  · simp [hi, hw, hlow]
  · have hv : v.getLsbD (f.lsb + i - g.lsb) = false :=
      BitVec.getLsbD_of_ge v _ (by omega)
    simp [hi, hw, hv]

/-- Two stores change nothing if both fields held what was stored. -/
theorem set_set_eq_self_iff {f g : BitField w} (h : f.Disjoint g) {u : BitVec f.len}
    {v : BitVec g.len} {r : BitVec w} : g.set v (f.set u r) = r ↔ f.get r = u ∧ g.get r = v := by
  constructor
  · intro heq
    refine ⟨?_, ?_⟩
    · rw [← heq, get_set_of_disjoint h, get_set]
    · rw [← heq, get_set]
  · rintro ⟨hf, hg⟩
    rw [set_eq_self_iff.mpr hf, set_eq_self_iff.mpr hg]

end BitField
