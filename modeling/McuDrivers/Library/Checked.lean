import Mathlib.Data.BitVec

set_option autoImplicit false

/-! # Checked unsigned arithmetic

The operations of unsigned C arithmetic, without a result where C would wrap around or divide by
zero. A computation in `Option` that has a result has therefore met neither. -/

namespace Checked

variable {w : Nat}

def add (a b : BitVec w) : Option (BitVec w) := if a.uaddOverflow b then none else some (a + b)

def mul (a b : BitVec w) : Option (BitVec w) := if a.umulOverflow b then none else some (a * b)

def div (a b : BitVec w) : Option (BitVec w) := if b = 0 then none else some (a / b)

/-! ## The results, as numbers -/

theorem add_of_lt {a b : BitVec w} (h : a.toNat + b.toNat < 2 ^ w) :
    ∃ r, add a b = some r ∧ r.toNat = a.toNat + b.toNat := by
  have hno : ¬ a.uaddOverflow b := by simp [BitVec.uaddOverflow, h]
  exact ⟨a + b, if_neg hno, BitVec.toNat_add_of_lt h⟩

theorem mul_of_lt {a b : BitVec w} (h : a.toNat * b.toNat < 2 ^ w) :
    ∃ r, mul a b = some r ∧ r.toNat = a.toNat * b.toNat := by
  have hno : ¬ a.umulOverflow b := by simp [BitVec.umulOverflow, h]
  exact ⟨a * b, if_neg hno, BitVec.toNat_mul_of_lt h⟩

theorem div_of_ne_zero (a : BitVec w) {b : BitVec w} (h : b.toNat ≠ 0) :
    ∃ r, div a b = some r ∧ r.toNat = a.toNat / b.toNat := by
  have hb : b ≠ 0 := by
    rintro rfl
    exact h rfl
  exact ⟨a / b, if_neg hb, BitVec.toNat_udiv⟩

theorem toNat_of_mul {a b r : BitVec w} (h : mul a b = some r) : r.toNat = a.toNat * b.toNat := by
  unfold mul at h
  split at h
  · cases h
  · next hno =>
      cases h
      exact BitVec.toNat_mul_of_lt (by simpa [BitVec.umulOverflow] using hno)

theorem toNat_of_div {a b r : BitVec w} (h : div a b = some r) : r.toNat = a.toNat / b.toNat := by
  unfold div at h
  split at h
  · cases h
  · cases h
    exact BitVec.toNat_udiv

end Checked
