import Mathlib.Tactic.Linarith
import Mathlib.Tactic.Ring

set_option autoImplicit false

/-! # Rounded quotients

The nearest whole number to a quotient, as programs compute it from natural numbers: with some more
digits than are wanted, to which half a unit is added before the digits are dropped. -/

namespace Rounding

variable {a b c m : Nat}

/-- The quotient, rounded half up. -/
def nearest (a b : Nat) : Nat := (2 * a + b) / (2 * b)

theorem le_nearest_iff (hb : 0 < b) : m ≤ nearest a b ↔ m * (2 * b) ≤ 2 * a + b :=
  Nat.le_div_iff_mul_le (by omega)

/-- To drop the digits of a quotient is to round it, however many they are. -/
theorem scaled_eq_nearest (hb : 0 < b) (hc : 0 < c) :
    (a * (2 * c) / b + c) / (2 * c) = nearest a b := by
  have hle (m : Nat) : m ≤ (a * (2 * c) / b + c) / (2 * c) ↔ m ≤ nearest a b := by
    have hleft : (m * (2 * c) - c) * b = c * (m * (2 * b) - b) := by
      rw [Nat.sub_mul, Nat.mul_sub]
      congr 1
      ring
    have hright : a * (2 * c) = c * (2 * a) := by ring
    calc m ≤ (a * (2 * c) / b + c) / (2 * c)
        ↔ m * (2 * c) ≤ a * (2 * c) / b + c := Nat.le_div_iff_mul_le (by omega)
      _ ↔ m * (2 * c) - c ≤ a * (2 * c) / b := Nat.sub_le_iff_le_add.symm
      _ ↔ (m * (2 * c) - c) * b ≤ a * (2 * c) := Nat.le_div_iff_mul_le hb
      _ ↔ c * (m * (2 * b) - b) ≤ c * (2 * a) := by rw [hleft, hright]
      _ ↔ m * (2 * b) - b ≤ 2 * a := Nat.mul_le_mul_left_iff hc
      _ ↔ m * (2 * b) ≤ 2 * a + b := Nat.sub_le_iff_le_add
      _ ↔ m ≤ nearest a b := (le_nearest_iff hb).symm
  exact Nat.le_antisymm ((hle _).mp (Nat.le_refl _)) ((hle _).mpr (Nat.le_refl _))

theorem nearest_error (a : Nat) (hb : 0 < b) :
    |((nearest a b * b : Nat) : Int) - a| ≤ (b / 2 : Nat) := by
  have hle := (le_nearest_iff hb).mp (Nat.le_refl (nearest a b))
  have hlt : ¬ nearest a b + 1 ≤ nearest a b := by omega
  rw [le_nearest_iff hb, Nat.add_mul] at hlt
  rw [Nat.mul_left_comm] at hle hlt
  generalize nearest a b * b = nb at *
  rw [abs_le]
  omega

/-- Where the dividend has been divided before, the fraction that was cut off is added. -/
theorem nearest_div_error {k : Nat} (a : Nat) (hk : 0 < k) (hb : 0 < b) :
    |((nearest (a / k) b * k * b : Nat) : Int) - a| ≤ (k * (b / 2 + 1) : Nat) := by
  obtain ⟨hlow, hhigh⟩ := abs_le.mp (nearest_error (a / k) hb)
  have hcut := Nat.mul_div_le a k
  have hcut' := Nat.lt_mul_div_succ a hk
  generalize a / k = q at *
  have hproduct : nearest q b * k * b = k * (nearest q b * b) := by ring
  rw [hproduct]
  generalize nearest q b * b = nb at *
  have hle : k * nb ≤ k * (q + b / 2) := Nat.mul_le_mul_left k (by omega)
  have hge : k * q ≤ k * (nb + b / 2) := Nat.mul_le_mul_left k (by omega)
  rw [Nat.mul_add] at hcut' hle hge
  rw [Nat.mul_add, abs_le]
  omega

end Rounding
