import McuDrivers.Library.BitField

set_option autoImplicit false

/-! # Words of slots

A word divided into slots of `n` bits each, from bit 0 on. `put` clears a slot and adds a value there, as
a driver does it with a mask and a value that are shifted to the slot. A slot may lie partly or wholly
beyond the end of the word. -/

namespace Slots

variable {w n i j : Nat} {v r : BitVec w}

def get (n i : Nat) (r : BitVec w) : BitVec n := r.extractLsb' (n * i) n

def put (n i : Nat) (v r : BitVec w) : BitVec w :=
  (r &&& ~~~((BitVec.allOnes n).setWidth w <<< (n * i))) ||| (v <<< (n * i))

/-- The bits of a slot and no others become those of the value. -/
theorem getLsbD_put (hv : v.toNat < 2 ^ n) (r : BitVec w) {b : Nat} (hb : b < w) :
    (put n i v r).getLsbD b =
      if n * i ≤ b ∧ b < n * i + n then v.getLsbD (b - n * i) else r.getLsbD b := by
  have hsub : b - n * i < w := by omega
  simp only [put, BitVec.getLsbD_or, BitVec.getLsbD_and, BitVec.getLsbD_not, BitVec.getLsbD_shiftLeft,
    BitVec.getLsbD_setWidth, BitVec.getLsbD_allOnes, hb, hsub, decide_true, Bool.true_and]
  split_ifs with hin
  · have hge : ¬ b < n * i := by omega
    have hlt : b - n * i < n := by omega
    simp [hge, hlt]
  · rcases Nat.lt_or_ge b (n * i) with hlow | hhigh
    · simp [hlow]
    · have hge : ¬ b - n * i < n := by omega
      have hzero : v.getLsbD (b - n * i) = false :=
        Nat.testBit_lt_two_pow (Nat.lt_of_lt_of_le hv (Nat.pow_le_pow_right (by decide) (by omega)))
      simp [hge, hzero]

theorem getLsbD_get (n i : Nat) (r : BitVec w) (b : Nat) :
    (get n i r).getLsbD b = (decide (b < n) && r.getLsbD (n * i + b)) := by
  simp [get]

/-- What was put in a slot is read back. -/
theorem get_put_self (hfits : n * i + n ≤ w) (hv : v.toNat < 2 ^ n) (r : BitVec w) :
    get n i (put n i v r) = v.setWidth n := by
  apply BitVec.eq_of_getLsbD_eq
  intro b hb
  have hin : n * i ≤ n * i + b ∧ n * i + b < n * i + n := by omega
  rw [getLsbD_get, getLsbD_put hv r (by omega), if_pos hin, Nat.add_sub_cancel_left,
    BitVec.getLsbD_setWidth]

/-- Slots beside it are kept, also those of another division, -/
theorem get_put_of_disjoint {m : Nat} (hout : m * j + m ≤ n * i ∨ n * i + n ≤ m * j)
    (hv : v.toNat < 2 ^ n) (r : BitVec w) : get m j (put n i v r) = get m j r := by
  apply BitVec.eq_of_getLsbD_eq
  intro b hb
  rw [getLsbD_get, getLsbD_get]
  rcases Nat.lt_or_ge (m * j + b) w with hw | hw
  · have hne : ¬ (n * i ≤ m * j + b ∧ m * j + b < n * i + n) := by omega
    rw [getLsbD_put hv r hw, if_neg hne]
  · rw [BitVec.getLsbD_of_ge _ _ hw, BitVec.getLsbD_of_ge _ _ hw]

theorem get_put_of_ne (hij : i ≠ j) (hv : v.toNat < 2 ^ n) (r : BitVec w) :
    get n j (put n i v r) = get n j r := by
  refine get_put_of_disjoint ?_ hv r
  rcases Nat.lt_or_gt_of_ne hij with hlt | hgt
  · have hmul := Nat.mul_le_mul_left n hlt
    rw [Nat.mul_succ] at hmul
    exact .inr hmul
  · have hmul := Nat.mul_le_mul_left n hgt
    rw [Nat.mul_succ] at hmul
    exact .inl hmul

/-- and so is every field beside the slot. -/
theorem field_put {f : BitField w} (hout : f.lsb + f.len ≤ n * i ∨ n * i + n ≤ f.lsb)
    (hv : v.toNat < 2 ^ n) (r : BitVec w) : f.get (put n i v r) = f.get r := by
  have hfits := f.fits
  apply BitVec.eq_of_getLsbD_eq
  intro b hb
  have hne : ¬ (n * i ≤ f.lsb + b ∧ f.lsb + b < n * i + n) := by omega
  rw [BitField.getLsbD_get, BitField.getLsbD_get, getLsbD_put hv r (by omega), if_neg hne]

/-- A field in the slot shows its part of the value. -/
theorem field_put_within {f : BitField w} (hlow : f.lsb = n * i) (hlen : f.len ≤ n)
    (hv : v.toNat < 2 ^ n) (r : BitVec w) : f.get (put n i v r) = v.setWidth f.len := by
  have hfits := f.fits
  apply BitVec.eq_of_getLsbD_eq
  intro b hb
  have hin : n * i ≤ f.lsb + b ∧ f.lsb + b < n * i + n := by omega
  have hpos : f.lsb + b - n * i = b := by omega
  rw [BitField.getLsbD_get, getLsbD_put hv r (by omega), if_pos hin, hpos, BitVec.getLsbD_setWidth]

end Slots
