import Mathlib.Data.Nat.Digits.Lemmas
import Mathlib.Tactic.Ring

set_option autoImplicit false

/-! # Ones' complement sums

Arithmetic in which a carry out of the word comes back in at its low end. Modulo `m`, the largest
word, nothing changes then, and a sum is 0 only when all that was added is 0: two numbers are the same
sum when both hold, and a word is the only one of its class. -/

namespace OnesSum

variable {m n x y z x' y' : Nat}

/-- The two numbers are the same sum. -/
def Same (m x y : Nat) : Prop := x ≡ y [MOD m] ∧ (x = 0 ↔ y = 0)

/-- The word for the sum `x`. -/
def word (m x : Nat) : Nat := if x = 0 then 0 else (x - 1) % m + 1

namespace Same

theorem refl (m x : Nat) : Same m x x := ⟨Nat.ModEq.refl x, Iff.rfl⟩

theorem symm (h : Same m x y) : Same m y x := ⟨h.1.symm, h.2.symm⟩

theorem trans (h : Same m x y) (h' : Same m y z) : Same m x z :=
  ⟨h.1.trans h'.1, h.2.trans h'.2⟩

instance : Trans (Same m) (Same m) (Same m) := ⟨trans⟩

theorem add (h : Same m x y) (h' : Same m x' y') : Same m (x + x') (y + y') := by
  refine ⟨h.1.add h'.1, ?_⟩
  rw [Nat.add_eq_zero_iff, Nat.add_eq_zero_iff, h.2, h'.2]

theorem add_left (k : Nat) (h : Same m x y) : Same m (k + x) (k + y) := (refl m k).add h

theorem add_right (k : Nat) (h : Same m x y) : Same m (x + k) (y + k) := h.add (refl m k)

theorem mul_left (k : Nat) (h : Same m x y) : Same m (k * x) (k * y) := by
  refine ⟨h.1.mul_left k, ?_⟩
  rw [Nat.mul_eq_zero, Nat.mul_eq_zero, h.2]

theorem of_dvd (h : Same n x y) (hmn : m ∣ n) : Same m x y := ⟨h.1.of_dvd hmn, h.2⟩

/-- A carry out of the word counts as 1. -/
theorem carry (m x y : Nat) : Same m ((m + 1) * x + y) (x + y) := by
  refine ⟨?_, ?_⟩
  · have hsum : (m + 1) * x + y = m * x + (x + y) := by ring
    rw [Nat.ModEq, hsum, Nat.mul_add_mod]
  · rw [Nat.add_eq_zero_iff, Nat.mul_eq_zero]
    omega

theorem carry_mul (m x : Nat) : Same m ((m + 1) * x) x := carry m x 0

/-- Of two words that are the same sum, one is the other. -/
theorem eq_of_le (h : Same m x y) (hx : x ≤ m) (hy : y ≤ m) : x = y := by
  obtain ⟨hmod, hzero⟩ := h
  rcases Nat.lt_or_eq_of_le hx with hlt | rfl
  · rcases Nat.lt_or_eq_of_le hy with hlt' | rfl
    · exact hmod.eq_of_lt_of_lt hlt hlt'
    · have hxz : x = 0 := by simpa [Nat.ModEq, Nat.mod_eq_of_lt hlt] using hmod
      exact hxz.trans (hzero.mp hxz).symm
  · rcases Nat.lt_or_eq_of_le hy with hlt' | rfl
    · have hyz : y = 0 := by simpa [Nat.ModEq, Nat.mod_eq_of_lt hlt'] using hmod.symm
      exact (hzero.mpr hyz).trans hyz.symm
    · rfl

end Same

theorem word_le (hm : 0 < m) (x : Nat) : word m x ≤ m := by
  unfold word
  split
  · exact Nat.zero_le m
  · exact Nat.mod_lt _ hm

theorem word_same (m x : Nat) : Same m (word m x) x := by
  unfold word
  split
  case isTrue h =>
    subst h
    exact Same.refl m 0
  case isFalse h =>
    have hmod : (x - 1) % m + 1 ≡ x - 1 + 1 [MOD m] := (Nat.mod_modEq _ _).add_right 1
    rw [Nat.sub_add_cancel (Nat.pos_of_ne_zero h)] at hmod
    exact ⟨hmod, by simp [h]⟩

/-- What is below the modulus or equal to it, and the same sum as `x`, is the word for `x`. -/
theorem Same.eq_word (h : Same m y x) (hy : y ≤ m) : y = word m x := by
  rcases Nat.eq_zero_or_pos m with rfl | hm
  · have hyz : y = 0 := Nat.le_zero.mp hy
    have hxz := h.2.mp hyz
    rw [hyz, hxz]
    rfl
  · exact (h.trans (word_same m x).symm).eq_of_le hy (word_le hm x)

theorem Same.word_eq (h : Same m x y) : word m x = word m y := by
  rcases Nat.eq_zero_or_pos m with rfl | hm
  · have hxy : x = y := by simpa [Nat.ModEq] using h.1
    rw [hxy]
  · exact ((word_same m x).trans h).eq_word (word_le hm x)

/-! ## Folding and adding -/

/-- The digits of base `b` above the lowest, added to the lowest. -/
def fold (b x : Nat) : Nat := x / b + x % b

theorem fold_same (m x : Nat) : Same m (fold (m + 1) x) x := by
  have hcarry := Same.carry m (x / (m + 1)) (x % (m + 1))
  rw [Nat.div_add_mod] at hcarry
  exact hcarry.symm

theorem fold_le (hx : x < (m + 1) * n) : fold (m + 1) x ≤ m + (n - 1) := by
  have hhigh : x / (m + 1) < n := Nat.div_lt_of_lt_mul hx
  have hlow : x % (m + 1) < m + 1 := Nat.mod_lt _ (Nat.succ_pos m)
  unfold fold
  omega

/-- What is twice the largest word at most is a word when folded. -/
theorem fold_le_of_le (hx : x ≤ 2 * m) : fold (m + 1) x ≤ m := by
  unfold fold
  rcases Nat.lt_or_ge x (m + 1) with hlt | hge
  · rw [Nat.div_eq_of_lt hlt, Nat.mod_eq_of_lt hlt]
    omega
  · have hone : x / (m + 1) = 1 := Nat.div_eq_of_lt_le (by omega) (by omega)
    have hsplit := Nat.div_add_mod x (m + 1)
    rw [hone] at hsplit ⊢
    omega

/-- A word added to the word `x`, and then the carry, which shows in that the sum is below `x`. -/
def addCarry (m x y : Nat) : Nat :=
  if (x + y) % (m + 1) < x then (x + y) % (m + 1) + 1 else (x + y) % (m + 1)

theorem addCarry_same (hx : x ≤ m) (hy : y ≤ m) : Same m (addCarry m x y) (x + y) := by
  unfold addCarry
  rcases Nat.lt_or_ge (x + y) (m + 1) with hlt | hge
  · rw [Nat.mod_eq_of_lt hlt, if_neg (by omega)]
    exact Same.refl m _
  · have hmod : (x + y) % (m + 1) = x + y - (m + 1) := by
      rw [Nat.mod_eq_sub_mod hge, Nat.mod_eq_of_lt (by omega)]
    rw [hmod, if_pos (by omega)]
    have hcarry := Same.carry m 1 (x + y - (m + 1))
    rw [Nat.mul_one, Nat.add_sub_cancel' hge, Nat.add_comm 1] at hcarry
    exact hcarry.symm

theorem addCarry_le (hx : x ≤ m) (y : Nat) : addCarry m x y ≤ m := by
  unfold addCarry
  have hlt : (x + y) % (m + 1) < m + 1 := Nat.mod_lt _ (Nat.succ_pos m)
  split
  · omega
  · omega

/-! ## Words of two digits -/

section Digits

variable {b : Nat}

/-- The largest word of two digits. -/
def top (b : Nat) : Nat := b * b - 1

theorem top_add_one (hb : 0 < b) : top b + 1 = b * b :=
  Nat.sub_add_cancel (Nat.mul_pos hb hb)

/-- The digits of a word, changed over. -/
def swap (b x : Nat) : Nat := x % b * b + x / b

theorem swap_same (hb : 0 < b) (x : Nat) : Same (top b) (swap b x) (b * x) := by
  have hcarry := Same.carry (top b) (x / b) (b * (x % b))
  have hsplit : (top b + 1) * (x / b) + b * (x % b) = b * x := by
    rw [top_add_one hb, Nat.mul_assoc, ← Nat.mul_add, Nat.div_add_mod]
  rw [hsplit, Nat.add_comm, Nat.mul_comm b (x % b)] at hcarry
  exact hcarry.symm

theorem swap_le (hb : 0 < b) (hx : x ≤ top b) : swap b x ≤ top b := by
  have htop := top_add_one hb
  have hdigit : x / b < b := Nat.div_lt_of_lt_mul (by omega)
  have hlow : x % b + 1 ≤ b := Nat.mod_lt _ hb
  have hmul : (x % b + 1) * b ≤ b * b := Nat.mul_le_mul_right b hlow
  rw [Nat.add_mul, Nat.one_mul] at hmul
  unfold swap
  omega

theorem mul_mul_same (hb : 0 < b) (x : Nat) : Same (top b) (b * (b * x)) x := by
  have hcarry := Same.carry (top b) x 0
  rwa [top_add_one hb, Nat.add_zero, Nat.add_zero, Nat.mul_assoc] at hcarry

/-- Of the power that a digit stands at, only whether it is odd counts. -/
theorem pow_mul_same (hb : 0 < b) (k x : Nat) : Same (top b) (b ^ k * x) (b ^ (k % 2) * x) := by
  induction k using Nat.twoStepInduction with
  | zero => exact Same.refl _ _
  | one => exact Same.refl _ _
  | more k ih _ =>
    have hpow : b ^ (k + 2) * x = b * (b * (b ^ k * x)) := by ring
    rw [hpow, Nat.add_mod_right]
    exact (mul_mul_same hb _).trans ih

/-- Two digits of a number make one word of the sum. -/
theorem ofDigits_pair_same (hb : 0 < b) (low high : Nat) (rest : List Nat) :
    Same (top b) (Nat.ofDigits b (low :: high :: rest))
      (low + b * high + Nat.ofDigits b rest) := by
  have hread : Nat.ofDigits b (low :: high :: rest)
      = low + b * high + b * (b * Nat.ofDigits b rest) := by
    rw [Nat.ofDigits_cons, Nat.ofDigits_cons]
    ring
  rw [hread]
  exact (mul_mul_same hb _).add_left _

/-- The digits of `ys` stand where `xs` ends: at the other places of a word after an odd number. -/
theorem append_same (hb : 0 < b) (xs ys : List Nat) :
    Same (top b) (Nat.ofDigits b (xs ++ ys))
      (Nat.ofDigits b xs + b ^ (xs.length % 2) * Nat.ofDigits b ys) := by
  rw [Nat.ofDigits_append]
  exact (pow_mul_same hb _ _).add_left _

end Digits

/-! ## Checks -/

/-- The sum of a message is the largest word when it is a multiple of it and the message is not all
    zeros. -/
theorem word_eq_top_iff (hm : 0 < m) : word m x = m ↔ x ≡ 0 [MOD m] ∧ x ≠ 0 := by
  have hself := word_same m x
  constructor
  · intro h
    rw [h] at hself
    refine ⟨hself.1.symm.trans (by simp [Nat.ModEq]), fun hx => ?_⟩
    exact Nat.ne_of_gt hm (hself.2.mpr hx)
  · rintro ⟨hmod, hne⟩
    refine (Same.eq_word ⟨?_, ?_⟩ (Nat.le_refl m)).symm
    · exact (show m ≡ 0 [MOD m] by simp [Nat.ModEq]).trans hmod.symm
    · omega

end OnesSum
