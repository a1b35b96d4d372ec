import Mathlib.Data.BitVec
import Mathlib.Logic.Function.Basic

set_option autoImplicit false

/-! # Byte memory and arrays of objects

A memory is a map from addresses of `w` bits to bytes. `readBytes` and `writeBytes` move lists of
bytes from and to consecutive addresses, which wrap around like the pointers of the machine do.

`Region w size count` is an array of `count` objects of `size` bytes each, placed so that it does
not wrap: `slot i` is the address of its `i`-th object and `byte i j` that of byte `j` of it. The
lemmas say that these addresses are pairwise different, inside one region and across disjoint ones,
so that no proof has to reason about wrapping sums again. -/

variable {w : Nat}

/-! ## Reading and writing -/

/-- The bytes from an address on. -/
def readBytes (ram : BitVec w → BitVec 8) (addr : BitVec w) (len : Nat) : List (BitVec 8) :=
  (List.range len).map fun j => ram (addr + BitVec.ofNat w j)

/-- Stores bytes from an address on. -/
def writeBytes (ram : BitVec w → BitVec 8) (addr : BitVec w) (bytes : List (BitVec 8)) :
    BitVec w → BitVec 8 :=
  fun a => (bytes[(a - addr).toNat]?).getD (ram a)

@[simp] theorem readBytes_length (ram : BitVec w → BitVec 8) (addr : BitVec w) (len : Nat) :
    (readBytes ram addr len).length = len := by
  simp [readBytes]

theorem readBytes_congr {ram ram' : BitVec w → BitVec 8} {addr : BitVec w} {len : Nat}
    (h : ∀ j, j < len → ram (addr + BitVec.ofNat w j) = ram' (addr + BitVec.ofNat w j)) :
    readBytes ram addr len = readBytes ram' addr len := by
  refine List.map_congr_left fun j hj => h j ?_
  simpa using hj

theorem readBytes_succ (ram : BitVec w → BitVec 8) (addr : BitVec w) (len : Nat) :
    readBytes ram addr (len + 1) = readBytes ram addr len ++ [ram (addr + BitVec.ofNat w len)] := by
  simp [readBytes, List.range_succ]

theorem sub_toNat {addr : BitVec w} {j : Nat} (hj : j < 2 ^ w) :
    (addr + BitVec.ofNat w j - addr).toNat = j := by
  rw [BitVec.add_comm, BitVec.add_sub_cancel, BitVec.toNat_ofNat, Nat.mod_eq_of_lt hj]

/-- What was written is read back. -/
theorem readBytes_writeBytes (ram : BitVec w → BitVec 8) (addr : BitVec w)
    (bytes : List (BitVec 8)) (h : bytes.length ≤ 2 ^ w) :
    readBytes (writeBytes ram addr bytes) addr bytes.length = bytes := by
  refine List.ext_getElem (by simp) fun j hj hj' => ?_
  simp only [readBytes, writeBytes, List.getElem_map, List.getElem_range,
    sub_toNat (show j < 2 ^ w by omega), List.getElem?_eq_getElem hj', Option.getD_some]

/-- An address that no written byte has keeps its content. -/
theorem writeBytes_other (ram : BitVec w → BitVec 8) {addr a : BitVec w}
    {bytes : List (BitVec 8)} (h : ∀ j, j < bytes.length → a ≠ addr + BitVec.ofNat w j) :
    writeBytes ram addr bytes a = ram a := by
  by_cases hj : (a - addr).toNat < bytes.length
  · refine absurd ?_ (h _ hj)
    rw [BitVec.ofNat_toNat, BitVec.setWidth_eq, BitVec.add_comm, BitVec.sub_add_cancel]
  · simp only [writeBytes, List.getElem?_eq_none (Nat.le_of_not_lt hj), Option.getD_none]

/-! ## Consecutive addresses -/

/-- The addresses of the bytes from an address on. -/
def byteAddrs (addr : BitVec w) (len : Nat) : List (BitVec w) :=
  (List.range len).map fun j => addr + BitVec.ofNat w j

@[simp] theorem byteAddrs_zero (addr : BitVec w) : byteAddrs addr 0 = [] := rfl

theorem byteAddrs_succ (addr : BitVec w) (len : Nat) :
    byteAddrs addr (len + 1) = byteAddrs addr len ++ [addr + BitVec.ofNat w len] := by
  simp [byteAddrs, List.range_succ]

/-- Consecutive bytes lie in the `size` bytes from `base` on exactly if they begin and end there. -/
theorem byteAddrs_within {base addr : BitVec w} {len size : Nat} (h : size + len ≤ 2 ^ w) :
    (∀ a ∈ byteAddrs addr len, (a - base).toNat < size) ↔
      len = 0 ∨ (addr - base).toNat + len ≤ size := by
  have hdist : ∀ j, (addr + BitVec.ofNat w j - base).toNat = ((addr - base).toNat + j) % 2 ^ w := by
    intro j
    have hcomm : addr + BitVec.ofNat w j - base = (addr - base) + BitVec.ofNat w j := by
      simp only [BitVec.sub_eq_add_neg, BitVec.add_assoc, BitVec.add_comm (BitVec.ofNat w j)]
    rw [hcomm, BitVec.toNat_add, BitVec.toNat_ofNat, Nat.add_mod_mod]
  have hall : (∀ a ∈ byteAddrs addr len, (a - base).toNat < size) ↔
      ∀ j, j < len → ((addr - base).toNat + j) % 2 ^ w < size := by
    simp only [byteAddrs, List.forall_mem_map, List.mem_range, hdist]
  rw [hall]
  constructor
  · intro hin
    rcases Nat.eq_zero_or_pos len with hzero | hpos
    · exact .inl hzero
    · have hfirst := hin 0 hpos
      have hlast := hin (len - 1) (by omega)
      rw [Nat.add_zero, Nat.mod_eq_of_lt (addr - base).isLt] at hfirst
      rw [Nat.mod_eq_of_lt (by omega)] at hlast
      exact .inr (by omega)
  · rintro (rfl | hle) j hj
    · exact absurd hj (Nat.not_lt_zero j)
    · rw [Nat.mod_eq_of_lt (by omega)]
      omega

/-! ## Arrays of objects -/

structure Region (w size count : Nat) where
  base : BitVec w
  fits : base.toNat + size * count ≤ 2 ^ w

namespace Region

variable {size count size' count' : Nat} (r : Region w size count)

/-- The address of the `i`-th object: `base + i`, counted in objects. -/
def slot (i : Nat) : BitVec w := r.base + BitVec.ofNat w (size * i)

/-- The address of byte `j` of the `i`-th object. -/
def byte (i j : Nat) : BitVec w := r.slot i + BitVec.ofNat w j

@[simp] theorem slot_zero : r.slot 0 = r.base := by simp [slot]

@[simp] theorem byte_zero (i : Nat) : r.byte i 0 = r.slot i := by simp [byte]

theorem toNat_byte {i j : Nat} (hi : i < count) (hj : j < size) :
    (r.byte i j).toNat = r.base.toNat + size * i + j := by
  have hfits := r.fits
  have hmul : size * i + size ≤ size * count := by
    rw [← Nat.mul_succ]
    exact Nat.mul_le_mul_left _ hi
  rw [byte, slot, BitVec.toNat_add, BitVec.toNat_add, BitVec.toNat_ofNat, BitVec.toNat_ofNat,
    Nat.mod_eq_of_lt (a := size * i) (by omega), Nat.mod_eq_of_lt (a := j) (by omega),
    Nat.mod_eq_of_lt (a := r.base.toNat + size * i) (by omega), Nat.mod_eq_of_lt (by omega)]

theorem byte_inj {i j i' j' : Nat} (hi : i < count) (hj : j < size) (hi' : i' < count)
    (hj' : j' < size) : r.byte i j = r.byte i' j' ↔ i = i' ∧ j = j' := by
  refine ⟨fun h => ?_, fun ⟨hi, hj⟩ => by rw [hi, hj]⟩
  have hn := congrArg BitVec.toNat h
  rw [r.toNat_byte hi hj, r.toNat_byte hi' hj'] at hn
  -- The two are quotient and remainder of one number.
  have heq : size * i + j = size * i' + j' := by omega
  have hsize : 0 < size := by omega
  have hdiv : (size * i + j) / size = i := by
    rw [Nat.mul_add_div hsize, Nat.div_eq_of_lt hj, Nat.add_zero]
  have hdiv' : (size * i' + j') / size = i' := by
    rw [Nat.mul_add_div hsize, Nat.div_eq_of_lt hj', Nat.add_zero]
  have hii : i = i' := by rw [← hdiv, heq, hdiv']
  refine ⟨hii, ?_⟩
  rw [hii] at heq
  omega

theorem slot_inj (hsize : 0 < size) {i i' : Nat} (hi : i < count) (hi' : i' < count) :
    r.slot i = r.slot i' ↔ i = i' := by
  have h : r.byte i 0 = r.byte i' 0 ↔ i = i' ∧ 0 = 0 := r.byte_inj hi hsize hi' hsize
  simpa using h

/-- An object of a region that does not begin at address 0 is not at address 0. -/
theorem slot_ne_zero (hbase : r.base ≠ 0) (hsize : 0 < size) {i : Nat} (hi : i < count) :
    r.slot i ≠ 0 := by
  intro h
  have hn := r.toNat_byte hi hsize
  rw [byte_zero, h] at hn
  refine hbase (BitVec.eq_of_toNat_eq ?_)
  simp only [BitVec.ofNat_eq_ofNat, BitVec.toNat_ofNat, Nat.zero_mod] at hn ⊢
  omega

theorem slot_succ (i : Nat) : r.slot (i + 1) = r.slot i + BitVec.ofNat w size := by
  rw [slot, slot, Nat.mul_succ, BitVec.ofNat_add, BitVec.add_assoc]

/-- One of the two regions ends before the other begins. -/
def Disjoint (r : Region w size count) (r' : Region w size' count') : Prop :=
  r.base.toNat + size * count ≤ r'.base.toNat ∨ r'.base.toNat + size' * count' ≤ r.base.toNat

instance (r : Region w size count) (r' : Region w size' count') : Decidable (r.Disjoint r') :=
  inferInstanceAs (Decidable (_ ∨ _))

variable {r} {r' : Region w size' count'}

theorem Disjoint.symm (h : r.Disjoint r') : r'.Disjoint r := Or.symm h

theorem Disjoint.byte_ne (h : r.Disjoint r') {i j i' j' : Nat} (hi : i < count) (hj : j < size)
    (hi' : i' < count') (hj' : j' < size') : r.byte i j ≠ r'.byte i' j' := by
  intro heq
  have hn := congrArg BitVec.toNat heq
  rw [r.toNat_byte hi hj, r'.toNat_byte hi' hj'] at hn
  have hmul : size * i + size ≤ size * count := by
    rw [← Nat.mul_succ]
    exact Nat.mul_le_mul_left _ hi
  have hmul' : size' * i' + size' ≤ size' * count' := by
    rw [← Nat.mul_succ]
    exact Nat.mul_le_mul_left _ hi'
  rcases h with h | h <;> omega

theorem Disjoint.slot_ne (h : r.Disjoint r') (hsize : 0 < size) (hsize' : 0 < size') {i i' : Nat}
    (hi : i < count) (hi' : i' < count') : r.slot i ≠ r'.slot i' := by
  have hne := h.byte_ne hi hsize hi' hsize'
  simpa using hne

end Region
