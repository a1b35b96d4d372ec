import McuDrivers.Lwip.Chksum

set_option autoImplicit false

/-! # lwIP: what the checksums sum

Every version computes the ones' complement sum of the bytes read as one number of base 256, wherever
they lie and however they are spread over a chain. -/

namespace Lwip

open Eth OnesSum

/-! ## Words as numbers -/

theorem toNat_foldU32T (u : Word) : (foldU32T u).toNat = fold 65536 u.toNat := by
  have hmask : u.toNat &&& 65535 = u.toNat % 65536 := Nat.and_two_pow_sub_one_eq_mod u.toNat 16
  have hlt := u.isLt
  simp only [foldU32T, BitVec.toNat_add, BitVec.toNat_ushiftRight, BitVec.toNat_and,
    BitVec.toNat_ofNat, Nat.shiftRight_eq_div_pow, fold]
  norm_num
  rw [hmask]
  omega

theorem toNat_u16Of (low high : Byte) : (u16Of low high).toNat = low.toNat + 256 * high.toNat := by
  have hlow := low.isLt
  have hhigh := high.isLt
  have hor : low.toNat ||| high.toNat <<< 8 = low.toNat + high.toNat <<< 8 := by
    rw [Nat.or_comm, Nat.add_comm]
    exact (Nat.shiftLeft_add_eq_or_of_lt hlow high.toNat).symm
  simp only [u16Of, BitVec.toNat_or, BitVec.toNat_shiftLeft, BitVec.toNat_setWidth]
  rw [Nat.mod_eq_of_lt (by omega : low.toNat < 2 ^ 16), Nat.mod_eq_of_lt (by omega : high.toNat < 2 ^ 16),
    Nat.mod_eq_of_lt (by rw [Nat.shiftLeft_eq]; omega), hor, Nat.shiftLeft_eq]
  omega

theorem toNat_u32Of (b₀ b₁ b₂ b₃ : Byte) :
    (u32Of b₀ b₁ b₂ b₃).toNat = (u16Of b₀ b₁).toNat + 65536 * (u16Of b₂ b₃).toNat := by
  have hlow := (u16Of b₀ b₁).isLt
  have hhigh := (u16Of b₂ b₃).isLt
  simp only [u32Of, BitVec.toNat_or, BitVec.toNat_shiftLeft, BitVec.toNat_setWidth]
  generalize (u16Of b₀ b₁).toNat = low at *
  generalize (u16Of b₂ b₃).toNat = high at *
  have hor : low ||| high <<< 16 = low + high <<< 16 := by
    rw [Nat.or_comm, Nat.add_comm]
    exact (Nat.shiftLeft_add_eq_or_of_lt hlow high).symm
  rw [Nat.mod_eq_of_lt (by omega : low < 2 ^ 32), Nat.mod_eq_of_lt (by omega : high < 2 ^ 32),
    Nat.mod_eq_of_lt (by rw [Nat.shiftLeft_eq]; omega), hor, Nat.shiftLeft_eq]
  omega

theorem lwipHtons_eq_u16Of (n : BitVec 16) :
    lwipHtons n = u16Of ((n >>> 8).setWidth 8) (n.setWidth 8) := by
  unfold lwipHtons u16Of
  have hhigh : (n &&& 0xff00#16) >>> 8 = ((n >>> 8).setWidth 8).setWidth 16 := by
    ext i hi
    interval_cases i <;> simp
  have hlow : n &&& 0xff#16 = (n.setWidth 8).setWidth 16 := by
    ext i hi
    interval_cases i <;> simp
  rw [hhigh, hlow, BitVec.or_comm]

theorem toNat_lwipHtons (n : BitVec 16) : (lwipHtons n).toNat = swap 256 n.toNat := by
  have hlt := n.isLt
  rw [lwipHtons_eq_u16Of, toNat_u16Of]
  simp only [BitVec.toNat_setWidth, BitVec.toNat_ushiftRight, Nat.shiftRight_eq_div_pow, swap]
  omega

theorem swapBytesInWord_eq (w : Word) :
    swapBytesInWord w = (lwipHtons (w.setWidth 16)).setWidth 32 := by
  unfold swapBytesInWord lwipHtons
  ext i hi
  interval_cases i <;> simp

theorem toNat_swapBytesInWord {w : Word} (hw : w.toNat ≤ 65535) :
    (swapBytesInWord w).toNat = swap 256 w.toNat := by
  have hlt := (lwipHtons (w.setWidth 16)).isLt
  have hmod : (w.setWidth 16).toNat = w.toNat := by
    rw [BitVec.toNat_setWidth]
    omega
  rw [swapBytesInWord_eq, BitVec.toNat_setWidth, Nat.mod_eq_of_lt (by omega), toNat_lwipHtons, hmod]

/-! ## One step of a sum -/

@[simp] theorem numberOf_nil : numberOf [] = 0 := rfl

theorem numberOf_cons (b : Byte) (data : List Byte) :
    numberOf (b :: data) = b.toNat + 256 * numberOf data := rfl

theorem numberOf_append_same (xs ys : List Byte) :
    Same 65535 (numberOf (xs ++ ys)) (numberOf xs + 256 ^ (xs.length % 2) * numberOf ys) := by
  have happend := append_same (b := 256) (by omega) (xs.map BitVec.toNat) (ys.map BitVec.toNat)
  rwa [← List.map_append, List.length_map] at happend

theorem numberOf_pair_same (low high : Byte) (rest : List Byte) :
    Same 65535 (numberOf (low :: high :: rest)) ((u16Of low high).toNat + numberOf rest) := by
  rw [toNat_u16Of]
  exact ofDigits_pair_same (b := 256) (by omega) low.toNat high.toNat (rest.map BitVec.toNat)

theorem foldU32T_same (u : Word) : Same 65535 (foldU32T u).toNat u.toNat := by
  rw [toNat_foldU32T]
  exact fold_same 65535 u.toNat

theorem foldU32T_le (u : Word) : (foldU32T u).toNat ≤ 131070 := by
  rw [toNat_foldU32T]
  exact fold_le (n := 65536) u.isLt

theorem foldU32T_le_of_le {u : Word} (hu : u.toNat ≤ 131070) : (foldU32T u).toNat ≤ 65535 := by
  rw [toNat_foldU32T]
  exact fold_le_of_le hu

theorem swapBytesInWord_same {w : Word} (hw : w.toNat ≤ 65535) :
    Same 65535 (swapBytesInWord w).toNat (256 * w.toNat) ∧ (swapBytesInWord w).toNat ≤ 65535 := by
  rw [toNat_swapBytesInWord hw]
  exact ⟨swap_same (b := 256) (by omega) w.toNat, swap_le (b := 256) (by omega) hw⟩

/-! ## The loops -/

theorem sumWords_length (data : List Byte) (sum : Word) : (sumWords data sum).2.length ≤ 1 := by
  fun_induction sumWords data sum with
  | case1 low high rest sum ih => exact ih
  | case2 rest sum hshort =>
    match rest, hshort with
    | [], _ => simp
    | [_], _ => simp
    | low :: high :: more, hshort => exact absurd rfl (hshort low high more)

theorem sumWords_spec (data : List Byte) (sum : Word)
    (hfit : sum.toNat + data.length / 2 * 65535 < 2 ^ 32) :
    Same 65535 ((sumWords data sum).1.toNat + numberOf (sumWords data sum).2)
        (sum.toNat + numberOf data)
      ∧ (sumWords data sum).1.toNat ≤ sum.toNat + data.length / 2 * 65535 := by
  fun_induction sumWords data sum with
  | case1 low high rest sum ih =>
    have hword := (u16Of low high).isLt
    have hhalf : (low :: high :: rest).length / 2 = rest.length / 2 + 1 := by
      simp only [List.length_cons]
      omega
    rw [hhalf] at hfit ⊢
    have hsum : (sum + (u16Of low high).setWidth 32).toNat
        = sum.toNat + (u16Of low high).toNat := by
      rw [BitVec.toNat_add, BitVec.toNat_setWidth]
      omega
    obtain ⟨hsame, hle⟩ := ih (by omega)
    rw [hsum] at hsame hle
    refine ⟨?_, by omega⟩
    rw [Nat.add_assoc] at hsame
    exact hsame.trans ((numberOf_pair_same low high rest).symm.add_left _)
  | case2 rest sum _ => exact ⟨Same.refl _ _, Nat.le_add_right _ _⟩

theorem leftOver_spec (high : Byte) {rest : List Byte} (hshort : rest.length ≤ 1) :
    (leftOver (u16Of 0#8 high) rest).toNat = 256 * high.toNat + numberOf rest := by
  match rest, hshort with
  | [], _ =>
    simp [leftOver, toNat_u16Of]
  | [low], _ =>
    have hword : leftOver (u16Of 0#8 high) [low] = u16Of low high := by
      unfold leftOver u16Of
      ext i hi
      interval_cases i <;> simp
    rw [hword, toNat_u16Of, numberOf_cons, numberOf_nil]
    omega

/-- What a buffer counts for by its alignment: at an odd address the words are taken with their bytes
    changed over. -/
def alignWeight (dataptr : Word) : Nat := if dataptr &&& 1#32 ≠ 0#32 then 256 else 1

theorem alignWord_spec (dataptr : Word) (data : List Byte) :
    ∃ high, (alignWord dataptr data).1 = u16Of 0#8 high
      ∧ Same 65535 (alignWeight dataptr * (256 * high.toNat + numberOf (alignWord dataptr data).2.2))
          (numberOf data)
      ∧ (alignWord dataptr data).2.2.length ≤ data.length := by
  have hzero : (0#16 : BitVec 16) = u16Of 0#8 0#8 := by decide
  cases data with
  | nil => exact ⟨0#8, hzero, by simpa [alignWord] using Same.refl _ _, Nat.le_refl _⟩
  | cons b rest =>
    simp only [alignWord, alignWeight]
    split
    · refine ⟨b, by simp [u16Of], ?_, Nat.le_succ _⟩
      rw [numberOf_cons, Nat.mul_add]
      exact (mul_mul_same (b := 256) (by omega) b.toNat).add_right _
    · refine ⟨0#8, hzero, ?_, Nat.le_refl _⟩
      rw [BitVec.toNat_zero, Nat.mul_zero, Nat.zero_add, Nat.one_mul]
      exact Same.refl _ _

theorem foldAndSwap_same (dataptr sum : Word) :
    Same 65535 (foldAndSwap dataptr sum).toNat (alignWeight dataptr * sum.toNat) := by
  have hle := foldU32T_le_of_le (foldU32T_le sum)
  have hsame := (foldU32T_same (foldU32T sum)).trans (foldU32T_same sum)
  unfold foldAndSwap alignWeight
  dsimp only
  split
  · obtain ⟨hswap, hswap_le⟩ := swapBytesInWord_same hle
    rw [BitVec.toNat_setWidth, Nat.mod_eq_of_lt (by omega)]
    exact hswap.trans (hsame.mul_left 256)
  · rw [BitVec.toNat_setWidth, Nat.mod_eq_of_lt (by omega), Nat.one_mul]
    exact hsame

/-- The end of versions 2 and 3: the words that are left, and the byte at either end. -/
theorem finish_same (dataptr sum : Word) (high : Byte) (data : List Byte)
    (hfit : sum.toNat + data.length / 2 * 65535 + 65535 < 2 ^ 32) :
    Same 65535
      (foldAndSwap dataptr ((sumWords data sum).1
        + (leftOver (u16Of 0#8 high) (sumWords data sum).2).setWidth 32)).toNat
      (alignWeight dataptr * (256 * high.toNat + (sum.toNat + numberOf data))) := by
  obtain ⟨hsame, hle⟩ := sumWords_spec data sum (by omega)
  have hleft := leftOver_spec high (sumWords_length data sum)
  have hlt := (leftOver (u16Of 0#8 high) (sumWords data sum).2).isLt
  have hadd : ((sumWords data sum).1
        + (leftOver (u16Of 0#8 high) (sumWords data sum).2).setWidth 32).toNat
      = 256 * high.toNat + ((sumWords data sum).1.toNat + numberOf (sumWords data sum).2) := by
    rw [BitVec.toNat_add, BitVec.toNat_setWidth, Nat.mod_eq_of_lt (by omega), hleft]
    rw [hleft] at hlt
    rw [Nat.mod_eq_of_lt (by omega)]
    omega
  have hfold := foldAndSwap_same dataptr ((sumWords data sum).1
    + (leftOver (u16Of 0#8 high) (sumWords data sum).2).setWidth 32)
  rw [hadd] at hfold
  exact hfold.trans ((hsame.add_left _).mul_left _)

theorem toNat_internetSum (data : List Byte) :
    (internetSum data).toNat = word 65535 (numberOf data) := by
  have hle := word_le (m := 65535) (by omega) (numberOf data)
  rw [internetSum, BitVec.toNat_ofNat]
  omega

theorem internetSum_same (data : List Byte) :
    Same 65535 (internetSum data).toNat (numberOf data) := by
  rw [toNat_internetSum]
  exact word_same 65535 (numberOf data)

theorem eq_internetSum {c : BitVec 16} {data : List Byte} (h : Same 65535 c.toNat (numberOf data)) :
    c = internetSum data := by
  have hlt := c.isLt
  refine BitVec.eq_of_toNat_eq ?_
  rw [toNat_internetSum]
  exact h.eq_word (by omega)

/-- Version 2, up to the length its comment gives. -/
theorem lwipStandardChksum_eq (dataptr : Word) {data : List Byte} (hlen : data.length ≤ 0x20000) :
    lwipStandardChksum dataptr data = internetSum data := by
  obtain ⟨high, ht, halign, hle⟩ := alignWord_spec dataptr data
  have hfinish := finish_same dataptr 0#32 high (alignWord dataptr data).2.2
    (by rw [BitVec.toNat_ofNat]; omega)
  rw [BitVec.toNat_zero, Nat.zero_add] at hfinish
  refine eq_internetSum ?_
  simp only [lwipStandardChksum, ht]
  exact hfinish.trans halign

/-! ## The other versions -/

theorem toNat_octets (first second : Byte) :
    ((first.setWidth 16 <<< 8) ||| second.setWidth 16).toNat = second.toNat + 256 * first.toNat := by
  rw [BitVec.or_comm]
  exact toNat_u16Of second first

theorem sumOctets_spec (data : List Byte) (acc : Word)
    (hfit : acc.toNat + (data.length + 1) / 2 * 65535 < 2 ^ 32) :
    Same 65535 (sumOctets data acc).toNat (acc.toNat + 256 * numberOf data) := by
  fun_induction sumOctets data acc with
  | case1 first second rest acc ih =>
    have hlt := ((first.setWidth 16 <<< 8) ||| second.setWidth 16).isLt
    have hoctets := toNat_octets first second
    have hhalf : ((first :: second :: rest).length + 1) / 2 = (rest.length + 1) / 2 + 1 := by
      simp only [List.length_cons]
      omega
    rw [hhalf] at hfit
    have hacc : (acc + ((first.setWidth 16 <<< 8) ||| second.setWidth 16).setWidth 32).toNat
        = acc.toNat + (second.toNat + 256 * first.toNat) := by
      rw [BitVec.toNat_add, BitVec.toNat_setWidth]
      omega
    have hstep := ih (by omega)
    rw [hacc, Nat.add_assoc] at hstep
    refine hstep.trans (Same.add_left _ ?_)
    have hread : 256 * numberOf (first :: second :: rest)
        = 256 * first.toNat + 256 * (256 * (second.toNat + 256 * numberOf rest)) := by
      rw [numberOf_cons, numberOf_cons]
      ring
    rw [hread]
    have hpair := mul_mul_same (b := 256) (by omega) (second.toNat + 256 * numberOf rest)
    refine Same.trans ?_ (hpair.symm.add_left (256 * first.toNat))
    rw [← Nat.add_assoc, Nat.add_comm (256 * first.toNat)]
    exact Same.refl _ _
  | case2 octet acc =>
    have hoctet := toNat_octets octet 0#8
    rw [BitVec.setWidth_zero, BitVec.or_zero] at hoctet
    have hlt := (octet.setWidth 16 <<< 8).isLt
    have hacc : (acc + (octet.setWidth 16 <<< 8).setWidth 32).toNat
        = acc.toNat + 256 * octet.toNat := by
      rw [BitVec.toNat_add, BitVec.toNat_setWidth, hoctet] at *
      simp at hfit hoctet ⊢
      omega
    rw [hacc, numberOf_cons, numberOf_nil]
    exact Same.refl _ _
  | case3 acc => exact Same.refl _ _

theorem addBackCarry_same (sum long : Word) :
    Same (2 ^ 32 - 1) (addBackCarry sum long).toNat (sum.toNat + long.toNat) := by
  have hsum := sum.isLt
  have hlong := long.isLt
  have hcarry := addCarry_same (m := 2 ^ 32 - 1) (x := sum.toNat) (y := long.toNat)
    (by omega) (by omega)
  have hle := addCarry_le (m := 2 ^ 32 - 1) (x := sum.toNat) (by omega) long.toNat
  have hnat : (addBackCarry sum long).toNat = addCarry (2 ^ 32 - 1) sum.toNat long.toNat := by
    have htop : 2 ^ 32 - 1 + 1 = 2 ^ 32 := rfl
    unfold addCarry at hle ⊢
    rw [htop] at hle ⊢
    simp only [addBackCarry, BitVec.lt_def, BitVec.toNat_add]
    split at hle
    case isTrue h =>
      rw [if_pos h, if_pos h, BitVec.toNat_add, BitVec.toNat_add, BitVec.toNat_ofNat]
      omega
    case isFalse h =>
      rw [if_neg h, if_neg h, BitVec.toNat_add]
  rw [hnat]
  exact hcarry

theorem alignLong_spec (ps : Word) (data : List Byte) :
    Same 65535 ((alignLong ps data).1.toNat + numberOf (alignLong ps data).2) (numberOf data) := by
  unfold alignLong
  split
  case h_1 low high rest =>
    split
    · rw [BitVec.toNat_setWidth, Nat.mod_eq_of_lt (by omega)]
      exact (numberOf_pair_same low high rest).symm
    · rw [BitVec.toNat_zero, Nat.zero_add]
      exact Same.refl _ _
  case h_2 =>
    rw [BitVec.toNat_zero, Nat.zero_add]
    exact Same.refl _ _

theorem sumLongs_length (data : List Byte) (sum : Word) : (sumLongs data sum).2.length ≤ 7 := by
  fun_induction sumLongs data sum with
  | case1 b₀ b₁ b₂ b₃ b₄ b₅ b₆ b₇ rest sum tmp ih => exact ih
  | case2 rest sum hshort =>
    match rest, hshort with
    | [], _ | [_], _ | [_, _], _ | [_, _, _], _ | [_, _, _, _], _ | [_, _, _, _, _], _
    | [_, _, _, _, _, _], _ | [_, _, _, _, _, _, _], _ => simp
    | b₀ :: b₁ :: b₂ :: b₃ :: b₄ :: b₅ :: b₆ :: b₇ :: more, hshort =>
      exact absurd rfl (hshort b₀ b₁ b₂ b₃ b₄ b₅ b₆ b₇ more)

/-- A long counts for its two words. -/
theorem numberOf_long_same (b₀ b₁ b₂ b₃ : Byte) (rest : List Byte) :
    Same 65535 (numberOf (b₀ :: b₁ :: b₂ :: b₃ :: rest))
      ((u32Of b₀ b₁ b₂ b₃).toNat + numberOf rest) := by
  have hfirst := numberOf_pair_same b₀ b₁ (b₂ :: b₃ :: rest)
  have hsecond := numberOf_pair_same b₂ b₃ rest
  have hlong : Same 65535 (u32Of b₀ b₁ b₂ b₃).toNat
      ((u16Of b₀ b₁).toNat + (u16Of b₂ b₃).toNat) := by
    rw [toNat_u32Of]
    exact (Same.carry_mul 65535 _).add_left _
  refine hfirst.trans ((hsecond.add_left _).trans ?_)
  rw [← Nat.add_assoc]
  exact hlong.symm.add_right _

theorem sumLongs_same (data : List Byte) (sum : Word) :
    Same 65535 ((sumLongs data sum).1.toNat + numberOf (sumLongs data sum).2)
      (sum.toNat + numberOf data) := by
  have hdvd : 65535 ∣ 2 ^ 32 - 1 := by decide
  fun_induction sumLongs data sum with
  | case1 b₀ b₁ b₂ b₃ b₄ b₅ b₆ b₇ rest sum tmp ih =>
    have hping := (addBackCarry_same sum (u32Of b₀ b₁ b₂ b₃)).of_dvd hdvd
    have hpong := (addBackCarry_same tmp (u32Of b₄ b₅ b₆ b₇)).of_dvd hdvd
    have hfirst := numberOf_long_same b₀ b₁ b₂ b₃ (b₄ :: b₅ :: b₆ :: b₇ :: rest)
    have hsecond := numberOf_long_same b₄ b₅ b₆ b₇ rest
    refine ih.trans ((hpong.add_right _).trans ?_)
    rw [Nat.add_assoc]
    refine (hping.add hsecond.symm).trans ?_
    rw [Nat.add_assoc]
    exact hfirst.symm.add_left _
  | case2 rest sum _ => exact Same.refl _ _

/-- Version 3, at any length. -/
theorem lwipStandardChksum3_eq (dataptr : Word) (data : List Byte) :
    lwipStandardChksum3 dataptr data = internetSum data := by
  obtain ⟨high, ht, halign, _⟩ := alignWord_spec dataptr data
  have hlong := alignLong_spec (alignWord dataptr data).2.1 (alignWord dataptr data).2.2
  generalize hr : alignLong (alignWord dataptr data).2.1 (alignWord dataptr data).2.2 = r at hlong
  have hlongs := sumLongs_same r.2 r.1
  have hlength := sumLongs_length r.2 r.1
  generalize hs : sumLongs r.2 r.1 = s at hlongs hlength
  have hfold := foldU32T_same s.1
  have hfold_le := foldU32T_le s.1
  have hfinish := finish_same dataptr (foldU32T s.1) high s.2 (by omega)
  refine eq_internetSum ?_
  simp only [lwipStandardChksum3, ht, hr, hs]
  refine hfinish.trans (Same.trans (Same.mul_left _ (Same.add_left _ ?_)) halign)
  exact (hfold.add_right _).trans (hlongs.trans hlong)

/-- Version 1, which sums big-endian words and changes the bytes of the result over. -/
theorem lwipStandardChksum1_eq {data : List Byte} (hlen : data.length ≤ 0x20000) :
    lwipStandardChksum1 data = internetSum data := by
  have hsum := sumOctets_spec data 0#32 (by rw [BitVec.toNat_ofNat]; omega)
  rw [BitVec.toNat_zero, Nat.zero_add] at hsum
  have hfold := (foldU32T_same (sumOctets data 0#32)).trans hsum
  have hfold_le := foldU32T_le (sumOctets data 0#32)
  unfold lwipStandardChksum1
  generalize foldU32T (sumOctets data 0#32) = acc at *
  have hsecond : Same 65535
        (if acc &&& 0xffff0000#32 ≠ 0#32 then foldU32T acc else acc).toNat (256 * numberOf data)
      ∧ (if acc &&& 0xffff0000#32 ≠ 0#32 then foldU32T acc else acc).toNat ≤ 65535 := by
    split
    · exact ⟨(foldU32T_same acc).trans hfold, foldU32T_le_of_le hfold_le⟩
    case isFalse h =>
      have hmask : acc >>> 16 = (acc &&& 0xffff0000#32) >>> 16 := by
        ext i hi
        interval_cases i <;> simp
      rw [not_not.mp h] at hmask
      have hhigh := congrArg BitVec.toNat hmask
      rw [BitVec.toNat_ushiftRight, Nat.shiftRight_eq_div_pow] at hhigh
      exact ⟨hfold, by simp at hhigh; omega⟩
  obtain ⟨hsame, hle⟩ := hsecond
  refine eq_internetSum ?_
  dsimp only
  rw [toNat_lwipHtons, BitVec.toNat_setWidth, Nat.mod_eq_of_lt (by omega)]
  exact (swap_same (b := 256) (by omega) _).trans
    ((hsame.mul_left 256).trans (mul_mul_same (b := 256) (by omega) _))

/-- The three versions of the sum agree, wherever the bytes lie: it is the ones' complement sum of
    the bytes read as one number. -/
theorem lwip_standard_chksum_versions (dataptr dataptr' : Word) (data : List Byte)
    (hlen : data.length ≤ 0x20000) :
    lwipStandardChksum1 data = internetSum data
      ∧ lwipStandardChksum dataptr data = internetSum data
      ∧ lwipStandardChksum3 dataptr' data = internetSum data :=
  ⟨lwipStandardChksum1_eq hlen, lwipStandardChksum_eq dataptr hlen, lwipStandardChksum3_eq dataptr' data⟩

theorem lwip_standard_chksum_versions_odd :
    lwipStandardChksum1 [0x12#8, 0x34#8, 0xff#8] = internetSum [0x12#8, 0x34#8, 0xff#8]
      ∧ lwipStandardChksum 0x20000001#32 [0x12#8, 0x34#8, 0xff#8] = internetSum [0x12#8, 0x34#8, 0xff#8]
      ∧ lwipStandardChksum3 0x20000002#32 [0x12#8, 0x34#8, 0xff#8]
        = internetSum [0x12#8, 0x34#8, 0xff#8] :=
  lwip_standard_chksum_versions _ _ _ (by decide)

end Lwip
