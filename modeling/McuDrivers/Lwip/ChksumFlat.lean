import McuDrivers.Lwip.ChksumSum

set_option autoImplicit false

/-! # lwIP: checksums of chains

A payload that starts at an odd place of the data has its bytes in the other halves of the words. The
loops over a chain keep their sum changed over from there to the next odd length, so that the sum is
that of the flat data. -/

namespace Lwip

open Eth OnesSum

/-- What the sum so far counts for: a swapped one is 256 times the sum. -/
def swapWeight (swapped : Bool) : Nat := if swapped then 256 else 1

theorem unswap_spec {acc : Word} (swapped : Bool) (hacc : acc.toNat ≤ 65535) :
    Same 65535 (unswap (acc, swapped)).toNat (swapWeight swapped * acc.toNat)
      ∧ (unswap (acc, swapped)).toNat ≤ 65535 := by
  cases swapped with
  | true => exact swapBytesInWord_same hacc
  | false =>
    rw [swapWeight, if_neg (by simp), Nat.one_mul]
    exact ⟨Same.refl _ _, hacc⟩

/-- A payload added to the sum, and the fold after it. -/
theorem addPart_spec {acc : Word} (payload : Word) {bytes : List Byte} (hacc : acc.toNat ≤ 65535)
    (hlen : bytes.length < 2 ^ 16) :
    Same 65535 (foldU32T (acc + (lwipStandardChksum payload bytes).setWidth 32)).toNat
        (acc.toNat + numberOf bytes)
      ∧ (foldU32T (acc + (lwipStandardChksum payload bytes).setWidth 32)).toNat ≤ 65535 := by
  rw [lwipStandardChksum_eq payload (by omega)]
  have hlt := (internetSum bytes).isLt
  have hadd : (acc + (internetSum bytes).setWidth 32).toNat
      = acc.toNat + (internetSum bytes).toNat := by
    rw [BitVec.toNat_add, BitVec.toNat_setWidth]
    omega
  refine ⟨(foldU32T_same _).trans ?_, foldU32T_le_of_le (by omega)⟩
  rw [hadd]
  exact (internetSum_same bytes).add_left _

/-- The weight of what follows a payload of odd length changes, and the swap of the sum with it. -/
theorem swapWeight_step {len acc sum data rest : Nat} (swapped : Bool)
    (hsum : Same 65535 acc (sum + data)) :
    Same 65535
      (if len % 2 ≠ 0 then swapWeight (!swapped) * (256 * acc + rest)
        else swapWeight swapped * (acc + rest))
      (swapWeight swapped * (sum + (data + 256 ^ (len % 2) * rest))) := by
  rcases Nat.mod_two_eq_zero_or_one len with heven | hodd
  · rw [heven, if_neg (by omega), Nat.pow_zero, Nat.one_mul, ← Nat.add_assoc]
    exact (hsum.add_right rest).mul_left _
  · rw [hodd, if_pos (by omega), Nat.pow_one, ← Nat.add_assoc]
    cases swapped with
    | true =>
      have hrest : Same 65535 rest (256 * (256 * rest)) :=
        (mul_mul_same (b := 256) (by omega) rest).symm
      have hdone := ((hsum.mul_left 256).add hrest)
      rw [← Nat.mul_add] at hdone
      simpa [swapWeight] using hdone
    | false =>
      have hswap : Same 65535 (256 * (256 * acc)) acc := mul_mul_same (b := 256) (by omega) acc
      have hdone := (hswap.trans hsum).add_right (256 * rest)
      rw [← Nat.mul_add] at hdone
      simpa [swapWeight] using hdone

theorem PbufChain.data_cons (part : PbufPart) (q : PbufChain) :
    PbufChain.data (part :: q) = part.bytes ++ PbufChain.data q := rfl

theorem chainSum_spec (p : PbufChain) {acc : Word} (swapped : Bool) (hacc : acc.toNat ≤ 65535) :
    Same 65535 (unswap (chainSum p acc swapped)).toNat
        (swapWeight swapped * (acc.toNat + numberOf p.data))
      ∧ (unswap (chainSum p acc swapped)).toNat ≤ 65535 := by
  induction p generalizing acc swapped with
  | nil => exact unswap_spec swapped hacc
  | cons part q ih =>
    obtain ⟨hsum, hsum_le⟩ := addPart_spec part.payload hacc part.len_lt
    have hstep := @swapWeight_step part.bytes.length _ _ _ (numberOf (PbufChain.data q)) swapped
      hsum
    have hdata := ((numberOf_append_same part.bytes (PbufChain.data q)).add_left acc.toNat).mul_left
      (swapWeight swapped)
    rw [PbufChain.data_cons]
    simp only [chainSum]
    split
    case isTrue hodd =>
      obtain ⟨hswap, hswap_le⟩ := swapBytesInWord_same hsum_le
      obtain ⟨hrest, hrest_le⟩ := ih (!swapped) hswap_le
      rw [if_pos hodd] at hstep
      exact ⟨hrest.trans (((hswap.add_right _).mul_left _).trans (hstep.trans hdata.symm)), hrest_le⟩
    case isFalse heven =>
      obtain ⟨hrest, hrest_le⟩ := ih swapped hsum_le
      rw [if_neg heven] at hstep
      exact ⟨hrest.trans (hstep.trans hdata.symm), hrest_le⟩

/-- The checksum of a chain is that of the flat data, however it is spread over the pbufs and wherever
    these lie. -/
theorem inetChksumPbuf_eq (p : PbufChain) : inetChksumPbuf p = ~~~internetSum p.data := by
  obtain ⟨hsame, hle⟩ := @chainSum_spec p 0#32 false (by rw [BitVec.toNat_zero]; omega)
  rw [BitVec.toNat_zero, Nat.zero_add, swapWeight, if_neg (by simp), Nat.one_mul] at hsame
  unfold inetChksumPbuf
  congr 1
  refine eq_internetSum ?_
  rwa [BitVec.toNat_setWidth, Nat.mod_eq_of_lt (by omega)]

theorem inetChksum_eq (dataptr : Word) {data : List Byte} (hlen : data.length ≤ 0x20000) :
    inetChksum dataptr data = ~~~internetSum data := by
  rw [inetChksum, lwipStandardChksum_eq dataptr hlen]

/-! ## With a pseudo header -/

theorem numberOf_addrBytes (addr : Word) : numberOf (addrBytes addr) = addr.toNat := by
  have hlt := addr.isLt
  simp only [addrBytes, numberOf_cons, numberOf_nil, BitVec.extractLsb'_toNat,
    Nat.shiftRight_eq_div_pow]
  omega

theorem toNat_low (w : Word) : (w &&& 0xffff#32).toNat = w.toNat % 65536 :=
  Nat.and_two_pow_sub_one_eq_mod w.toNat 16

theorem addrSum_spec (src dest : Word) :
    Same 65535 (addrSum src dest).toNat (src.toNat + dest.toNat)
      ∧ (addrSum src dest).toNat ≤ 65535 := by
  have hsrc := fold_same 65535 src.toNat
  have hdest := fold_same 65535 dest.toNat
  have hsrc_le : fold 65536 src.toNat ≤ 131070 := fold_le (n := 65536) src.isLt
  have hdest_le : fold 65536 dest.toNat ≤ 131070 := fold_le (n := 65536) dest.isLt
  have hnat : ((src &&& 0xffff#32) + ((src >>> 16) &&& 0xffff#32) + (dest &&& 0xffff#32)
        + ((dest >>> 16) &&& 0xffff#32)).toNat
      = fold 65536 src.toNat + fold 65536 dest.toNat := by
    have hpow : (2 : Nat) ^ 16 = 65536 := rfl
    have hsrc_high : src.toNat / 65536 < 65536 := Nat.div_lt_of_lt_mul src.isLt
    have hdest_high : dest.toNat / 65536 < 65536 := Nat.div_lt_of_lt_mul dest.isLt
    unfold fold at *
    simp only [BitVec.toNat_add, toNat_low, BitVec.toNat_ushiftRight, Nat.shiftRight_eq_div_pow, hpow,
      Nat.mod_eq_of_lt hsrc_high, Nat.mod_eq_of_lt hdest_high]
    omega
  unfold addrSum
  refine ⟨(foldU32T_same _).trans ((foldU32T_same _).trans ?_), foldU32T_le_of_le (foldU32T_le _)⟩
  rw [hnat]
  exact hsrc.add hdest

theorem length_pseudoHeader (src dest : Word) (proto : Byte) (protoLen : BitVec 16) :
    (pseudoHeader src dest proto protoLen).length = 12 := by
  simp [pseudoHeader, addrBytes]

theorem numberOf_pseudoHeader_same (src dest : Word) (proto : Byte) (protoLen : BitVec 16) :
    Same 65535 (numberOf (pseudoHeader src dest proto protoLen))
      (src.toNat + dest.toNat + ((lwipHtons (proto.setWidth 16)).toNat + (lwipHtons protoLen).toNat)) := by
  have hproto : lwipHtons (proto.setWidth 16) = u16Of 0#8 proto := by
    rw [lwipHtons_eq_u16Of]
    congr 1
    · ext i hi
      simp
    · ext i hi
      simp
  have hlen : lwipHtons protoLen = u16Of (protoLen.extractLsb' 8 8) (protoLen.extractLsb' 0 8) := by
    rw [lwipHtons_eq_u16Of]
    congr 1
  have hend := (numberOf_pair_same 0#8 proto
      [protoLen.extractLsb' 8 8, protoLen.extractLsb' 0 8]).trans
    ((numberOf_pair_same (protoLen.extractLsb' 8 8) (protoLen.extractLsb' 0 8) []).add_left _)
  rw [numberOf_nil, Nat.add_zero, ← hproto, ← hlen] at hend
  have haddrs := (numberOf_append_same (addrBytes src) (addrBytes dest))
  rw [numberOf_addrBytes, numberOf_addrBytes] at haddrs
  have hall := numberOf_append_same (addrBytes src ++ addrBytes dest)
    [0#8, proto, protoLen.extractLsb' 8 8, protoLen.extractLsb' 0 8]
  simp only [addrBytes, List.length_cons, List.length_nil, List.length_append, Nat.reduceAdd,
    Nat.reduceMod, Nat.pow_zero, Nat.one_mul] at haddrs hall
  exact hall.trans (haddrs.add hend)

theorem addProtoLen_eq {acc : Word} {src dest : Word} {proto : Byte} {protoLen : BitVec 16}
    {data : List Byte} (hacc : acc.toNat ≤ 65535)
    (hsame : Same 65535 acc.toNat (src.toNat + dest.toNat + numberOf data)) :
    addProtoLen proto protoLen acc
      = ~~~internetSum (pseudoHeader src dest proto protoLen ++ data) := by
  have hproto := (lwipHtons (proto.setWidth 16)).isLt
  have hlen := (lwipHtons protoLen).isLt
  have hadd : (acc + (lwipHtons (proto.setWidth 16)).setWidth 32
        + (lwipHtons protoLen).setWidth 32).toNat
      = acc.toNat + ((lwipHtons (proto.setWidth 16)).toNat + (lwipHtons protoLen).toNat) := by
    simp only [BitVec.toNat_add, BitVec.toNat_setWidth]
    omega
  have hheader := numberOf_pseudoHeader_same src dest proto protoLen
  have hdata := numberOf_append_same (pseudoHeader src dest proto protoLen) data
  rw [length_pseudoHeader, Nat.pow_zero, Nat.one_mul] at hdata
  have hle := foldU32T_le_of_le (foldU32T_le (acc + (lwipHtons (proto.setWidth 16)).setWidth 32
    + (lwipHtons protoLen).setWidth 32))
  refine congrArg (~~~ ·) (eq_internetSum ?_)
  rw [BitVec.toNat_setWidth, Nat.mod_eq_of_lt (by omega)]
  refine (foldU32T_same _).trans ((foldU32T_same _).trans ?_)
  rw [hadd]
  refine (hsame.add_right _).trans (Same.trans ?_ (hdata.trans (hheader.add_right _)).symm)
  rw [Nat.add_right_comm]
  exact Same.refl _ _

theorem inetChksumPseudo_eq (p : PbufChain) (proto : Byte) (protoLen : BitVec 16) (src dest : Word) :
    inetChksumPseudo p proto protoLen src dest
      = ~~~internetSum (pseudoHeader src dest proto protoLen ++ p.data) := by
  obtain ⟨haddr, haddr_le⟩ := addrSum_spec src dest
  obtain ⟨hsame, hle⟩ := chainSum_spec p false haddr_le
  rw [swapWeight, if_neg (by simp), Nat.one_mul] at hsame
  exact addProtoLen_eq hle (hsame.trans (haddr.add_right _))

/-! ## Over the first bytes of a chain -/

/-- The assertion of the loop, which only the first pbuf can break: what is left shrinks. -/
theorem chainSumPartial_ok {p : PbufChain} {chksumLen : Nat} (acc : Word) (swapped : Bool)
    (hlen : chksumLen < 0x7fff) : ∃ r, chainSumPartial p chksumLen acc swapped = .ok r := by
  induction p generalizing chksumLen acc swapped with
  | nil => exact ⟨_, rfl⟩
  | cons part q ih =>
    simp only [chainSumPartial]
    split
    · exact ⟨_, rfl⟩
    · rw [if_neg (by omega)]
      split
      · exact ih _ _ (by omega)
      · exact ih _ _ (by omega)

/-- The assertion holds: what the first pbuf leaves to be summed is below 0x7fff, or there is none. -/
def PartialFits (p : PbufChain) (chksumLen : Nat) : Prop :=
  ∀ part ∈ p.head?, chksumLen - part.bytes.length < 0x7fff

instance (p : PbufChain) (chksumLen : Nat) : Decidable (PartialFits p chksumLen) :=
  inferInstanceAs (Decidable (∀ part ∈ p.head?, _))

theorem chainSumPartial_error {p : PbufChain} {chksumLen : Nat} (acc : Word) (swapped : Bool)
    (hfits : ¬ PartialFits p chksumLen) :
    chainSumPartial p chksumLen acc swapped = .error "delete me" := by
  cases p with
  | nil => simp [PartialFits] at hfits
  | cons part q =>
    simp only [PartialFits, List.head?_cons, Option.mem_def, Option.some.injEq, forall_eq'] at hfits
    simp only [chainSumPartial]
    rw [if_neg (by omega), if_pos (by omega)]

/-- The bytes that the loop takes of a chain: some of the first payload, and of the others only when
    that was taken whole. -/
theorem take_data_same (part : PbufPart) (q : PbufChain) (chksumLen : Nat) :
    Same 65535 (numberOf ((PbufChain.data (part :: q)).take chksumLen))
      (numberOf (part.bytes.take (min part.bytes.length chksumLen))
        + 256 ^ (part.bytes.length % 2)
          * numberOf ((PbufChain.data q).take (chksumLen - min part.bytes.length chksumLen))) := by
  rw [PbufChain.data_cons, List.take_append]
  rcases Nat.le_total part.bytes.length chksumLen with hle | hge
  · rw [Nat.min_eq_left hle, List.take_of_length_le hle, List.take_length]
    exact numberOf_append_same _ _
  · rw [Nat.min_eq_right hge, Nat.sub_eq_zero_of_le hge, Nat.sub_self, List.take_zero,
      List.append_nil, numberOf_nil, Nat.mul_zero, Nat.add_zero]
    exact Same.refl _ _

theorem chainSumPartial_spec {p : PbufChain} {chksumLen : Nat} {acc : Word} {swapped : Bool}
    {r : Word × Bool} (hacc : acc.toNat ≤ 65535)
    (hr : chainSumPartial p chksumLen acc swapped = .ok r) :
    Same 65535 (unswap r).toNat
        (swapWeight swapped * (acc.toNat + numberOf (p.data.take chksumLen)))
      ∧ (unswap r).toNat ≤ 65535 := by
  induction p generalizing chksumLen acc swapped with
  | nil =>
    obtain rfl := Except.ok.inj hr
    rw [show PbufChain.data [] = [] from rfl, List.take_nil]
    exact unswap_spec swapped hacc
  | cons part q ih =>
    simp only [chainSumPartial] at hr
    split at hr
    case isTrue hzero =>
      obtain rfl := Except.ok.inj hr
      rw [hzero, List.take_zero]
      exact unswap_spec swapped hacc
    case isFalse _ =>
    split at hr
    case isTrue _ => cases hr
    case isFalse _ =>
    have hlen : (part.bytes.take (min part.bytes.length chksumLen)).length < 2 ^ 16 :=
      Nat.lt_of_le_of_lt (List.length_take_le' _ _) part.len_lt
    obtain ⟨hsum, hsum_le⟩ := addPart_spec part.payload hacc hlen
    have hstep := @swapWeight_step part.bytes.length _ _ _
      (numberOf ((PbufChain.data q).take (chksumLen - min part.bytes.length chksumLen)))
      swapped hsum
    have hdata := ((take_data_same part q chksumLen).add_left acc.toNat).mul_left
      (swapWeight swapped)
    split at hr
    case isTrue hodd =>
      obtain ⟨hswap, hswap_le⟩ := swapBytesInWord_same hsum_le
      obtain ⟨hrest, hrest_le⟩ := ih hswap_le hr
      rw [if_pos hodd] at hstep
      exact ⟨hrest.trans (((hswap.add_right _).mul_left _).trans (hstep.trans hdata.symm)), hrest_le⟩
    case isFalse heven =>
      obtain ⟨hrest, hrest_le⟩ := ih hsum_le hr
      rw [if_neg heven] at hstep
      exact ⟨hrest.trans (hstep.trans hdata.symm), hrest_le⟩

theorem inetChksumPseudoPartial_eq {p : PbufChain} {chksumLen : BitVec 16} (proto : Byte)
    (protoLen : BitVec 16) (src dest : Word) (hfits : PartialFits p chksumLen.toNat) :
    inetChksumPseudoPartial p proto protoLen chksumLen src dest
      = .ok (~~~internetSum (pseudoHeader src dest proto protoLen ++ p.data.take chksumLen.toNat)) := by
  obtain ⟨haddr, haddr_le⟩ := addrSum_spec src dest
  have hok : ∃ r, chainSumPartial p chksumLen.toNat (addrSum src dest) false = .ok r := by
    cases p with
    | nil => exact ⟨_, rfl⟩
    | cons part q =>
      simp only [PartialFits, List.head?_cons, Option.mem_def, Option.some.injEq, forall_eq'] at hfits
      simp only [chainSumPartial]
      split
      · exact ⟨_, rfl⟩
      · rw [if_neg (by omega)]
        split
        · exact chainSumPartial_ok _ _ (by omega)
        · exact chainSumPartial_ok _ _ (by omega)
  obtain ⟨r, hr⟩ := hok
  obtain ⟨hsame, hle⟩ := chainSumPartial_spec haddr_le hr
  rw [swapWeight, if_neg (by simp), Nat.one_mul] at hsame
  rw [inetChksumPseudoPartial, hr]
  exact congrArg Except.ok (addProtoLen_eq hle (hsame.trans (haddr.add_right _)))

/-! ## The checksums of the stack -/

/-- The checksums over chains are those of the flat data behind the pseudo header, for every way to
    spread the data over pbufs and every address that a payload has. -/
theorem inet_chksum_chains (p : PbufChain) (proto : Byte) (protoLen chksumLen : BitVec 16)
    (src dest : Word) :
    inetChksumPbuf p = ~~~internetSum p.data
      ∧ inetChksumPseudo p proto protoLen src dest
        = ~~~internetSum (pseudoHeader src dest proto protoLen ++ p.data)
      ∧ inetChksumPseudoPartial p proto protoLen chksumLen src dest
        = if PartialFits p chksumLen.toNat then
            .ok (~~~internetSum
              (pseudoHeader src dest proto protoLen ++ p.data.take chksumLen.toNat))
          else .error "delete me" := by
  refine ⟨inetChksumPbuf_eq p, inetChksumPseudo_eq p proto protoLen src dest, ?_⟩
  split
  case isTrue hfits => exact inetChksumPseudoPartial_eq proto protoLen src dest hfits
  case isFalse hfits =>
    rw [inetChksumPseudoPartial, chainSumPartial_error _ _ hfits]
    rfl

end Lwip
