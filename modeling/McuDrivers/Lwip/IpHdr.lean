import McuDrivers.Lwip.ChksumFlat

set_option autoImplicit false

/-! # lwIP: `struct ip_hdr`

The IPv4 header by its fields, with the macros that read and write them, and by the bytes it has in a
packet. A field of two bytes holds what the microcontroller reads there, so that `lwip_htons` stands
between it and the number that is meant. -/

namespace Lwip

open Eth OnesSum

structure IpHdr where
  vHl : Byte
  tos : Byte
  len : BitVec 16
  id : BitVec 16
  offset : BitVec 16
  ttl : Byte
  proto : Byte
  chksum : BitVec 16
  src : Word
  dest : Word
deriving DecidableEq

def ipHlen : Nat := 20
def ipMf : BitVec 16 := 0x2000#16
def ipOffmask : BitVec 16 := 0x1fff#16

/-- `IPH_V` -/
def IpHdr.v (h : IpHdr) : Byte := h.vHl >>> 4

/-- `IPH_HL_BYTES` -/
def IpHdr.hlBytes (h : IpHdr) : Nat := (h.vHl &&& 0x0f#8).toNat * 4

/-- `IPH_OFFSET_BYTES` -/
def IpHdr.offsetBytes (h : IpHdr) : Nat := (lwipHtons h.offset &&& ipOffmask).toNat * 8

/-- `lwip_ntohs(IPH_LEN(hdr))` -/
def IpHdr.lenBytes (h : IpHdr) : Nat := (lwipHtons h.len).toNat

/-- The bytes of a `u16_t` in memory. -/
def u16Bytes (v : BitVec 16) : List Byte := [v.extractLsb' 0 8, v.extractLsb' 8 8]

def IpHdr.bytes (h : IpHdr) : List Byte :=
  [h.vHl, h.tos] ++ u16Bytes h.len ++ u16Bytes h.id ++ u16Bytes h.offset ++ [h.ttl, h.proto]
    ++ u16Bytes h.chksum ++ addrBytes h.src ++ addrBytes h.dest

/-- `(struct ip_hdr *)p->payload` -/
def IpHdr.ofBytes : List Byte → Option IpHdr
  | vHl :: tos :: len₀ :: len₁ :: id₀ :: id₁ :: offset₀ :: offset₁ :: ttl :: proto
      :: chksum₀ :: chksum₁ :: src₀ :: src₁ :: src₂ :: src₃ :: dest₀ :: dest₁ :: dest₂ :: dest₃ :: _ =>
      some {
        vHl, tos, ttl, proto
        len := u16Of len₀ len₁
        id := u16Of id₀ id₁
        offset := u16Of offset₀ offset₁
        chksum := u16Of chksum₀ chksum₁
        src := u32Of src₀ src₁ src₂ src₃
        dest := u32Of dest₀ dest₁ dest₂ dest₃ }
  | _ => none

/-- `IPH_CHKSUM_SET(hdr, 0)`, and the checksum over the header and its options after it. -/
def IpHdr.setChksum (h : IpHdr) (payload : Word) (options : List Byte) : IpHdr :=
  { h with chksum := inetChksum payload ({ h with chksum := 0#16 }.bytes ++ options) }

/-! ## The header in memory -/

theorem u16Of_extract (v : BitVec 16) : u16Of (v.extractLsb' 0 8) (v.extractLsb' 8 8) = v := by
  unfold u16Of
  ext i hi
  interval_cases i <;> simp

theorem u32Of_extract (w : Word) :
    u32Of (w.extractLsb' 0 8) (w.extractLsb' 8 8) (w.extractLsb' 16 8) (w.extractLsb' 24 8) = w := by
  unfold u32Of u16Of
  ext i hi
  interval_cases i <;> simp

@[simp] theorem length_addrBytes (addr : Word) : (addrBytes addr).length = 4 := rfl

@[simp] theorem length_u16Bytes (v : BitVec 16) : (u16Bytes v).length = 2 := rfl

theorem IpHdr.length_bytes (h : IpHdr) : h.bytes.length = ipHlen := rfl

theorem IpHdr.ofBytes_bytes (h : IpHdr) (rest : List Byte) :
    IpHdr.ofBytes (h.bytes ++ rest) = some h := by
  simp only [IpHdr.bytes, u16Bytes, addrBytes, List.cons_append, List.nil_append, IpHdr.ofBytes,
    u16Of_extract, u32Of_extract]

/-! ## Its checksum -/

/-- The sum of the words of a header besides the checksum. -/
def IpHdr.sumOthers (h : IpHdr) : Nat :=
  (u16Of h.vHl h.tos).toNat + h.len.toNat + h.id.toNat + h.offset.toNat
    + (u16Of h.ttl h.proto).toNat + h.src.toNat + h.dest.toNat

theorem numberOf_u16Bytes (v : BitVec 16) : numberOf (u16Bytes v) = v.toNat := by
  have hlt := v.isLt
  simp only [u16Bytes, numberOf_cons, numberOf_nil, BitVec.extractLsb'_toNat,
    Nat.shiftRight_eq_div_pow]
  omega

/-- Words in front are added to the sum of what follows. -/
theorem numberOf_append_even {xs ys : List Byte} {x y : Nat} (heven : xs.length % 2 = 0)
    (hx : numberOf xs = x) (hy : Same 65535 (numberOf ys) y) :
    Same 65535 (numberOf (xs ++ ys)) (x + y) := by
  have happend := numberOf_append_same xs ys
  rw [heven, Nat.pow_zero, Nat.one_mul, hx] at happend
  exact happend.trans (hy.add_left x)

theorem IpHdr.numberOf_bytes_same (h : IpHdr) (options : List Byte) :
    Same 65535 (numberOf (h.bytes ++ options))
      (h.sumOthers + numberOf options + h.chksum.toNat) := by
  have hfirst : numberOf [h.vHl, h.tos] = (u16Of h.vHl h.tos).toNat := by
    rw [toNat_u16Of, numberOf_cons, numberOf_cons, numberOf_nil]
    omega
  have hmiddle : numberOf [h.ttl, h.proto] = (u16Of h.ttl h.proto).toNat := by
    rw [toNat_u16Of, numberOf_cons, numberOf_cons, numberOf_nil]
    omega
  have hdest := numberOf_append_even (by simp) (numberOf_addrBytes h.dest) (Same.refl 65535 (numberOf options))
  have hsrc := numberOf_append_even (by simp) (numberOf_addrBytes h.src) hdest
  have hchksum := numberOf_append_even (by simp) (numberOf_u16Bytes h.chksum) hsrc
  have hproto := numberOf_append_even (by simp) hmiddle hchksum
  have hoffset := numberOf_append_even (by simp) (numberOf_u16Bytes h.offset) hproto
  have hid := numberOf_append_even (by simp) (numberOf_u16Bytes h.id) hoffset
  have hlen := numberOf_append_even (by simp) (numberOf_u16Bytes h.len) hid
  have hall := numberOf_append_even (by simp) hfirst hlen
  simp only [IpHdr.bytes, List.append_assoc]
  have hsum : h.sumOthers + numberOf options + h.chksum.toNat
      = (u16Of h.vHl h.tos).toNat + (h.len.toNat + (h.id.toNat + (h.offset.toNat
        + ((u16Of h.ttl h.proto).toNat + (h.chksum.toNat + (h.src.toNat
          + (h.dest.toNat + numberOf options))))))) := by
    unfold IpHdr.sumOthers
    ring
  rw [hsum]
  exact hall

/-- A checksum verifies when the words around it, added to it, are a multiple of the largest word. -/
theorem verifies_iff (data : List Byte) :
    ~~~internetSum data = 0#16 ↔ numberOf data ≡ 0 [MOD 65535] ∧ numberOf data ≠ 0 := by
  rw [← word_eq_top_iff (by omega : 0 < 65535), ← toNat_internetSum]
  constructor
  · intro h
    have hall : internetSum data = ~~~0#16 := by rw [← h, BitVec.not_not]
    rw [hall]
    rfl
  · intro h
    have hall : internetSum data = ~~~0#16 := BitVec.eq_of_toNat_eq h
    rw [hall]
    rfl

/-- The complement of the sum of the other words, as the checksum, verifies. -/
theorem IpHdr.verifies_of_chksum {h : IpHdr} {options : List Byte}
    (hchksum : Same 65535 (~~~h.chksum).toNat (h.sumOthers + numberOf options)) :
    ~~~internetSum (h.bytes ++ options) = 0#16 := by
  have hlt := h.chksum.isLt
  have hnot : (~~~h.chksum).toNat = 65535 - h.chksum.toNat := by
    rw [BitVec.toNat_not]
  have hsum := (hchksum.symm.add_right h.chksum.toNat)
  rw [hnot, Nat.sub_add_cancel (by omega)] at hsum
  have hall := (h.numberOf_bytes_same options).trans hsum
  rw [verifies_iff]
  refine ⟨hall.1.trans (by decide), fun hzero => ?_⟩
  exact absurd (hall.2.mp hzero) (by decide)

/-- A header that is given its checksum verifies. -/
theorem IpHdr.setChksum_verifies (h : IpHdr) (payload : Word) {options : List Byte}
    (hlen : options.length ≤ 40) :
    ~~~internetSum ((h.setChksum payload options).bytes ++ options) = 0#16 := by
  refine IpHdr.verifies_of_chksum ?_
  have hfits : ({ h with chksum := 0#16 }.bytes ++ options).length ≤ 0x20000 := by
    rw [List.length_append, IpHdr.length_bytes, ipHlen]
    omega
  have hchksum : ~~~(h.setChksum payload options).chksum
      = internetSum ({ h with chksum := 0#16 }.bytes ++ options) := by
    rw [IpHdr.setChksum, inetChksum_eq payload hfits, BitVec.not_not]
  rw [hchksum]
  have hzero := IpHdr.numberOf_bytes_same { h with chksum := 0#16 } options
  rw [show (0#16 : BitVec 16).toNat = 0 from rfl, Nat.add_zero] at hzero
  exact (internetSum_same _).trans hzero

theorem IpHdr.setChksum_nil_verifies (h : IpHdr) (payload : Word) :
    ~~~internetSum (h.setChksum payload []).bytes = 0#16 := by
  have hverifies := @IpHdr.setChksum_verifies h payload [] (Nat.zero_le _)
  rwa [List.append_nil] at hverifies

end Lwip
