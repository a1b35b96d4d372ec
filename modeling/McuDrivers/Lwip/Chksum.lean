import McuDrivers.Eth.Basic
import McuDrivers.Library.OnesSum

set_option autoImplicit false

/-! # lwIP: `inet_chksum.c`

The Internet checksum, in the three versions that `LWIP_CHKSUM_ALGORITHM` chooses from, over flat
memory and over chains of pbufs. What is summed is at an address, since the second and the third
version read it by aligned words. -/

namespace Lwip

open Eth

/-- `FOLD_U32T` -/
def foldU32T (u : Word) : Word := (u >>> 16) + (u &&& 0xffff#32)

/-- `SWAP_BYTES_IN_WORD` -/
def swapBytesInWord (w : Word) : Word := ((w &&& 0xff#32) <<< 8) ||| ((w &&& 0xff00#32) >>> 8)

def lwipHtons (n : BitVec 16) : BitVec 16 := ((n &&& 0xff#16) <<< 8) ||| ((n &&& 0xff00#16) >>> 8)

/-- The `u16_t` that two bytes of memory hold. -/
def u16Of (low high : Byte) : BitVec 16 := low.setWidth 16 ||| (high.setWidth 16 <<< 8)

/-- The `u32_t` that four bytes of memory hold. -/
def u32Of (b₀ b₁ b₂ b₃ : Byte) : Word :=
  (u16Of b₀ b₁).setWidth 32 ||| ((u16Of b₂ b₃).setWidth 32 <<< 16)

/-! ## `lwip_standard_chksum` -/

/-- The loop of version 1, and the remaining octet. -/
def sumOctets : List Byte → (acc : Word) → Word
  | first :: second :: rest, acc =>
      sumOctets rest (acc + ((first.setWidth 16 <<< 8) ||| second.setWidth 16).setWidth 32)
  | [octet], acc => acc + (octet.setWidth 16 <<< 8).setWidth 32
  | [], acc => acc

/-- Version 1. -/
def lwipStandardChksum1 (data : List Byte) : BitVec 16 :=
  let acc := foldU32T (sumOctets data 0#32)
  let acc := if acc &&& 0xffff0000#32 ≠ 0#32 then foldU32T acc else acc
  lwipHtons (acc.setWidth 16)

/-- To a `u16_t` boundary: the byte before it is the high one of `t`. -/
def alignWord (dataptr : Word) : List Byte → BitVec 16 × Word × List Byte
  | [] => (0#16, dataptr, [])
  | b :: rest =>
      if dataptr &&& 1#32 ≠ 0#32 then (b.setWidth 16 <<< 8, dataptr + 1#32, rest)
      else (0#16, dataptr, b :: rest)

/-- `while (len > 1) sum += *ps++` -/
def sumWords : List Byte → (sum : Word) → Word × List Byte
  | low :: high :: rest, sum => sumWords rest (sum + (u16Of low high).setWidth 32)
  | rest, sum => (sum, rest)

/-- The left-over byte is the low one of `t`. -/
def leftOver (t : BitVec 16) : List Byte → BitVec 16
  | [] => t
  | b :: _ => (t &&& 0xff00#16) ||| b.setWidth 16

/-- Both folds, and the swap for a buffer at an odd address. -/
def foldAndSwap (dataptr sum : Word) : BitVec 16 :=
  let sum := foldU32T (foldU32T sum)
  (if dataptr &&& 1#32 ≠ 0#32 then swapBytesInWord sum else sum).setWidth 16

/-- Version 2, the one that is built. -/
def lwipStandardChksum (dataptr : Word) (data : List Byte) : BitVec 16 :=
  let (t, _, data) := alignWord dataptr data
  let (sum, data) := sumWords data 0#32
  foldAndSwap dataptr (sum + (leftOver t data).setWidth 32)

/-- `sum += *ps++` before the longs, where these would not be aligned. -/
def alignLong (ps : Word) : List Byte → Word × List Byte
  | low :: high :: rest =>
      if ps &&& 3#32 ≠ 0#32 then ((u16Of low high).setWidth 32, rest)
      else (0#32, low :: high :: rest)
  | rest => (0#32, rest)

def addBackCarry (sum long : Word) : Word :=
  let tmp := sum + long
  if tmp < sum then tmp + 1#32 else tmp

/-- `while (len > 7)` -/
def sumLongs : List Byte → (sum : Word) → Word × List Byte
  | b₀ :: b₁ :: b₂ :: b₃ :: b₄ :: b₅ :: b₆ :: b₇ :: rest, sum =>
      let tmp := addBackCarry sum (u32Of b₀ b₁ b₂ b₃)
      sumLongs rest (addBackCarry tmp (u32Of b₄ b₅ b₆ b₇))
  | rest, sum => (sum, rest)

/-- Version 3. -/
def lwipStandardChksum3 (dataptr : Word) (data : List Byte) : BitVec 16 :=
  let (t, ps, data) := alignWord dataptr data
  let (sum, data) := alignLong ps data
  let (sum, data) := sumLongs data sum
  let (sum, data) := sumWords data (foldU32T sum)
  foldAndSwap dataptr (sum + (leftOver t data).setWidth 32)

/-! ## `inet_chksum` and the checksums of chains -/

def inetChksum (dataptr : Word) (data : List Byte) : BitVec 16 :=
  ~~~lwipStandardChksum dataptr data

/-- What the checksums read of a pbuf: where its payload is, and what is there. Its `len` is a `u16_t`. -/
structure PbufPart where
  payload : Word
  bytes : List Byte
  len_lt : bytes.length < 2 ^ 16

abbrev PbufChain := List PbufPart

def PbufChain.data (p : PbufChain) : List Byte := p.flatMap PbufPart.bytes

/-- The loop over the chain; returns `acc` and `swapped`. -/
def chainSum : PbufChain → (acc : Word) → (swapped : Bool) → Word × Bool
  | [], acc, swapped => (acc, swapped)
  | part :: q, acc, swapped =>
      let acc := foldU32T (acc + (lwipStandardChksum part.payload part.bytes).setWidth 32)
      if part.bytes.length % 2 ≠ 0 then chainSum q (swapBytesInWord acc) (!swapped)
      else chainSum q acc swapped

/-- `if (swapped) acc = SWAP_BYTES_IN_WORD(acc)` -/
def unswap : Word × Bool → Word
  | (acc, swapped) => if swapped then swapBytesInWord acc else acc

def inetChksumPbuf (p : PbufChain) : BitVec 16 :=
  ~~~(unswap (chainSum p 0#32 false)).setWidth 16

/-- The end of the pseudo checksums, from the sum over the chain on. -/
def addProtoLen (proto : Byte) (protoLen : BitVec 16) (acc : Word) : BitVec 16 :=
  let acc := acc + (lwipHtons (proto.setWidth 16)).setWidth 32
  let acc := acc + (lwipHtons protoLen).setWidth 32
  ~~~(foldU32T (foldU32T acc)).setWidth 16

def inetCksumPseudoBase (p : PbufChain) (proto : Byte) (protoLen : BitVec 16) (acc : Word) :
    BitVec 16 :=
  addProtoLen proto protoLen (unswap (chainSum p acc false))

/-- The sum of the two addresses, which are in network byte order. -/
def addrSum (src dest : Word) : Word :=
  let acc := src &&& 0xffff#32
  let acc := acc + ((src >>> 16) &&& 0xffff#32)
  let acc := acc + (dest &&& 0xffff#32)
  let acc := acc + ((dest >>> 16) &&& 0xffff#32)
  foldU32T (foldU32T acc)

def inetChksumPseudo (p : PbufChain) (proto : Byte) (protoLen : BitVec 16) (src dest : Word) :
    BitVec 16 :=
  inetCksumPseudoBase p proto protoLen (addrSum src dest)

/-- The loop over the first `chksumLen` bytes of the chain. -/
def chainSumPartial : PbufChain → (chksumLen : Nat) → (acc : Word) → (swapped : Bool) →
    Except String (Word × Bool)
  | [], _, acc, swapped => .ok (acc, swapped)
  | part :: q, chksumLen, acc, swapped =>
      if chksumLen = 0 then .ok (acc, swapped)
      else
        let chklen := min part.bytes.length chksumLen
        let acc := acc + (lwipStandardChksum part.payload (part.bytes.take chklen)).setWidth 32
        let chksumLen := chksumLen - chklen
        if ¬ chksumLen < 0x7fff then .error "delete me"
        else
          let acc := foldU32T acc
          if part.bytes.length % 2 ≠ 0 then
            chainSumPartial q chksumLen (swapBytesInWord acc) (!swapped)
          else chainSumPartial q chksumLen acc swapped

def inetChksumPseudoPartial (p : PbufChain) (proto : Byte) (protoLen chksumLen : BitVec 16)
    (src dest : Word) : Except String (BitVec 16) :=
  (chainSumPartial p chksumLen.toNat (addrSum src dest) false).map
    fun r => addProtoLen proto protoLen (unswap r)

/-! ## The sum of some bytes -/

/-- The bytes, read as one number. -/
def numberOf (data : List Byte) : Nat := Nat.ofDigits 256 (data.map BitVec.toNat)

/-- The ones' complement sum of the 16 bit words of some bytes. -/
def internetSum (data : List Byte) : BitVec 16 :=
  BitVec.ofNat 16 (OnesSum.word 65535 (numberOf data))

/-- The bytes of an address in memory, which are those of the network. -/
def addrBytes (addr : Word) : List Byte :=
  [addr.extractLsb' 0 8, addr.extractLsb' 8 8, addr.extractLsb' 16 8, addr.extractLsb' 24 8]

/-- What stands before the data of UDP and TCP in their checksums. -/
def pseudoHeader (src dest : Word) (proto : Byte) (protoLen : BitVec 16) : List Byte :=
  addrBytes src ++ addrBytes dest
    ++ [0#8, proto, protoLen.extractLsb' 8 8, protoLen.extractLsb' 0 8]

end Lwip
