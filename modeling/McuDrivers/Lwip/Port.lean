import McuDrivers.Eth.Driver
import McuDrivers.Eth.Init

set_option autoImplicit false

/-! # lwIP port: `ethernetif.c`

The functions of the network interface over the descriptor chains, and what they use of lwIP's pbufs.
A pbuf chain is the list of its payloads. The pool that `pbuf_alloc` takes pbufs from is lwIP's own:
how many are left when a function asks for some is an argument of the call, and so is what
`netif->input` answers. -/

namespace Lwip

open Eth

/-- A chain of pbufs, by their payloads. -/
abbrev Pbuf := List (List Byte)

def errOk : Int := 0
def errMem : Int := -1

def pbufPoolBufsize : Nat := 1500

/-- `pbuf_alloc(PBUF_RAW, length, PBUF_POOL)`: the `len` fields of the chain, or NULL. The loop takes
    one pbuf at least, also for a length of 0, and gives up when none of the `free` ones is left. -/
def pbufAlloc : (free length : Nat) → Option (List Nat)
  | 0, _ => none
  | free + 1, remLen =>
      if remLen ≤ pbufPoolBufsize then some [remLen]
      else (pbufAlloc free (remLen - pbufPoolBufsize)).map (pbufPoolBufsize :: ·)

/-! ## Output -/

/-- `memcpy(dst, src, len)` into a packet buffer. -/
def memcpyTo (dst : Word) : List Byte → EthProg Unit
  | [] => pure ()
  | b :: src => do
      storeByte dst b
      memcpyTo (dst + 1) src

def ethGetCurrentTxBuffer : EthProg Word := loadDesc (·.dmaTxDescToSet) (·.buffer1Addr)

def ethTxPktChainMode (frameLength : BitVec 16) : EthProg Word := do
  let status ← loadDesc (·.dmaTxDescToSet) (·.status)
  if status &&& ethDmaTxDescOwn ≠ 0 then
    return ethError
  storeDesc (·.dmaTxDescToSet) fun d =>
    { d with controlBufferSize := frameLength.setWidth 32 &&& ethDmaTxDescTbs1 }
  orStatus (·.dmaTxDescToSet) (ethDmaTxDescLs ||| ethDmaTxDescFs)
  orStatus (·.dmaTxDescToSet) ethDmaTxDescOwn
  resumeTx
  setTxCursor fun s => (s.desc s.dmaTxDescToSet).buffer2NextDescAddr
  return ethSuccess

/-- The loop over the chain, from offset `l` on; returns the final `l`. -/
def copyChain (buffer : Word) : (q : Pbuf) → (l : Nat) → EthProg Nat
  | [], l => pure l
  | payload :: q, l => do
      memcpyTo (buffer + BitVec.ofNat 32 l) payload
      copyChain buffer q (l + payload.length)

/-- What a call of the interface returns, and the chain it passed to `netif->input`, if any. -/
structure PortResult where
  err : Int
  input : Option Pbuf

def lowLevelOutput (p : Pbuf) : EthProg PortResult := do
  let buffer ← ethGetCurrentTxBuffer
  let l ← copyChain buffer p 0
  -- the result is not looked at
  let _ ← ethTxPktChainMode (BitVec.ofNat 16 l)
  return ⟨errOk, none⟩

/-! ## Input -/

/-- `FrameTypeDef` -/
structure FrameTypeDef where
  length : Word
  buffer : Word
  descriptor : Word

/-- Length and buffer of the frame: both 0 if it is not a good one. -/
def frameBuffer : EthProg (Word × Word) := do
  let good ← rxGoodTest
  if good then do
    let status ← loadDesc (·.dmaRxDescToGet) (·.status)
    let buffer ← loadDesc (·.dmaRxDescToGet) (·.buffer1Addr)
    return (rxFrameLength status - 4, buffer)
  else return (ethError, 0)

def ethRxPktChainMode : EthProg FrameTypeDef := do
  let status ← loadDesc (·.dmaRxDescToGet) (·.status)
  if status &&& ethDmaRxDescOwn ≠ 0 then do
    resumeRx
    return ⟨ethError, 0, 0⟩
  else do
    let frame ← frameBuffer
    let descriptor ← .get (·.dmaRxDescToGet)
    setRxCursor fun s => (s.desc s.dmaRxDescToGet).buffer2NextDescAddr
    return ⟨frame.1, frame.2, descriptor⟩

/-- `memcpy(dst, src, len)` out of a packet buffer. -/
def memcpyFrom (src : Word) : (len : Nat) → EthProg (List Byte)
  | 0 => pure []
  | len + 1 => do
      let b ← loadByte src
      let rest ← memcpyFrom (src + 1) len
      return b :: rest

/-- The loop over the new chain, from offset `l` on. -/
def fillChain (buffer : Word) : (lens : List Nat) → (l : Nat) → EthProg Pbuf
  | [], _ => pure []
  | len :: lens, l => do
      let payload ← memcpyFrom (buffer + BitVec.ofNat 32 l) len
      let q ← fillChain buffer lens (l + len)
      return payload :: q

/-- Allocates the chain for a frame and fills it; `len` is a `u16_t`. -/
def allocAndFill (free : Nat) (frame : FrameTypeDef) : EthProg (Option Pbuf) :=
  match pbufAlloc free (frame.length.setWidth 16).toNat with
  | none => pure none
  | some lens => do
      let p ← fillChain frame.buffer lens 0
      return some p

def lowLevelInput (free : Nat) : EthProg (Option Pbuf) := do
  let frame ← ethRxPktChainMode
  let p ← allocAndFill free frame
  -- `frame.descriptor` is not tested
  storeStatus (fun _ => frame.descriptor) ethDmaRxDescOwn
  resumeRx
  return p

/-- `err` is what `netif->input` returns. -/
def ethernetifInput (free : Nat) (err : Int) : EthProg PortResult := do
  let p ← lowLevelInput free
  match p with
  | none => return ⟨errMem, none⟩
  | some p => return ⟨err, some p⟩

/-! ## The port as a system -/

/-- `ETH_DMARxDescReceiveITConfig(desc, ENABLE)` -/
def dmaRxDescReceiveItEnable (desc : Word) (s : EthState) : EthState :=
  s.setDesc desc fun d =>
    { d with controlBufferSize := d.controlBufferSize &&& ~~~ethDmaRxDescDic }

/-- The descriptor tables as `low_level_init` sets them up. -/
def lowLevelInit (txTab txBuff : Word) (txCount : Nat) (rxTab rxBuff : Word) (rxCount : Nat)
    (s : EthState) : EthState :=
  forLoop rxCount (fun i => dmaRxDescReceiveItEnable (descAt rxTab i))
    (dmaRxDescChainInit rxTab rxBuff rxCount (dmaTxDescChainInit txTab txBuff txCount s))

inductive PortCall where
  | output (p : Pbuf)
  | input (free : Nat) (err : Int)

def PortCall.body : PortCall → EthProg PortResult
  | output p => lowLevelOutput p
  | input free err => ethernetifInput free err

/-- The interface functions, called in any order, with the MAC at work all the time. -/
def portSystem : System EthState PortCall PortResult := ⟨EthHw, PortCall.body⟩

end Lwip
