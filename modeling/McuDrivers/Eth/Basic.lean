import McuDrivers.Library.Prog
import McuDrivers.Library.Bits
import McuDrivers.Library.Memory

set_option autoImplicit false

/-! # Ethernet: descriptors, registers and memory accesses

The state that the AT32F407 Ethernet driver (`at32f4xx_eth.c`, `ethernetif.c`) shares with the MAC's
two DMA engines. Descriptors and packet buffers are C objects of their own, so descriptor memory and
buffer memory are two maps: `desc` from the address of a descriptor to its four words, `ram` from an
address to a byte. An address is a 32-bit word, because descriptors hold addresses in their words.

The last group of fields is written but never read by driver or hardware: it records what went over
the wire, how often the driver moved its cursors, which memory the processor touched, and which
descriptors the DMA closed with a time stamp. -/

namespace Eth

abbrev Word := BitVec 32
abbrev Byte := BitVec 8

/-! ## Constants of `at32f4xx_eth.h` and `at32f4xx.h` -/

def ethMaxPacketSize : Nat := 1520

def ethError : Word := 0
def ethSuccess : Word := 1

def ethDmaTxDescOwn : Word := 0x80000000
def ethDmaTxDescLs : Word := 0x20000000
def ethDmaTxDescFs : Word := 0x10000000
def ethDmaTxDescTtse : Word := 0x02000000
def ethDmaTxDescTer : Word := 0x00200000
def ethDmaTxDescTch : Word := 0x00100000
def ethDmaTxDescTtss : Word := 0x00020000
def ethDmaTxDescTbs2 : Word := 0x1FFF0000
def ethDmaTxDescTbs1 : Word := 0x00001FFF

def ethDmaRxDescOwn : Word := 0x80000000
def ethDmaRxDescFl : Word := 0x3FFF0000
def ethDmaRxDescEs : Word := 0x00008000
def ethDmaRxDescFs : Word := 0x00000200
def ethDmaRxDescLs : Word := 0x00000100
def ethDmaRxDescDic : Word := 0x80000000
def ethDmaRxDescRer : Word := 0x00008000
def ethDmaRxDescRch : Word := 0x00004000
def ethDmaRxDescRbs1 : Word := 0x00001FFF
def ethDmaRxDescFrameLengthShift : Nat := 16

def ethDmaStsRbu : Word := 0x00000080
def ethDmaStsTbu : Word := 0x00000004
def ethDmaBmDsl : Word := 0x0000007C

/-! ## State -/

/-- `ETH_DMADESCTypeDef`. -/
structure EthDmaDesc where
  status : Word
  controlBufferSize : Word
  buffer1Addr : Word
  buffer2NextDescAddr : Word

/-- The OWN bit, which is bit 31 of transmit and receive descriptors alike. -/
def EthDmaDesc.Own (d : EthDmaDesc) : Prop := d.status &&& ethDmaTxDescOwn ≠ 0

instance (d : EthDmaDesc) : Decidable d.Own := inferInstanceAs (Decidable (_ ≠ _))

/-- A receive status word of a frame without error that lies in this one descriptor. -/
def RxGood (status : Word) : Prop :=
  status &&& ethDmaRxDescEs = 0 ∧ status &&& ethDmaRxDescLs ≠ 0 ∧ status &&& ethDmaRxDescFs ≠ 0

instance (status : Word) : Decidable (RxGood status) := inferInstanceAs (Decidable (_ ∧ _ ∧ _))

/-- The FL field. -/
def rxFrameLength (status : Word) : Word :=
  (status &&& ethDmaRxDescFl) >>> ethDmaRxDescFrameLengthShift

/-- What the receive DMA leaves in one descriptor and its buffer: a status word with OWN clear, and
    bytes. Of a good frame the length field is exact, and counts the four bytes of the CRC. -/
structure Arrival where
  status : Word
  bytes : List Byte
  notOwn : status &&& ethDmaRxDescOwn = 0
  goodLength : RxGood status → (rxFrameLength status).toNat = bytes.length ∧ 4 ≤ bytes.length

/-- The frame without its CRC, if it is a good one. -/
def Arrival.payload (a : Arrival) : Option (List Byte) :=
  if RxGood a.status then some (a.bytes.take (a.bytes.length - 4)) else none

structure EthState where
  /-- descriptor and buffer memory, apart: a packet that does not fit its buffer would need them in one -/
  desc : Word → EthDmaDesc
  ram : Word → Byte
  /-- registers of the MAC -/
  dmaSts : Word
  dmaTdlAddr : Word
  dmaRdlAddr : Word
  dmaBm : Word
  /-- globals of the driver -/
  dmaTxDescToSet : Word
  dmaRxDescToGet : Word
  dmaPtpTxDescToSet : Word
  dmaPtpRxDescToGet : Word
  /-- the two DMA engines: their current descriptors, whether the receive engine has suspended, and
      whether time stamps are taken -/
  txCur : Word
  rxCur : Word
  rxSuspended : Bool
  timeStamping : Bool
  /-- records -/
  sent : List (List Byte)
  arrived : List Arrival
  txMoves : Nat
  rxMoves : Nat
  stored : List Word
  loaded : List Word
  descStored : List Word
  stamped : List Word

/-- The state before any initialisation: memory and registers hold anything, nothing was recorded. -/
def EthState.boot (desc : Word → EthDmaDesc) (ram : Word → Byte) (dmaSts dmaBm : Word)
    (timeStamping : Bool) : EthState where
  desc := desc
  ram := ram
  dmaSts := dmaSts
  dmaTdlAddr := 0
  dmaRdlAddr := 0
  dmaBm := dmaBm
  dmaTxDescToSet := 0
  dmaRxDescToGet := 0
  dmaPtpTxDescToSet := 0
  dmaPtpRxDescToGet := 0
  txCur := 0
  rxCur := 0
  rxSuspended := false
  timeStamping := timeStamping
  sent := []
  arrived := []
  txMoves := 0
  rxMoves := 0
  stored := []
  loaded := []
  descStored := []
  stamped := []

def EthState.setDesc (s : EthState) (a : Word) (f : EthDmaDesc → EthDmaDesc) : EthState :=
  { s with desc := Function.update s.desc a (f (s.desc a)) }

/-- A store of the processor into the descriptor at `a`, which leaves `d` there. -/
def EthState.putDesc (s : EthState) (a : Word) (d : EthDmaDesc) : EthState :=
  { s with desc := Function.update s.desc a d, descStored := s.descStored ++ [a] }

/-- A store of the processor into a buffer. -/
def EthState.putByte (s : EthState) (a : Word) (b : Byte) : EthState :=
  { s with ram := Function.update s.ram a b, stored := s.stored ++ [a] }

/-- A load of the processor from a buffer. -/
def EthState.noteLoad (s : EthState) (a : Word) : EthState := { s with loaded := s.loaded ++ [a] }

@[simp] theorem EthState.setDesc_self (s : EthState) (a : Word) (f : EthDmaDesc → EthDmaDesc) :
    (s.setDesc a f).desc a = f (s.desc a) := Function.update_self _ _ _

@[simp] theorem EthState.putDesc_self (s : EthState) (a : Word) (d : EthDmaDesc) :
    (s.putDesc a d).desc a = d := Function.update_self _ _ _

theorem EthState.putDesc_other (s : EthState) {a a' : Word} (d : EthDmaDesc) (h : a' ≠ a) :
    (s.putDesc a d).desc a' = s.desc a' := Function.update_of_ne h _ _

@[simp] theorem EthState.putByte_self (s : EthState) (a : Word) (b : Byte) :
    (s.putByte a b).ram a = b := Function.update_self _ _ _

theorem EthState.putByte_other (s : EthState) {a a' : Word} (b : Byte) (h : a' ≠ a) :
    (s.putByte a b).ram a' = s.ram a' := Function.update_of_ne h _ _

/-! ## The processor's accesses

A pointer is an expression over the driver's globals, evaluated at the access, as in
`DMATxDescToSet->Status`. A compound assignment to a volatile word is a load and then a store. -/

abbrev EthProg := Prog EthState

/-- `ptr->field` -/
def loadDesc (ptr : EthState → Word) (field : EthDmaDesc → Word) : EthProg Word :=
  .get fun s => field (s.desc (ptr s))

/-- `ptr->field = ..` -/
def storeDesc (ptr : EthState → Word) (f : EthDmaDesc → EthDmaDesc) : EthProg Unit :=
  .put fun s => s.putDesc (ptr s) (f (s.desc (ptr s)))

def storeStatus (ptr : EthState → Word) (v : Word) : EthProg Unit :=
  storeDesc ptr fun d => { d with status := v }

/-- `ptr->Status |= mask` -/
def orStatus (ptr : EthState → Word) (mask : Word) : EthProg Unit := do
  let v ← loadDesc ptr (·.status)
  storeStatus ptr (v ||| mask)

/-- `ptr->Status &= mask` -/
def andStatus (ptr : EthState → Word) (mask : Word) : EthProg Unit := do
  let v ← loadDesc ptr (·.status)
  storeStatus ptr (v &&& mask)

def storeByte (addr : Word) (b : Byte) : EthProg Unit :=
  .put fun s => s.putByte addr b

def loadByte (addr : Word) : EthProg Byte :=
  .act (·.noteLoad addr) fun s => .ret (s.ram addr)

/-- `for(offset..) *(ptr->Buffer1Addr + offset) = *(ppkt + offset)`, with `left` bytes to go. -/
def copyToBuffer (ptr : EthState → Word) (ppkt : Nat → Byte) : (left offset : Nat) → EthProg Unit
  | 0, _ => pure ()
  | left + 1, offset => do
      let b ← loadDesc ptr (·.buffer1Addr)
      storeByte (b + BitVec.ofNat 32 offset) (ppkt offset)
      copyToBuffer ptr ppkt left (offset + 1)

/-- `for(offset..) *(ppkt + offset) = *(ptr->Buffer1Addr + offset)`: the bytes copied. -/
def copyFromBuffer (ptr : EthState → Word) : (left offset : Nat) → EthProg (List Byte)
  | 0, _ => pure []
  | left + 1, offset => do
      let b ← loadDesc ptr (·.buffer1Addr)
      let x ← loadByte (b + BitVec.ofNat 32 offset)
      let rest ← copyFromBuffer ptr left (offset + 1)
      pure (x :: rest)

section Rules

variable {R A G : EthState → EthState → Prop} {P : EthState → Prop} {s : EthState}

theorem wp_loadDesc {ptr : EthState → Word} {field : EthDmaDesc → Word}
    {Q : Word → EthState → Prop} (hP : Prog.Stable R P) (h : P s)
    (hq : ∀ s, P s → G s s ∧ Q (field (s.desc (ptr s))) s) :
    (loadDesc ptr field).wp R A G Q s :=
  Prog.wp_get hP h hq

theorem wp_storeDesc {ptr : EthState → Word} {f : EthDmaDesc → EthDmaDesc}
    {Q : Unit → EthState → Prop} (hP : Prog.Stable R P) (h : P s)
    (hq : ∀ s, P s → A s (s.putDesc (ptr s) (f (s.desc (ptr s)))) →
      G s (s.putDesc (ptr s) (f (s.desc (ptr s)))) ∧
        Q () (s.putDesc (ptr s) (f (s.desc (ptr s))))) :
    (storeDesc ptr f).wp R A G Q s :=
  Prog.wp_put hP h hq

theorem wp_loadByte {addr : Word} {Q : Byte → EthState → Prop} (hP : Prog.Stable R P) (h : P s)
    (hq : ∀ s, P s → A s (s.noteLoad addr) →
      G s (s.noteLoad addr) ∧ Q (s.ram addr) (s.noteLoad addr)) :
    (loadByte addr).wp R A G Q s :=
  fun s' hs ha => hq s' (hP.star h hs) ha

end Rules

/-! ## The register writes of the resume sequences -/

def loadDmaSts : EthProg Word := .get (·.dmaSts)

/-- `ETH->DMASTS = v`: the status bits are cleared by writing one. -/
def clearDmaSts (v : Word) : EthProg Unit := .put fun s => { s with dmaSts := s.dmaSts &&& ~~~v }

/-- `ETH->DMATPD = 0`. The transmit engine of the model may take an owned descriptor at any moment,
    so the demand itself changes nothing. -/
def dmaTpd : EthProg Unit := .put id

/-- A suspended receive engine reads the OWN bit of its current descriptor again. -/
def EthState.pollRx (s : EthState) : EthState :=
  if s.rxSuspended then
    if (s.desc s.rxCur).status &&& ethDmaRxDescOwn ≠ 0 then { s with rxSuspended := false }
    else { s with dmaSts := s.dmaSts ||| ethDmaStsRbu }
  else s

/-- A poll demand changes only whether the engine sleeps, and the status register. -/
theorem EthState.pollRx_eq (s : EthState) :
    ∃ r v, s.pollRx = { s with rxSuspended := r, dmaSts := v } := by
  unfold EthState.pollRx
  split
  · split
    · exact ⟨false, s.dmaSts, rfl⟩
    · exact ⟨s.rxSuspended, s.dmaSts ||| ethDmaStsRbu, rfl⟩
  · exact ⟨s.rxSuspended, s.dmaSts, rfl⟩

/-- `ETH->DMARPD = 0` -/
def dmaRpd : EthProg Unit := .put EthState.pollRx

/-- "When Tx Buffer unavailable flag is set: clear it and resume transmission" -/
def resumeTx : EthProg Unit := do
  let sts ← loadDmaSts
  if sts &&& ethDmaStsTbu ≠ 0 then do
    clearDmaSts ethDmaStsTbu
    dmaTpd
  else pure ()

/-- "When Rx Buffer unavailable flag is set: clear it and resume reception" -/
def resumeRx : EthProg Unit := do
  let sts ← loadDmaSts
  if sts &&& ethDmaStsRbu ≠ 0 then do
    clearDmaSts ethDmaStsRbu
    dmaRpd
  else pure ()

end Eth
