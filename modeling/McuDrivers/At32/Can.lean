import Mathlib.Logic.Function.Basic
import McuDrivers.At32.Flash

set_option autoImplicit false

/-! # AT32F4xx: CAN controller

The functions of `at32f4xx_can.c` that send and receive messages and set up the filter banks, over the
registers that they touch. In `TSTS`, `RF0` and `RF1` the status bits are cleared by writing a 1 to
them ("rc_w1"). -/

namespace At32

/-! ## Constants -/

def canTstsRqc0 : Word := 0x00000001
def canTstsTok0 : Word := 0x00000002
def canTstsArq0 : Word := 0x00000080
def canTstsRqc1 : Word := 0x00000100
def canTstsTok1 : Word := 0x00000200
def canTstsArq1 : Word := 0x00008000
def canTstsRqc2 : Word := 0x00010000
def canTstsTok2 : Word := 0x00020000
def canTstsArq2 : Word := 0x00800000
def canTstsTsme0 : Word := 0x04000000
def canTstsTsme1 : Word := 0x08000000
def canTstsTsme2 : Word := 0x10000000

/-- `RFFU` and `RFOV` of either FIFO. -/
def canRfRffu : Word := 0x08
def canRfRfov : Word := 0x10
def canRfRrfm : Word := 0x20

def tmidxrTxrq : Word := 0x00000001
def fmFinit : Word := 0x00000001

def canIdStandard : BitVec 8 := 0x00
def canIdExtended : BitVec 8 := 0x04
def canRtrData : BitVec 8 := 0x00
def canRtrRemote : BitVec 8 := 0x02

def canFifo0 : Fin 2 := 0
def canFifo1 : Fin 2 := 1

def canTxStatusFailed : Nat := 0
def canTxStatusOk : Nat := 1
def canTxStatusPending : Nat := 2
def canTxStatusNoMailBox : Nat := 4

/-! ## State -/

structure CanTxMailBox where
  tmi : Word
  tdt : Word
  tdl : Word
  tdh : Word

structure CanFifoMailBox where
  rfi : Word
  rdt : Word
  rdl : Word
  rdh : Word

structure CanFilterRegister where
  fbr1 : Word
  fbr2 : Word
  deriving DecidableEq

structure Can where
  tsts : Word
  rf0 : Word
  rf1 : Word
  txMailBox : Fin 3 → CanTxMailBox
  fifoMailBox : Fin 2 → CanFifoMailBox
  fm : Word
  fm1 : Word
  fs1 : Word
  ffa1 : Word
  fa1 : Word
  filterRegister : Fin 14 → CanFilterRegister
  /-- the filter banks whose scale, mode, FIFO or identifiers were rewritten while they were active -/
  disturbed : Word

abbrev CanProg := Prog Can

/-- `reg = v`, where a 1 written to a bit of `rcW1` clears it and only the bits of `rw` are stored. -/
def storeStatus (rcW1 rw v reg : Word) : Word :=
  (reg &&& ~~~(v &&& rcW1) &&& ~~~rw) ||| (v &&& rw)

/-- The request completed, transmission, arbitration and error bits of the three mailboxes. -/
def canTstsRcW1 : Word := 0x000F0F0F

def canTstsArq : Word := canTstsArq0 ||| canTstsArq1 ||| canTstsArq2

def Can.storeTsts (v : Word) (s : Can) : Can :=
  { s with tsts := storeStatus canTstsRcW1 canTstsArq v s.tsts }

def storeRf (v reg : Word) : Word := storeStatus (canRfRffu ||| canRfRfov) canRfRrfm v reg

/-! ## Transmission -/

/-- `CanTxMsg` -/
structure CanTxMsg where
  stdId : Word
  extId : Word
  idt : BitVec 8
  rtr : BitVec 8
  dlc : BitVec 8
  data : Fin 8 → BitVec 8

def readTsts : CanProg Word := .get fun s => s.tsts

/-- The first mailbox that is seen empty, each looked at in a read of its own. -/
def canEmptyMailBox : CanProg (Option (Fin 3)) := do
  let v0 ← readTsts
  if v0 &&& canTstsTsme0 = canTstsTsme0 then return some 0
  else do
    let v1 ← readTsts
    if v1 &&& canTstsTsme1 = canTstsTsme1 then return some 1
    else do
      let v2 ← readTsts
      if v2 &&& canTstsTsme2 = canTstsTsme2 then return some 2 else return none

def editMailBox (n : Fin 3) (edit : CanTxMailBox → CanTxMailBox) : CanProg Unit :=
  .put fun s => { s with txMailBox := Function.update s.txMailBox n (edit (s.txMailBox n)) }

/-- Four bytes, the first one lowest. -/
def wordOfBytes (b0 b1 b2 b3 : BitVec 8) : Word :=
  b3.setWidth 32 <<< 24 ||| b2.setWidth 32 <<< 16 ||| b1.setWidth 32 <<< 8 ||| b0.setWidth 32

/-- The identifier as it is set in `TMI`. -/
def CanTxMsg.idBits (m : CanTxMsg) : Word :=
  if m.idt = canIdStandard then m.stdId <<< 21 ||| m.rtr.setWidth 32
  else m.extId <<< 3 ||| m.idt.setWidth 32 ||| m.rtr.setWidth 32

/-- The first four bytes in `TDL`, and the other four in `TDH`. -/
def CanTxMsg.tdl (m : CanTxMsg) : Word :=
  wordOfBytes (m.data 0) (m.data 1) (m.data 2) (m.data 3)

def CanTxMsg.tdh (m : CanTxMsg) : Word :=
  wordOfBytes (m.data 4) (m.data 5) (m.data 6) (m.data 7)

/-- `m` is put in mailbox `n`, and its transmission requested. -/
def canFillMailBox (n : Fin 3) (m : CanTxMsg) : CanProg Unit := do
  editMailBox n fun b => { b with tmi := b.tmi &&& tmidxrTxrq }
  editMailBox n fun b => { b with tmi := b.tmi ||| m.idBits }
  editMailBox n fun b => { b with tdt := b.tdt &&& 0xFFFFFFF0 }
  editMailBox n fun b => { b with tdt := b.tdt ||| (m.dlc &&& 0x0F).setWidth 32 }
  editMailBox n fun b => { b with tdl := m.tdl }
  editMailBox n fun b => { b with tdh := m.tdh }
  editMailBox n fun b => { b with tmi := b.tmi ||| tmidxrTxrq }

def canTransmit (m : CanTxMsg) : CanProg Nat := do
  let mailBox ← canEmptyMailBox
  match mailBox with
  | none => return canTxStatusNoMailBox
  | some n => do
      canFillMailBox n m
      return n.val

/-- What `CAN_TransmitStatus` makes of the bits of a mailbox. -/
def canTxStatus (state : Word) : Nat :=
  if state = 0 then canTxStatusPending
  else if state = canTstsRqc0 ||| canTstsTsme0 then canTxStatusFailed
  else if state = canTstsRqc1 ||| canTstsTsme1 then canTxStatusFailed
  else if state = canTstsRqc2 ||| canTstsTsme2 then canTxStatusFailed
  else if state = canTstsRqc0 ||| canTstsTok0 ||| canTstsTsme0 then canTxStatusOk
  else if state = canTstsRqc1 ||| canTstsTok1 ||| canTstsTsme1 then canTxStatusOk
  else if state = canTstsRqc2 ||| canTstsTok2 ||| canTstsTsme2 then canTxStatusOk
  else canTxStatusFailed

/-- `CAN_TransmitStatus`. `CAN_TxStatus_Failed`, which stands for a mailbox that does not exist, is
    itself taken for the bits of one. -/
def canTransmitStatus (transmitMailbox : Nat) (tsts : Word) : Nat :=
  match transmitMailbox with
  | 0 => canTxStatus (tsts &&& (canTstsRqc0 ||| canTstsTok0 ||| canTstsTsme0))
  | 1 => canTxStatus (tsts &&& (canTstsRqc1 ||| canTstsTok1 ||| canTstsTsme1))
  | 2 => canTxStatus (tsts &&& (canTstsRqc2 ||| canTstsTok2 ||| canTstsTsme2))
  | _ => canTxStatus (.ofNat 32 canTxStatusFailed)

/-- `TSTS |= bits` -/
def setTsts (bits : Word) : CanProg Unit := do
  let v ← readTsts
  .put (Can.storeTsts (v ||| bits))

def canCancelTransmit (mailbox : Nat) : CanProg Unit :=
  match mailbox with
  | 0 => setTsts canTstsArq0
  | 1 => setTsts canTstsArq1
  | 2 => setTsts canTstsArq2
  | _ => return

/-! ## Reception -/

/-- `CanRxMsg` -/
structure CanRxMsg where
  stdId : Word
  extId : Word
  idt : BitVec 8
  rtr : BitVec 8
  dlc : BitVec 8
  data : Fin 8 → BitVec 8
  fid : BitVec 8

/-- `RF0 |= RRFM0`, `RF1 |= RRFM1` -/
def canFifoRelease (fifoNumber : Fin 2) : CanProg Unit :=
  if fifoNumber = canFifo0 then do
    let v ← .get fun s => s.rf0
    .put fun s => { s with rf0 := storeRf (v ||| canRfRrfm) s.rf0 }
  else do
    let v ← .get fun s => s.rf1
    .put fun s => { s with rf1 := storeRf (v ||| canRfRrfm) s.rf1 }

/-- `(uint8_t)0xFF & (v >> (8 * k))` -/
def byteOf (v : Word) (k : Nat) : BitVec 8 := ((0xFF : Word) &&& (v >>> (8 * k))).setWidth 8

/-- What the registers of the mailbox hold; an identifier of the other type stays in the buffer. -/
def CanFifoMailBox.message (b : CanFifoMailBox) (rx : CanRxMsg) : CanRxMsg :=
  let idt : BitVec 8 := (0x04 &&& b.rfi).setWidth 8
  { stdId := if idt = canIdStandard then (0x000007FF : Word) &&& (b.rfi >>> 21) else rx.stdId
    extId := if idt = canIdStandard then rx.extId else (0x1FFFFFFF : Word) &&& (b.rfi >>> 3)
    idt := idt
    rtr := (0x02 &&& b.rfi).setWidth 8
    dlc := (0x0F &&& b.rdt).setWidth 8
    fid := byteOf b.rdt 1
    data := fun i => if i.val < 4 then byteOf b.rdl i.val else byteOf b.rdh (i.val - 4) }

/-- `CAN_Receive` into a buffer that holds `rx`. The mailbox holds the message until it is released. -/
def canReceive (fifoNumber : Fin 2) (rx : CanRxMsg) : CanProg CanRxMsg := do
  let b ← .get fun s => s.fifoMailBox fifoNumber
  canFifoRelease fifoNumber
  return b.message rx

/-! ## Filter banks -/

inductive CanFilterMode where
  | idMask
  | idList
  deriving DecidableEq

inductive CanFilterScale where
  | bit16
  | bit32
  deriving DecidableEq

/-- `CAN_FilterInitType`, with values that its asserts accept. -/
structure CanFilterInitType where
  filterIdHigh : BitVec 16
  filterIdLow : BitVec 16
  filterMskIdHigh : BitVec 16
  filterMskIdLow : BitVec 16
  filterFifoAssignment : Fin 2
  filterNumber : Fin 14
  filterMode : CanFilterMode
  filterScale : CanFilterScale
  filterActivation : Bool

def filterBit (n : Fin 14) : Word := (1 : Word) <<< n.val

/-- `reg &= ~bit` or `reg |= bit` -/
def editBit (bit : Word) (set : Bool) (reg : Word) : Word :=
  if set then reg ||| bit else reg &&& ~~~bit

/-- The banks of `changed` that are active count as disturbed. -/
def Can.disturb (changed : Word) (s : Can) : Can :=
  { s with disturbed := s.disturbed ||| (changed &&& s.fa1) }

def storeFs1 (v : Word) : CanProg Unit :=
  .put fun s => { s.disturb (s.fs1 ^^^ v) with fs1 := v }

def storeFm1 (v : Word) : CanProg Unit :=
  .put fun s => { s.disturb (s.fm1 ^^^ v) with fm1 := v }

def storeFfa1 (v : Word) : CanProg Unit :=
  .put fun s => { s.disturb (s.ffa1 ^^^ v) with ffa1 := v }

def editFs1 (bit : Word) (set : Bool) : CanProg Unit := do
  let v ← .get fun s => s.fs1
  storeFs1 (editBit bit set v)

def editFm1 (bit : Word) (set : Bool) : CanProg Unit := do
  let v ← .get fun s => s.fm1
  storeFm1 (editBit bit set v)

def editFfa1 (bit : Word) (set : Bool) : CanProg Unit := do
  let v ← .get fun s => s.ffa1
  storeFfa1 (editBit bit set v)

def editFa1 (bit : Word) (set : Bool) : CanProg Unit := do
  let v ← .get fun s => s.fa1
  .put fun s => { s with fa1 := editBit bit set v }

def editFm (set : Bool) : CanProg Unit := do
  let v ← .get fun s => s.fm
  .put fun s => { s with fm := editBit fmFinit set v }

def storeFbr (n : Fin 14) (edit : CanFilterRegister → CanFilterRegister) : CanProg Unit :=
  .put fun s => { s.disturb (filterBit n) with
    filterRegister := Function.update s.filterRegister n (edit (s.filterRegister n)) }

/-- Two halves, the high one first. -/
def wordOfHalves (high low : BitVec 16) : Word :=
  ((0x0000FFFF : Word) &&& high.setWidth 32) <<< 16 |||
    ((0x0000FFFF : Word) &&& low.setWidth 32)

/-- Scale and identifiers. -/
def canFilterIds (f : CanFilterInitType) : CanProg Unit :=
  match f.filterScale with
  | .bit16 => do
      editFs1 (filterBit f.filterNumber) false
      storeFbr f.filterNumber fun r =>
        { r with fbr1 := wordOfHalves f.filterMskIdLow f.filterIdLow }
      storeFbr f.filterNumber fun r =>
        { r with fbr2 := wordOfHalves f.filterMskIdHigh f.filterIdHigh }
  | .bit32 => do
      editFs1 (filterBit f.filterNumber) true
      storeFbr f.filterNumber fun r =>
        { r with fbr1 := wordOfHalves f.filterIdHigh f.filterIdLow }
      storeFbr f.filterNumber fun r =>
        { r with fbr2 := wordOfHalves f.filterMskIdHigh f.filterMskIdLow }

def canFilterActivate (f : CanFilterInitType) : CanProg Unit :=
  if f.filterActivation then editFa1 (filterBit f.filterNumber) true else return

def canFilterInit (f : CanFilterInitType) : CanProg Unit := do
  editFm true
  editFa1 (filterBit f.filterNumber) false
  canFilterIds f
  editFm1 (filterBit f.filterNumber) (f.filterMode = .idList)
  editFfa1 (filterBit f.filterNumber) (f.filterFifoAssignment = 1)
  canFilterActivate f
  editFm false

end At32
