import McuDrivers.Eth.Basic

set_option autoImplicit false

/-! # Ethernet: what the two DMA engines do on their own

The transmit engine takes the descriptor it is at when OWN is set, sends its frame and closes it; the
receive engine stores a frame into the descriptor it is at when OWN is set, and closes it. To close a
descriptor is to clear OWN and to write the status bits back, and, of a time-stamped descriptor, to
write the time stamp over its third and fourth words. The engine then goes to the next descriptor,
whose address it fetched before. An engine that finds OWN clear says so in `DMASTS`; the receive
engine then sleeps until a poll demand (`EthState.pollRx`) finds OWN set.

These steps are the whole of `EthHw`. Each is atomic, and each may happen at any moment. -/

namespace Eth

/-- Bits 16..0 of a transmit status word, which the engine writes back besides OWN and TTSS. -/
def ethDmaTxDescWriteBack : Word := 0x0001FFFF

/-- The bits of a transmit status word that the engine leaves alone. -/
def ethDmaTxDescControl : Word := 0x7FFC0000

namespace EthState

variable (s : EthState)

/-- The distance of two unchained descriptors: 16 bytes, and DSL words to skip. -/
def dmaSkip : Word := 16 + 4 * ((s.dmaBm &&& ethDmaBmDsl) >>> 2)

/-- The descriptor after the transmit descriptor at `a`. The end of the ring takes precedence. -/
def txNext (a : Word) : Word :=
  if (s.desc a).status &&& ethDmaTxDescTer ≠ 0 then s.dmaTdlAddr
  else if (s.desc a).status &&& ethDmaTxDescTch ≠ 0 then (s.desc a).buffer2NextDescAddr
  else a + s.dmaSkip

/-- The descriptor after the receive descriptor at `a`. -/
def rxNext (a : Word) : Word :=
  if (s.desc a).controlBufferSize &&& ethDmaRxDescRer ≠ 0 then s.dmaRdlAddr
  else if (s.desc a).controlBufferSize &&& ethDmaRxDescRch ≠ 0 then (s.desc a).buffer2NextDescAddr
  else a + s.dmaSkip

/-- The frame in the transmit descriptor at `a`: TBS1 bytes of its first buffer and, if it is not
    chained, TBS2 bytes of its second. -/
def txFrame (a : Word) : List Byte :=
  readBytes s.ram (s.desc a).buffer1Addr
      ((s.desc a).controlBufferSize &&& ethDmaTxDescTbs1).toNat ++
    if (s.desc a).status &&& ethDmaTxDescTch ≠ 0 then []
    else readBytes s.ram (s.desc a).buffer2NextDescAddr
      (((s.desc a).controlBufferSize &&& ethDmaTxDescTbs2) >>> 16).toNat

/-- A transmit descriptor is time-stamped on request (TTSE), a receive descriptor when it holds the
    end of a frame. -/
def TxStamps (a : Word) : Prop :=
  s.timeStamping = true ∧ (s.desc a).status &&& ethDmaTxDescTtse ≠ 0

def RxStamps (status : Word) : Prop :=
  s.timeStamping = true ∧ status &&& ethDmaRxDescLs ≠ 0

instance (a : Word) : Decidable (s.TxStamps a) := inferInstanceAs (Decidable (_ ∧ _))

instance (status : Word) : Decidable (s.RxStamps status) := inferInstanceAs (Decidable (_ ∧ _))

/-- The transmit descriptor at `a`, closed. -/
def txClosed (a wb : Word) (stamp : Word × Word) : EthDmaDesc :=
  let status := (s.desc a).status &&& ethDmaTxDescControl ||| wb &&& ethDmaTxDescWriteBack
  if s.TxStamps a then
    { s.desc a with
      status := status ||| ethDmaTxDescTtss
      buffer1Addr := stamp.1
      buffer2NextDescAddr := stamp.2 }
  else { s.desc a with status := status }

/-- The receive descriptor at `a`, closed. -/
def rxClosed (a status : Word) (stamp : Word × Word) : EthDmaDesc :=
  if s.RxStamps status then
    { s.desc a with
      status := status
      buffer1Addr := stamp.1
      buffer2NextDescAddr := stamp.2 }
  else { s.desc a with status := status }

/-- The transmit engine sends the frame of its current descriptor. -/
def txSend (wb : Word) (stamp : Word × Word) : EthState :=
  { s with
    desc := Function.update s.desc s.txCur (s.txClosed s.txCur wb stamp)
    txCur := s.txNext s.txCur
    sent := s.sent ++ [s.txFrame s.txCur]
    stamped := if s.TxStamps s.txCur then s.stamped ++ [s.txCur] else s.stamped }

/-- The receive engine stores a frame into its current descriptor. -/
def rxFill (a : Arrival) (stamp : Word × Word) : EthState :=
  { s with
    desc := Function.update s.desc s.rxCur (s.rxClosed s.rxCur a.status stamp)
    ram := writeBytes s.ram (s.desc s.rxCur).buffer1Addr a.bytes
    rxCur := s.rxNext s.rxCur
    arrived := s.arrived ++ [a]
    stamped := if s.RxStamps a.status then s.stamped ++ [s.rxCur] else s.stamped }

end EthState

/-- One step of the MAC. What arrives fits the first buffer of the descriptor, of RBS1 bytes: the
    engine spreads a longer frame over several descriptors, each of which is one arrival. -/
inductive EthHw : EthState → EthState → Prop
  | send {s : EthState} (wb : Word) (stamp : Word × Word) (hown : (s.desc s.txCur).Own) :
      EthHw s (s.txSend wb stamp)
  | txUnavailable {s : EthState} (hown : ¬ (s.desc s.txCur).Own) :
      EthHw s { s with dmaSts := s.dmaSts ||| ethDmaStsTbu }
  | fill {s : EthState} (a : Arrival) (stamp : Word × Word) (hown : (s.desc s.rxCur).Own)
      (hawake : s.rxSuspended = false)
      (hfits : a.bytes.length ≤
        ((s.desc s.rxCur).controlBufferSize &&& ethDmaRxDescRbs1).toNat) :
      EthHw s (s.rxFill a stamp)
  | rxUnavailable {s : EthState} (hown : ¬ (s.desc s.rxCur).Own) (hawake : s.rxSuspended = false) :
      EthHw s { s with rxSuspended := true, dmaSts := s.dmaSts ||| ethDmaStsRbu }

/-! ## What closing a descriptor leaves -/

/-- Closing keeps the control bits of a transmit status word. -/
theorem txClose_and {m : Word} (status wb : Word) (hm : ethDmaTxDescControl &&& m = m)
    (hm' : ethDmaTxDescWriteBack &&& m = 0) :
    (status &&& ethDmaTxDescControl ||| wb &&& ethDmaTxDescWriteBack) &&& m = status &&& m := by
  rw [BitVec.and_or_distrib_right, Mask.and_and_of_subset _ hm, Mask.and_and_of_disjoint _ hm']
  exact BitVec.or_zero

/-- Closing clears OWN. -/
theorem txClose_own (status wb : Word) :
    (status &&& ethDmaTxDescControl ||| wb &&& ethDmaTxDescWriteBack) &&& ethDmaTxDescOwn = 0 := by
  rw [BitVec.and_or_distrib_right, Mask.and_and_of_disjoint _ (by decide),
    Mask.and_and_of_disjoint _ (by decide)]
  rfl

theorem txClosed_eq {s : EthState} (hs : s.timeStamping = false) (a wb : Word)
    (stamp : Word × Word) :
    s.txClosed a wb stamp =
      { s.desc a with
        status := (s.desc a).status &&& ethDmaTxDescControl ||| wb &&& ethDmaTxDescWriteBack } := by
  simp [EthState.txClosed, EthState.TxStamps, hs]

theorem rxClosed_eq {s : EthState} (hs : s.timeStamping = false) (a status : Word)
    (stamp : Word × Word) : s.rxClosed a status stamp = { s.desc a with status := status } := by
  simp [EthState.rxClosed, EthState.RxStamps, hs]

/-- Stamped or not, a closed transmit descriptor keeps its control bits. -/
theorem txClosed_and (mask : Word) (s : EthState) (a wb : Word) (stamp : Word × Word)
    (hm : ethDmaTxDescControl &&& mask = mask) (hwb : ethDmaTxDescWriteBack &&& mask = 0)
    (httss : ethDmaTxDescTtss &&& mask = 0) :
    (s.txClosed a wb stamp).status &&& mask = (s.desc a).status &&& mask := by
  unfold EthState.txClosed
  split
  · exact (Mask.or_and_of_disjoint _ httss).trans (txClose_and _ _ hm hwb)
  · exact txClose_and _ _ hm hwb

theorem rxClosed_size (s : EthState) (a status : Word) (stamp : Word × Word) :
    (s.rxClosed a status stamp).controlBufferSize = (s.desc a).controlBufferSize := by
  unfold EthState.rxClosed
  split <;> rfl

theorem rxClosed_status (s : EthState) (a status : Word) (stamp : Word × Word) :
    (s.rxClosed a status stamp).status = status := by
  unfold EthState.rxClosed
  split <;> rfl

theorem txClosed_not_own (s : EthState) (a wb : Word) (stamp : Word × Word) :
    ¬ (s.txClosed a wb stamp).Own := by
  rw [EthDmaDesc.Own, not_not]
  unfold EthState.txClosed
  split
  · exact (Mask.or_and_of_disjoint _ (by decide)).trans (txClose_own _ _)
  · exact txClose_own _ _

/-- The engines touch no descriptor but their own. -/
theorem EthHw.desc_free {s s' : EthState} (hs : EthHw s s') {a : Word} (hfree : ¬ (s.desc a).Own) :
    s'.desc a = s.desc a := by
  cases hs with
  | send wb stamp hown =>
      have ha : a ≠ s.txCur := by
        rintro rfl
        exact hfree hown
      exact Function.update_of_ne ha _ _
  | txUnavailable hown => rfl
  | fill b stamp hown hawake hfits =>
      have ha : a ≠ s.rxCur := by
        rintro rfl
        exact hfree hown
      exact Function.update_of_ne ha _ _
  | rxUnavailable hown hawake => rfl

end Eth
