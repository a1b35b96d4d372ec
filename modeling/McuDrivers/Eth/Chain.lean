import McuDrivers.Eth.Dma
import McuDrivers.Library.Ring
import McuDrivers.Library.Interleave

set_option autoImplicit false

/-! # Ethernet: the descriptor chains

The assertions about a transmit table of `n` and a receive table of `m` descriptors in chain mode.

`Wired` is what never changes: every descriptor has its buffer and the link to its neighbour, and
the four cursors, the processor's and the engines', are where their counters say. `TxRing` and
`RxRing` say that the OWN bits make each table a bounded queue (`Ring.Holds`): a transmit descriptor
is full while the DMA owns it, a receive descriptor while the processor does. The hardware keeps all
three, whatever the processor is in the middle of. -/

namespace Eth

/-- The two descriptor tables of a driver and their packet buffers: objects of C, so they are
    disjoint, they do not wrap, and none is at NULL. -/
structure Layout (n m : Nat) where
  tx : Region 32 16 n
  rx : Region 32 16 m
  txBuf : Region 32 ethMaxPacketSize n
  rxBuf : Region 32 ethMaxPacketSize m
  tx_pos : 0 < n
  rx_pos : 0 < m
  tx_base : tx.base ≠ 0
  rx_base : rx.base ≠ 0
  desc_disjoint : tx.Disjoint rx
  buf_disjoint : txBuf.Disjoint rxBuf

/-- The tables of the lwIP port, two descriptors to transmit and four to receive, with their buffers
    behind them in SRAM. -/
def sramLayout : Layout 2 4 where
  tx := ⟨0x20000000, by decide⟩
  rx := ⟨0x20000020, by decide⟩
  txBuf := ⟨0x20000060, by decide⟩
  rxBuf := ⟨0x20000c40, by decide⟩
  tx_pos := by decide
  rx_pos := by decide
  tx_base := by decide
  rx_base := by decide
  desc_disjoint := by decide
  buf_disjoint := by decide

/-- A good frame of five bytes: one, and the CRC. -/
def goodArrival : Arrival where
  status := 0x00050300
  bytes := [1, 2, 3, 4, 5]
  notOwn := by decide
  goodLength := by decide

/-- An error frame. -/
def badArrival : Arrival where
  status := 0x00058300
  bytes := [1, 2, 3, 4, 5]
  notOwn := by decide
  goodLength := by decide

/-- A good frame of no bytes but its CRC. -/
def crcArrival : Arrival where
  status := 0x00040300
  bytes := [1, 2, 3, 4]
  notOwn := by decide
  goodLength := by decide

variable {n m : Nat} (L : Layout n m)

/-! ## Wiring -/

/-- What stays true of the `i`-th transmit descriptor. -/
structure TxWired (i : Nat) (d : EthDmaDesc) : Prop where
  tch : d.status &&& ethDmaTxDescTch ≠ 0
  ter : d.status &&& ethDmaTxDescTer = 0
  buffer : d.buffer1Addr = L.txBuf.slot i
  link : d.buffer2NextDescAddr = L.tx.slot ((i + 1) % n)

/-- What stays true of the `i`-th receive descriptor. -/
structure RxWired (i : Nat) (d : EthDmaDesc) : Prop where
  rch : d.controlBufferSize &&& ethDmaRxDescRch ≠ 0
  rer : d.controlBufferSize &&& ethDmaRxDescRer = 0
  size : (d.controlBufferSize &&& ethDmaRxDescRbs1).toNat = ethMaxPacketSize
  buffer : d.buffer1Addr = L.rxBuf.slot i
  link : d.buffer2NextDescAddr = L.rx.slot ((i + 1) % m)

structure Wired (s : EthState) : Prop where
  tx : ∀ i, i < n → TxWired L i (s.desc (L.tx.slot i))
  rx : ∀ i, i < m → RxWired L i (s.desc (L.rx.slot i))
  txCursor : s.dmaTxDescToSet = L.tx.slot (s.txMoves % n)
  rxCursor : s.dmaRxDescToGet = L.rx.slot (s.rxMoves % m)
  txEngine : s.txCur = L.tx.slot (s.sent.length % n)
  rxEngine : s.rxCur = L.rx.slot (s.arrived.length % m)
  plain : s.timeStamping = false

variable {L}

theorem Layout.tx_mod (L : Layout n m) (k : Nat) : k % n < n := Nat.mod_lt k L.tx_pos

theorem Layout.rx_mod (L : Layout n m) (k : Nat) : k % m < m := Nat.mod_lt k L.rx_pos

theorem Layout.tx_ne_rx (L : Layout n m) {i j : Nat} (hi : i < n) (hj : j < m) :
    L.tx.slot i ≠ L.rx.slot j :=
  L.desc_disjoint.slot_ne (by decide) (by decide) hi hj

theorem Layout.tx_ne_tx (L : Layout n m) {i j : Nat} (hi : i < n) (hj : j < n) (h : i ≠ j) :
    L.tx.slot i ≠ L.tx.slot j :=
  fun heq => h ((L.tx.slot_inj (by decide) hi hj).mp heq)

theorem Layout.rx_ne_rx (L : Layout n m) {i j : Nat} (hi : i < m) (hj : j < m) (h : i ≠ j) :
    L.rx.slot i ≠ L.rx.slot j :=
  fun heq => h ((L.rx.slot_inj (by decide) hi hj).mp heq)

/-- The engine's next descriptor is the neighbour. -/
theorem Wired.txNext_eq {s : EthState} (h : Wired L s) (k : Nat) :
    s.txNext (L.tx.slot (k % n)) = L.tx.slot ((k + 1) % n) := by
  have hi := h.tx _ (L.tx_mod k)
  rw [EthState.txNext, if_neg (not_not_intro hi.ter), if_pos hi.tch, hi.link, Nat.mod_add_mod]

theorem Wired.rxNext_eq {s : EthState} (h : Wired L s) (k : Nat) :
    s.rxNext (L.rx.slot (k % m)) = L.rx.slot ((k + 1) % m) := by
  have hi := h.rx _ (L.rx_mod k)
  rw [EthState.rxNext, if_neg (not_not_intro hi.rer), if_pos hi.rch, hi.link, Nat.mod_add_mod]

/-! ## The hardware keeps the wiring -/

theorem Wired.hw {s s' : EthState} (h : Wired L s) (hs : EthHw s s') : Wired L s' := by
  cases hs with
  | send wb stamp hown =>
      have hcur := h.txEngine
      have hlt := L.tx_mod s.sent.length
      refine { h with tx := fun i hi => ?_, rx := fun i hi => ?_, txEngine := ?_ }
      · simp only [EthState.txSend, txClosed_eq h.plain, hcur]
        by_cases heq : i = s.sent.length % n
        · rw [heq, Function.update_self]
          have hi' := h.tx _ hlt
          refine ⟨?_, ?_, hi'.buffer, hi'.link⟩
          · rw [txClose_and _ _ (by decide) (by decide)]
            exact hi'.tch
          · rw [txClose_and _ _ (by decide) (by decide)]
            exact hi'.ter
        · rw [Function.update_of_ne (L.tx_ne_tx hi hlt heq)]
          exact h.tx i hi
      · simp only [EthState.txSend, hcur]
        rw [Function.update_of_ne (L.tx_ne_rx hlt hi).symm]
        exact h.rx i hi
      · simp only [EthState.txSend, List.length_append, List.length_cons, List.length_nil, hcur]
        exact h.txNext_eq _
  | txUnavailable hown => exact { h with }
  | fill a stamp hown hawake hfits =>
      have hcur := h.rxEngine
      have hlt := L.rx_mod s.arrived.length
      refine { h with tx := fun i hi => ?_, rx := fun i hi => ?_, rxEngine := ?_ }
      · simp only [EthState.rxFill, hcur]
        rw [Function.update_of_ne (L.tx_ne_rx hi hlt)]
        exact h.tx i hi
      · simp only [EthState.rxFill, rxClosed_eq h.plain, hcur]
        by_cases heq : i = s.arrived.length % m
        · rw [heq, Function.update_self]
          exact { h.rx _ hlt with }
        · rw [Function.update_of_ne (L.rx_ne_rx hi hlt heq)]
          exact h.rx i hi
      · simp only [EthState.rxFill, List.length_append, List.length_cons, List.length_nil, hcur]
        exact h.rxNext_eq _
  | rxUnavailable hown hawake => exact { h with }

/-! ## The queues -/

/-- A transmit descriptor that holds the frame `x`. -/
structure TxHolds (L : Layout n m) (s : EthState) (i : Nat) (x : List Byte) : Prop where
  own : (s.desc (L.tx.slot i)).Own
  frame : s.txFrame (L.tx.slot i) = x
  short : x.length ≤ ethMaxPacketSize

/-- A receive descriptor that holds what arrived as `a`. -/
structure RxHolds (L : Layout n m) (s : EthState) (i : Nat) (a : Arrival) : Prop where
  status : (s.desc (L.rx.slot i)).status = a.status
  bytes : readBytes s.ram (L.rxBuf.slot i) a.bytes.length = a.bytes
  short : a.bytes.length ≤ ethMaxPacketSize

/-- The transmit table as a queue: `accepted` lists all frames ever given to it, of which the first
    `sent.length` were sent. The processor's cursor has moved `k` times. -/
structure TxRing (L : Layout n m) (accepted : List (List Byte)) (k : Nat) (s : EthState) :
    Prop where
  wired : Wired L s
  moves : s.txMoves = k
  queue : Ring.Holds n (TxHolds L s) (fun i => ¬ (s.desc (L.tx.slot i)).Own) accepted s.sent.length
  sent : s.sent <+: accepted

/-- The receive table as a queue: `past` lists what arrived and was given back, and is the beginning
    of all that arrived. The processor's cursor has moved `k` times. -/
structure RxRing (L : Layout n m) (past : List Arrival) (k : Nat) (s : EthState) : Prop where
  wired : Wired L s
  moves : s.rxMoves = k
  queue : Ring.Holds m (RxHolds L s) (fun i => (s.desc (L.rx.slot i)).Own) s.arrived past.length
  past : past <+: s.arrived

theorem RxHolds.not_own {s : EthState} {i : Nat} {a : Arrival} (h : RxHolds L s i a) :
    ¬ (s.desc (L.rx.slot i)).Own := by
  rw [EthDmaDesc.Own, h.status]
  exact not_not_intro a.notOwn

/-- The frame in a wired descriptor. -/
theorem Wired.txFrame_eq {s : EthState} (h : Wired L s) {i : Nat} (hi : i < n) :
    s.txFrame (L.tx.slot i) = readBytes s.ram (L.txBuf.slot i)
      ((s.desc (L.tx.slot i)).controlBufferSize &&& ethDmaTxDescTbs1).toNat := by
  have hw := h.tx i hi
  rw [EthState.txFrame, if_pos hw.tch, hw.buffer, List.append_nil]

/-- A descriptor keeps its frame while neither it nor its buffer is touched. -/
theorem TxHolds.congr {s s' : EthState} (hw : Wired L s) (hw' : Wired L s') {i : Nat} {x : List Byte}
    (hi : i < n) (h : TxHolds L s i x) (hdesc : s'.desc (L.tx.slot i) = s.desc (L.tx.slot i))
    (hram : ∀ j, j < ethMaxPacketSize → s'.ram (L.txBuf.byte i j) = s.ram (L.txBuf.byte i j)) :
    TxHolds L s' i x := by
  have hframe := h.frame
  refine ⟨hdesc ▸ h.own, ?_, h.short⟩
  rw [hw.txFrame_eq hi] at hframe
  have hlen := congrArg List.length hframe
  rw [readBytes_length] at hlen
  rw [hw'.txFrame_eq hi, hdesc, ← hframe]
  refine readBytes_congr fun j hj => hram j ?_
  have := h.short
  omega

theorem RxHolds.congr {s s' : EthState} {i : Nat} {a : Arrival} (h : RxHolds L s i a)
    (hdesc : s'.desc (L.rx.slot i) = s.desc (L.rx.slot i))
    (hram : ∀ j, j < ethMaxPacketSize → s'.ram (L.rxBuf.byte i j) = s.ram (L.rxBuf.byte i j)) :
    RxHolds L s' i a := by
  refine ⟨hdesc ▸ h.status, ?_, h.short⟩
  rw [← h.bytes]
  simp only [readBytes_length]
  refine readBytes_congr fun j hj => hram j ?_
  have := h.short
  omega

/-- What happens elsewhere leaves the transmit queue alone. -/
theorem TxRing.frame {accepted : List (List Byte)} {k : Nat} {s s' : EthState}
    (h : TxRing L accepted k s) (hw : Wired L s') (hmoves : s'.txMoves = s.txMoves)
    (hsent : s'.sent = s.sent)
    (hdesc : ∀ i, i < n → s'.desc (L.tx.slot i) = s.desc (L.tx.slot i))
    (hram : ∀ i j, i < n → j < ethMaxPacketSize →
      s'.ram (L.txBuf.byte i j) = s.ram (L.txBuf.byte i j)) :
    TxRing L accepted k s' where
  wired := hw
  moves := hmoves.trans h.moves
  queue := by
    rw [hsent]
    refine h.queue.transfer L.tx_pos (fun i x hi hx => ?_) (fun i hi hfree => ?_)
    · exact hx.congr h.wired hw hi (hdesc i hi) fun j hj => hram i j hi hj
    · rwa [hdesc i hi]
  sent := hsent ▸ h.sent

/-- What happens elsewhere leaves the receive queue alone. -/
theorem RxRing.frame {past : List Arrival} {k : Nat} {s s' : EthState} (h : RxRing L past k s)
    (hw : Wired L s') (hmoves : s'.rxMoves = s.rxMoves) (harrived : s'.arrived = s.arrived)
    (hdesc : ∀ i, i < m → s'.desc (L.rx.slot i) = s.desc (L.rx.slot i))
    (hram : ∀ i j, i < m → j < ethMaxPacketSize →
      s'.ram (L.rxBuf.byte i j) = s.ram (L.rxBuf.byte i j)) :
    RxRing L past k s' where
  wired := hw
  moves := hmoves.trans h.moves
  queue := by
    rw [harrived]
    refine h.queue.transfer L.rx_pos (fun i x hi hx => ?_) (fun i hi hfree => ?_)
    · exact hx.congr (hdesc i hi) fun j hj => hram i j hi hj
    · rwa [hdesc i hi]
  past := harrived ▸ h.past

/-! ## The hardware keeps the queues -/

/-- The receive engine stores into receive buffers only. -/
theorem Wired.rxFill_ram {s : EthState} (h : Wired L s) (a : Arrival) (stamp : Word × Word)
    (hfits : a.bytes.length ≤
      ((s.desc s.rxCur).controlBufferSize &&& ethDmaRxDescRbs1).toNat) :
    (∀ i j, i < n → j < ethMaxPacketSize →
      (s.rxFill a stamp).ram (L.txBuf.byte i j) = s.ram (L.txBuf.byte i j)) ∧
    (∀ i j, i < m → i ≠ s.arrived.length % m → j < ethMaxPacketSize →
      (s.rxFill a stamp).ram (L.rxBuf.byte i j) = s.ram (L.rxBuf.byte i j)) := by
  have hlt := L.rx_mod s.arrived.length
  have hcur := h.rx _ hlt
  rw [h.rxEngine, hcur.size] at hfits
  simp only [EthState.rxFill, h.rxEngine, hcur.buffer]
  refine ⟨fun i j hi hj => writeBytes_other _ fun j' hj' => ?_,
    fun i j hi hne hj => writeBytes_other _ fun j' hj' heq => hne ?_⟩
  · exact L.buf_disjoint.byte_ne hi hj hlt (by omega)
  · exact ((L.rxBuf.byte_inj hi hj hlt (by omega)).mp heq).1

theorem TxRing.hw {accepted : List (List Byte)} {k : Nat} {s s' : EthState}
    (h : TxRing L accepted k s) (hs : EthHw s s') : TxRing L accepted k s' := by
  have hw := h.wired.hw hs
  cases hs with
  | send wb stamp hown =>
      have hcur := h.wired.txEngine
      have hlt := L.tx_mod s.sent.length
      rw [hcur] at hown
      -- The engine's cell is full, so the queue is not empty, and its head is that cell.
      have hne : s.sent.length < accepted.length := by
        have hle := h.queue.head_le
        have hhead := h.queue.free_head_iff (fun i x hx hfree => hfree hx.own) L.tx_pos
        by_contra hge
        exact hhead.mpr (by omega) hown
      have hcell := h.queue.cell _ _ (Nat.le_refl _) (List.getElem?_eq_getElem hne)
      have hsent : (s.txSend wb stamp).sent = s.sent ++ [accepted[s.sent.length]] := by
        simp only [EthState.txSend, hcur, hcell.frame]
      have hdesc : ∀ i, i < n → i ≠ s.sent.length % n →
          (s.txSend wb stamp).desc (L.tx.slot i) = s.desc (L.tx.slot i) := by
        intro i hi hne
        simp only [EthState.txSend, hcur]
        exact Function.update_of_ne (L.tx_ne_tx hi hlt hne) _ _
      refine ⟨hw, h.moves, ?_, ?_⟩
      · rw [hsent, List.length_append, List.length_cons, List.length_nil]
        refine h.queue.pop hne ?_ (fun i x hi hne hx => ?_) (fun i hi hne hfree => ?_)
        · simp only [EthState.txSend, hcur, Function.update_self, txClosed_eq h.wired.plain]
          exact not_not_intro (txClose_own _ _)
        · exact hx.congr h.wired hw hi (hdesc i hi hne) fun j _ => rfl
        · rwa [hdesc i hi hne]
      · rw [hsent]
        obtain ⟨t, ht⟩ := h.sent
        refine ⟨t.tail, ?_⟩
        have hpos : accepted[s.sent.length] :: t.tail = t := by
          have hlen := congrArg List.length ht
          rw [List.length_append] at hlen
          cases t with
          | nil => simp at hlen; omega
          | cons x t => simp [← ht]
        rw [List.append_assoc, List.singleton_append, hpos, ht]
  | txUnavailable hown => exact h.frame hw rfl rfl (fun _ _ => rfl) fun _ _ _ _ => rfl
  | fill a stamp hown hawake hfits =>
      refine h.frame hw rfl rfl (fun i hi => ?_) (h.wired.rxFill_ram a stamp hfits).1
      simp only [EthState.rxFill, h.wired.rxEngine]
      exact Function.update_of_ne (L.tx_ne_rx hi (L.rx_mod _)) _ _
  | rxUnavailable hown hawake => exact h.frame hw rfl rfl (fun _ _ => rfl) fun _ _ _ _ => rfl

theorem RxRing.hw {past : List Arrival} {k : Nat} {s s' : EthState} (h : RxRing L past k s)
    (hs : EthHw s s') : RxRing L past k s' := by
  have hw := h.wired.hw hs
  cases hs with
  | send wb stamp hown =>
      refine h.frame hw rfl rfl (fun i hi => ?_) fun _ _ _ _ => rfl
      simp only [EthState.txSend, h.wired.txEngine]
      exact Function.update_of_ne (L.tx_ne_rx (L.tx_mod _) hi).symm _ _
  | txUnavailable hown => exact h.frame hw rfl rfl (fun _ _ => rfl) fun _ _ _ _ => rfl
  | fill a stamp hown hawake hfits =>
      have hcur := h.wired.rxEngine
      have hlt := L.rx_mod s.arrived.length
      have hram := (h.wired.rxFill_ram a stamp hfits).2
      have hbuf := (h.wired.rx _ hlt).buffer
      rw [hcur, (h.wired.rx _ hlt).size] at hfits
      rw [hcur] at hown
      have hroom := (h.queue.free_tail_iff (fun i x hx => hx.not_own) L.rx_pos).mp hown
      have hdesc : ∀ i, i < m → i ≠ s.arrived.length % m →
          (s.rxFill a stamp).desc (L.rx.slot i) = s.desc (L.rx.slot i) := by
        intro i hi hne
        simp only [EthState.rxFill, hcur]
        exact Function.update_of_ne (L.rx_ne_rx hi hlt hne) _ _
      refine ⟨hw, h.moves, h.queue.push hroom ?_ (fun i x hi hne hx => ?_) (fun i hi hne hx => ?_),
        h.past.trans (List.prefix_append _ _)⟩
      · refine ⟨?_, ?_, hfits⟩
        · simp only [EthState.rxFill, hcur, Function.update_self, rxClosed_eq h.wired.plain]
        · simp only [EthState.rxFill, hcur, hbuf]
          refine readBytes_writeBytes _ _ _ ?_
          have : ethMaxPacketSize ≤ 2 ^ 32 := by decide
          omega
      · exact hx.congr (hdesc i hi hne) fun j hj => hram i j hi hne hj
      · rwa [hdesc i hi hne]
  | rxUnavailable hown hawake => exact h.frame hw rfl rfl (fun _ _ => rfl) fun _ _ _ _ => rfl

end Eth
