import McuDrivers.Eth.Chain
import McuDrivers.Eth.Driver

set_option autoImplicit false

/-! # Ethernet: `ETH_HandleTxPkt` on a chain

While the processor fills the descriptor at its cursor, OWN is clear there, so that nobody else
touches the descriptor or its buffer: `TxOpen` holds the exact content of both. Setting OWN is the
one access that gives the frame away, and with it the assertion goes from `TxOpen` to the `TxRing`
of one more frame. -/

namespace Eth

variable {n m : Nat}

/-- What a single access of a transmit call can be. -/
inductive TxAccess (L : Layout n m) : EthState → EthState → Prop
  /-- a load -/
  | read {s : EthState} : TxAccess L s s
  /-- a byte, stored into the buffer of the descriptor at the cursor, which is free -/
  | byte {s : EthState} (i j : Nat) (b : Byte) (hi : i < n) (hj : j < ethMaxPacketSize)
      (hcursor : s.dmaTxDescToSet = L.tx.slot i) (hfree : ¬ (s.desc (L.tx.slot i)).Own) :
      TxAccess L s (s.putByte (L.txBuf.byte i j) b)
  /-- a word of the descriptor at the cursor, which is free -/
  | desc {s : EthState} (i : Nat) (d : EthDmaDesc) (hi : i < n)
      (hcursor : s.dmaTxDescToSet = L.tx.slot i) (hfree : ¬ (s.desc (L.tx.slot i)).Own)
      (hd : TxWired L i d) : TxAccess L s (s.putDesc (L.tx.slot i) d)
  /-- the status register -/
  | sts {s : EthState} (v : Word) : TxAccess L s { s with dmaSts := v }
  /-- the cursor, to the neighbour -/
  | move {s : EthState} :
      TxAccess L s
        { s with
          dmaTxDescToSet := L.tx.slot ((s.txMoves + 1) % n)
          txMoves := s.txMoves + 1 }

variable {L : Layout n m}

theorem TxAccess.wired {s s' : EthState} (h : TxAccess L s s') (hw : Wired L s) : Wired L s' := by
  cases h with
  | read => exact hw
  | byte i j b hi hj hcursor hfree => exact { hw with }
  | desc i d hi hcursor hfree hd =>
      refine { hw with tx := fun i' hi' => ?_, rx := fun j hj => ?_ }
      · by_cases heq : i' = i
        · subst heq
          rw [s.putDesc_self]
          exact hd
        · rw [s.putDesc_other d (L.tx_ne_tx hi' hi heq)]
          exact hw.tx i' hi'
      · rw [s.putDesc_other d (L.tx_ne_rx hi hj).symm]
        exact hw.rx j hj
  | sts v => exact { hw with }
  | move => exact { hw with txCursor := rfl }

/-- A transmit call does nothing to the receive table. -/
theorem TxAccess.rxRing {past : List Arrival} {k : Nat} {s s' : EthState} (h : TxAccess L s s')
    (hr : RxRing L past k s) : RxRing L past k s' := by
  have hw := h.wired hr.wired
  cases h with
  | read => exact hr
  | byte i j b hi hj hcursor hfree =>
      refine hr.frame hw rfl rfl (fun _ _ => rfl) fun i' j' hi' hj' => ?_
      exact s.putByte_other b (L.buf_disjoint.byte_ne hi hj hi' hj').symm
  | desc i d hi hcursor hfree hd =>
      refine hr.frame hw rfl rfl (fun i' hi' => ?_) fun _ _ _ _ => rfl
      exact s.putDesc_other d (L.tx_ne_rx hi hi').symm
  | sts v => exact hr.frame hw rfl rfl (fun _ _ => rfl) fun _ _ _ _ => rfl
  | move => exact hr.frame hw rfl rfl (fun _ _ => rfl) fun _ _ _ _ => rfl

/-- A store of a transmit call goes to a free buffer. -/
theorem TxAccess.stored {s s' : EthState} {a : Word} (h : TxAccess L s s')
    (ha : s'.stored = s.stored ++ [a]) :
    ∃ i j, i < n ∧ j < ethMaxPacketSize ∧ a = L.txBuf.byte i j ∧
      ¬ (s.desc (L.tx.slot i)).Own := by
  cases h with
  | read => simp at ha
  | byte i j b hi hj hcursor hfree =>
      have heq : s.stored ++ [L.txBuf.byte i j] = s.stored ++ [a] := ha
      rw [List.append_cancel_left_eq, List.singleton_inj] at heq
      exact ⟨i, j, hi, hj, heq.symm, hfree⟩
  | desc i d hi hcursor hfree hd =>
      have heq : s.stored = s.stored ++ [a] := ha
      simp at heq
  | sts v => simp at ha
  | move => simp at ha

/-- The processor holds the descriptor at its cursor, with content `d`; its buffer begins with the
    bytes `pre`. -/
structure TxOpen (L : Layout n m) (accepted : List (List Byte)) (d : EthDmaDesc) (pre : List Byte)
    (s : EthState) : Prop where
  ring : TxRing L accepted accepted.length s
  desc : s.desc (L.tx.slot (accepted.length % n)) = d
  free : ¬ d.Own
  bytes : readBytes s.ram (L.txBuf.slot (accepted.length % n)) pre.length = pre
  short : pre.length ≤ ethMaxPacketSize

variable {accepted : List (List Byte)} {d : EthDmaDesc} {pre : List Byte} {k : Nat}

theorem TxRing.cursor {s : EthState} (h : TxRing L accepted k s) :
    s.dmaTxDescToSet = L.tx.slot (k % n) := by
  rw [h.wired.txCursor, h.moves]

theorem TxOpen.cursor {s : EthState} (h : TxOpen L accepted d pre s) :
    s.dmaTxDescToSet = L.tx.slot (accepted.length % n) := h.ring.cursor

theorem TxOpen.wiredDesc {s : EthState} (h : TxOpen L accepted d pre s) :
    TxWired L (accepted.length % n) d :=
  h.desc ▸ h.ring.wired.tx _ (L.tx_mod _)

/-- A free descriptor at the cursor is open. -/
theorem TxRing.open {s : EthState} (h : TxRing L accepted accepted.length s)
    (hfree : ¬ (s.desc s.dmaTxDescToSet).Own) :
    TxOpen L accepted (s.desc s.dmaTxDescToSet) [] s where
  ring := h
  desc := by rw [h.cursor]
  free := hfree
  bytes := rfl
  short := Nat.zero_le _

/-! ## Stability -/

theorem TxRing.stable : Prog.Stable EthHw (TxRing L accepted k) := fun _ _ h hs => h.hw hs

theorem TxOpen.stable : Prog.Stable EthHw (TxOpen L accepted d pre) := by
  intro s s' h hs
  have hlt := L.tx_mod accepted.length
  have hring := h.ring.hw hs
  cases hs with
  | send wb stamp hown =>
      refine ⟨hring, ?_, h.free, h.bytes, h.short⟩
      -- the engine is elsewhere, because what it sends from is not free
      have hne : L.tx.slot (accepted.length % n) ≠ s.txCur := by
        intro heq
        rw [← heq, h.desc] at hown
        exact h.free hown
      exact (Function.update_of_ne hne _ _).trans h.desc
  | txUnavailable hown => exact ⟨hring, h.desc, h.free, h.bytes, h.short⟩
  | fill a stamp hown hawake hfits =>
      refine ⟨hring, ?_, h.free, ?_, h.short⟩
      · have hne : L.tx.slot (accepted.length % n) ≠ s.rxCur := by
          rw [h.ring.wired.rxEngine]
          exact L.tx_ne_rx hlt (L.rx_mod _)
        exact (Function.update_of_ne hne _ _).trans h.desc
      · have hram := (h.ring.wired.rxFill_ram a stamp hfits).1
        have hshort := h.short
        refine (readBytes_congr fun j hj => hram _ j hlt ?_).trans h.bytes
        omega
  | rxUnavailable hown hawake => exact ⟨hring, h.desc, h.free, h.bytes, h.short⟩

/-! ## The accesses to an open descriptor -/

/-- Storing the next byte. -/
theorem TxOpen.byte {s : EthState} (h : TxOpen L accepted d pre s)
    (hroom : pre.length < ethMaxPacketSize) (b : Byte) :
    TxAccess L s (s.putByte (L.txBuf.byte (accepted.length % n) pre.length) b) ∧
      TxOpen L accepted d (pre ++ [b])
        (s.putByte (L.txBuf.byte (accepted.length % n) pre.length) b) := by
  have hlt := L.tx_mod accepted.length
  have hfree : ¬ (s.desc (L.tx.slot (accepted.length % n))).Own := by
    rw [h.desc]
    exact h.free
  have hacc : TxAccess L s _ := .byte _ _ b hlt hroom h.cursor hfree
  have hw := hacc.wired h.ring.wired
  have hne : ∀ i j, i < n → j < ethMaxPacketSize → (i ≠ accepted.length % n ∨ j ≠ pre.length) →
      (s.putByte (L.txBuf.byte (accepted.length % n) pre.length) b).ram (L.txBuf.byte i j) =
        s.ram (L.txBuf.byte i j) := by
    intro i j hi hj hne
    refine s.putByte_other b fun heq => ?_
    have := (L.txBuf.byte_inj hi hj hlt hroom).mp heq
    omega
  refine ⟨hacc, ⟨hw, h.ring.moves, ?_, h.ring.sent⟩, h.desc, h.free, ?_, ?_⟩
  · refine h.ring.queue.transfer L.tx_pos (fun i x hi hx => ?_) fun i _ hi => hi
    refine hx.congr h.ring.wired hw hi rfl fun j hj => hne i j hi hj (.inl ?_)
    rintro rfl
    exact hfree hx.own
  · rw [List.length_append, List.length_singleton, readBytes_succ]
    congr 1
    · refine (readBytes_congr fun j hj => ?_).trans h.bytes
      exact hne _ j hlt (by omega) (.inr (by omega))
    · exact congrArg (fun x => [x]) (s.putByte_self _ b)
  · rw [List.length_append, List.length_singleton]
    exact hroom

/-- Storing a word of the descriptor, without setting OWN. -/
theorem TxOpen.store {s : EthState} (h : TxOpen L accepted d pre s) {d' : EthDmaDesc}
    (hd : TxWired L (accepted.length % n) d') (hfree : ¬ d'.Own) :
    TxAccess L s (s.putDesc (L.tx.slot (accepted.length % n)) d') ∧
      TxOpen L accepted d' pre (s.putDesc (L.tx.slot (accepted.length % n)) d') := by
  have hlt := L.tx_mod accepted.length
  have hown : ¬ (s.desc (L.tx.slot (accepted.length % n))).Own := by
    rw [h.desc]
    exact h.free
  have hacc : TxAccess L s _ := .desc _ d' hlt h.cursor hown hd
  have hw := hacc.wired h.ring.wired
  refine ⟨hacc, ⟨hw, h.ring.moves, ?_, h.ring.sent⟩, s.putDesc_self _ _, hfree, h.bytes, h.short⟩
  refine h.ring.queue.transfer L.tx_pos (fun i x hi hx => ?_) fun i hi hi' => ?_
  · refine hx.congr h.ring.wired hw hi (s.putDesc_other d' (L.tx_ne_tx hi hlt ?_))
      fun j _ => rfl
    rintro rfl
    exact hown hx.own
  · by_cases heq : i = accepted.length % n
    · subst heq
      rwa [s.putDesc_self]
    · rwa [s.putDesc_other d' (L.tx_ne_tx hi hlt heq)]

/-- Storing the status word with OWN set: the bytes `pre` become a frame of the queue. -/
theorem TxOpen.give {s : EthState} (h : TxOpen L accepted d pre s) {d' : EthDmaDesc}
    (hd : TxWired L (accepted.length % n) d') (hown : d'.Own)
    (hlen : (d'.controlBufferSize &&& ethDmaTxDescTbs1).toNat = pre.length) :
    TxAccess L s (s.putDesc (L.tx.slot (accepted.length % n)) d') ∧
      TxRing L (accepted ++ [pre]) accepted.length
        (s.putDesc (L.tx.slot (accepted.length % n)) d') := by
  have hlt := L.tx_mod accepted.length
  have hfree : ¬ (s.desc (L.tx.slot (accepted.length % n))).Own := by
    rw [h.desc]
    exact h.free
  have hacc : TxAccess L s _ := .desc _ d' hlt h.cursor hfree hd
  have hw := hacc.wired h.ring.wired
  have hdesc := s.putDesc_self (L.tx.slot (accepted.length % n)) d'
  have hroom := (h.ring.queue.free_tail_iff (fun i x hx hi => hi hx.own) L.tx_pos).mp hfree
  have hother : ∀ i, i < n → i ≠ accepted.length % n →
      (s.putDesc (L.tx.slot (accepted.length % n)) d').desc (L.tx.slot i) =
        s.desc (L.tx.slot i) := by
    intro i hi hne
    exact s.putDesc_other d' (L.tx_ne_tx hi hlt hne)
  refine ⟨hacc, hw, h.ring.moves, ?_, h.ring.sent.trans (List.prefix_append _ _)⟩
  refine h.ring.queue.push hroom ⟨?_, ?_, h.short⟩ (fun i x hi hne hx => ?_)
    fun i hi hne hi' => ?_
  · rw [hdesc]
    exact hown
  · rw [hw.txFrame_eq hlt, hdesc, hlen]
    exact h.bytes
  · exact hx.congr h.ring.wired hw hi (hother i hi hne) fun j _ => rfl
  · rwa [hother i hi hne]

/-! ## The pieces of the call -/

section Calls

variable {A : EthState → EthState → Prop}

theorem TxOpen.wp_storeDesc {s : EthState} (h : TxOpen L accepted d pre s)
    {f : EthDmaDesc → EthDmaDesc} (hd : TxWired L (accepted.length % n) (f d))
    (hfree : ¬ (f d).Own) :
    (storeDesc (·.dmaTxDescToSet) f).wp EthHw A (TxAccess L)
      (fun _ => TxOpen L accepted (f d) pre) s := by
  apply Eth.wp_storeDesc TxOpen.stable h
  intro s h _
  rw [h.cursor, h.desc]
  exact h.store hd hfree

theorem TxOpen.wp_load {s : EthState} (h : TxOpen L accepted d pre s)
    (field : EthDmaDesc → Word) :
    (loadDesc (·.dmaTxDescToSet) field).wp EthHw A (TxAccess L)
      (fun v s => v = field d ∧ TxOpen L accepted d pre s) s := by
  apply wp_loadDesc TxOpen.stable h
  intro s h
  rw [h.cursor, h.desc]
  exact ⟨.read, rfl, h⟩

/-- Setting status bits other than OWN and TER. -/
theorem TxOpen.wp_orStatus {s : EthState} (h : TxOpen L accepted d pre s) {mask : Word}
    (hown : mask &&& ethDmaTxDescOwn = 0) (hter : mask &&& ethDmaTxDescTer = 0) :
    (orStatus (·.dmaTxDescToSet) mask).wp EthHw A (TxAccess L)
      (fun _ => TxOpen L accepted { d with status := d.status ||| mask } pre) s := by
  apply Prog.wp_seq (h.wp_load (·.status))
  rintro v s ⟨rfl, h⟩
  have hd := h.wiredDesc
  have hwired : TxWired L (accepted.length % n) { d with status := d.status ||| mask } :=
    { hd with
      tch := Mask.or_and_ne_zero _ hd.tch
      ter := (Mask.or_and_of_disjoint _ hter).trans hd.ter }
  have hfree : ¬ EthDmaDesc.Own { d with status := d.status ||| mask } := by
    rw [EthDmaDesc.Own, Mask.or_and_of_disjoint _ hown]
    exact h.free
  exact h.wp_storeDesc hwired hfree

/-- Setting OWN. -/
theorem TxOpen.wp_give {s : EthState} (h : TxOpen L accepted d pre s)
    (hlen : (d.controlBufferSize &&& ethDmaTxDescTbs1).toNat = pre.length) :
    (orStatus (·.dmaTxDescToSet) ethDmaTxDescOwn).wp EthHw A (TxAccess L)
      (fun _ => TxRing L (accepted ++ [pre]) accepted.length) s := by
  apply Prog.wp_seq (h.wp_load (·.status))
  rintro v s ⟨rfl, h⟩
  apply Eth.wp_storeDesc TxOpen.stable h
  intro s h _
  have hd := h.wiredDesc
  have hwired : TxWired L (accepted.length % n)
      { d with status := d.status ||| ethDmaTxDescOwn } :=
    { hd with
      tch := Mask.or_and_ne_zero _ hd.tch
      ter := (Mask.or_and_of_disjoint _ (by decide)).trans hd.ter }
  have hown : EthDmaDesc.Own { d with status := d.status ||| ethDmaTxDescOwn } := by
    rw [EthDmaDesc.Own, Mask.or_and_of_subset _ (by decide)]
    decide
  rw [h.cursor, h.desc]
  exact h.give hwired hown hlen

/-- The copy loop, from offset `pre.length` on. -/
theorem TxOpen.wp_copyToBuffer {s : EthState} (ppkt : Nat → Byte) (left : Nat)
    (h : TxOpen L accepted d pre s) (hfits : pre.length + left ≤ ethMaxPacketSize) :
    (copyToBuffer (·.dmaTxDescToSet) ppkt left pre.length).wp EthHw A (TxAccess L)
      (fun _ => TxOpen L accepted d (pre ++ (List.range' pre.length left).map ppkt)) s := by
  induction left generalizing pre s with
  | zero => simpa [copyToBuffer] using h
  | succ left ih =>
      apply Prog.wp_seq (h.wp_load (·.buffer1Addr))
      rintro b s ⟨rfl, h⟩
      rw [Prog.wp_bind]
      apply Prog.wp_put TxOpen.stable h
      intro s h _
      obtain ⟨hacc, hnext⟩ := h.byte (by omega) (ppkt pre.length)
      rw [Region.byte, ← h.wiredDesc.buffer] at hacc hnext
      refine ⟨hacc, ?_⟩
      have hrest := ih hnext (by rw [List.length_append, List.length_singleton]; omega)
      rw [List.length_append, List.length_singleton, List.append_assoc] at hrest
      exact hrest

theorem TxRing.wp_resumeTx {s : EthState} (h : TxRing L accepted k s) :
    resumeTx.wp EthHw A (TxAccess L) (fun _ => TxRing L accepted k) s := by
  rw [resumeTx, Prog.wp_bind]
  apply Prog.wp_get TxRing.stable h
  intro s h
  refine ⟨.read, ?_⟩
  split
  · rw [Prog.wp_bind]
    apply Prog.wp_put TxRing.stable h
    intro s h _
    have hclear : TxRing L accepted k
        { s with dmaSts := s.dmaSts &&& ~~~ethDmaStsTbu } :=
      h.frame { h.wired with } rfl rfl (fun _ _ => rfl) fun _ _ _ _ => rfl
    exact ⟨.sts _, Prog.wp_put TxRing.stable hclear fun s h _ => ⟨.read, h⟩⟩
  · exact h

theorem TxRing.wp_move {s : EthState} (h : TxRing L accepted k s) :
    (setTxCursor fun s => (s.desc s.dmaTxDescToSet).buffer2NextDescAddr).wp EthHw A (TxAccess L)
      (fun _ => TxRing L accepted (k + 1)) s := by
  apply Prog.wp_put TxRing.stable h
  intro s h _
  have hlink : (s.desc s.dmaTxDescToSet).buffer2NextDescAddr = L.tx.slot ((s.txMoves + 1) % n) := by
    rw [h.cursor, (h.wired.tx _ (L.tx_mod k)).link, h.moves, Nat.mod_add_mod]
  simp only [hlink]
  have hacc : TxAccess L s _ := .move
  have hw := hacc.wired h.wired
  refine ⟨hacc, hw, congrArg (· + 1) h.moves, ?_, h.sent⟩
  apply h.queue.transfer L.tx_pos
  · intro i x hi hx
    exact hx.congr h.wired hw hi rfl fun _ _ => rfl
  · intro i _ hfree
    exact hfree

theorem TxRing.wp_advanceTx {s : EthState} (h : TxRing L accepted k s) :
    advanceTx.wp EthHw A (TxAccess L) (fun _ => TxRing L accepted (k + 1)) s := by
  rw [advanceTx, Prog.wp_bind]
  apply wp_loadDesc TxRing.stable h
  intro s h
  have htch := (h.wired.tx _ (L.tx_mod k)).tch
  rw [h.cursor, if_pos htch]
  exact ⟨.read, h.wp_move⟩

/-- The frame a call was given. -/
def txPacket (ppkt : Nat → Byte) (frameLength : BitVec 16) : List Byte :=
  (List.range frameLength.toNat).map ppkt

/-- What a call with result `r` has added to the queue. -/
def txEnqueued (ppkt : Nat → Byte) (frameLength : BitVec 16) (r : EthResult) : List (List Byte) :=
  if r.ret = ethSuccess then [txPacket ppkt frameLength] else []

/-- A length up to the size of a buffer fits the TBS1 field. -/
theorem tbs1_toNat {frameLength : BitVec 16} (h : frameLength.toNat ≤ ethMaxPacketSize) :
    (frameLength.setWidth 32 &&& ethDmaTxDescTbs1 &&& ethDmaTxDescTbs1).toNat =
      frameLength.toNat := by
  have hle : ethMaxPacketSize < 2 ^ 13 := by decide
  have hmask : ethDmaTxDescTbs1.toNat = 2 ^ 13 - 1 := rfl
  rw [BitVec.and_assoc, BitVec.and_self, BitVec.toNat_and, BitVec.toNat_setWidth, hmask,
    Nat.and_two_pow_sub_one_eq_mod]
  omega

/-- **`ETH_HandleTxPkt`.** It adds its frame to the queue exactly if it returns `ETH_SUCCESS`. -/
theorem TxRing.wp_ethHandleTxPkt {s : EthState} (h : TxRing L accepted accepted.length s)
    (ppkt : Nat → Byte) {frameLength : BitVec 16} (hlen : frameLength.toNat ≤ ethMaxPacketSize) :
    (ethHandleTxPkt ppkt frameLength).wp EthHw A (TxAccess L)
      (fun r => TxRing L (accepted ++ txEnqueued ppkt frameLength r)
        (accepted ++ txEnqueued ppkt frameLength r).length) s := by
  rw [ethHandleTxPkt, Prog.wp_bind]
  apply wp_loadDesc TxRing.stable h
  intro s h
  refine ⟨.read, ?_⟩
  split
  · simpa [EthResult.code, txEnqueued, ethError, ethSuccess] using h
  · rename_i hfree
    have hopen := h.open hfree
    generalize s.desc s.dmaTxDescToSet = d at hopen
    apply Prog.wp_seq (hopen.wp_copyToBuffer ppkt frameLength.toNat (by simpa using hlen))
    intro _ s h
    rw [List.length_nil, List.nil_append, ← List.range_eq_range'] at h
    have hd := h.wiredDesc
    apply Prog.wp_seq (h.wp_storeDesc { hd with } h.free)
    intro _ s h
    apply Prog.wp_seq (h.wp_orStatus (by decide) (by decide))
    intro _ s h
    apply Prog.wp_seq (h.wp_give (by simpa using tbs1_toNat hlen))
    intro _ s h
    apply Prog.wp_seq h.wp_resumeTx
    intro _ s h
    apply Prog.wp_seq h.wp_advanceTx
    intro _ s h
    simpa [EthResult.code, txEnqueued, txPacket] using h

end Calls

end Eth
