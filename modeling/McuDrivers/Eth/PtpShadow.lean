import McuDrivers.Eth.PtpRestore

set_option autoImplicit false

/-! # Ethernet: the shadow cursors

The driver finds the buffer of a packet, and its next descriptor, through the shadow table, so the
cursor in the shadow table has to be where the cursor in the real one is. It goes to the address in
the status word of the shadow descriptor, or to the next one if this word is zero; but of all these
words the initialisation writes the last one only. The cursors stay in step exactly when the others
happen to hold zero, or the address of the next shadow descriptor.

Where a time stamp in place of an address leads an engine is not the subject here: the MAC is taken
to work on the descriptors and the receive buffers of its own tables. -/

namespace Eth

variable {n m : Nat}

/-- A step of the MAC, while its engines are at descriptors of their tables, and the receive engine
    stores into the buffer of its descriptor. -/
def PtpHw (L : PtpLayout n m) (s s' : EthState) : Prop :=
  EthHw s s' ∧ (∃ i, i < n ∧ s.txCur = L.tx.slot i) ∧
    ∃ i, i < m ∧ s.rxCur = L.rx.slot i ∧
      ((s.desc (L.rx.slot i)).Own → (s.desc (L.rx.slot i)).buffer1Addr = L.rxBuf.slot i)

def ptpSystem (L : PtpLayout n m) : System EthState EthCall EthResult := ⟨PtpHw L, EthCall.body⟩

def TxInStep (L : PtpLayout n m) (s : EthState) : Prop :=
  ∃ i, i < n ∧ s.dmaTxDescToSet = L.tx.slot i ∧ s.dmaPtpTxDescToSet = L.ptpTx.slot i

def RxInStep (L : PtpLayout n m) (s : EthState) : Prop :=
  ∃ i, i < m ∧ s.dmaRxDescToGet = L.rx.slot i ∧ s.dmaPtpRxDescToGet = L.ptpRx.slot i

/-- An access of a call copies, if it copies a byte at all, one of the packet's, to or from the buffer
    of the descriptor at the real cursor. -/
def CopiesInStep (L : PtpLayout n m) : EthCall → EthState → EthState → Prop
  | .handlePtpTxPkt _ frameLength, s, s' => ∀ a, s'.stored = s.stored ++ [a] →
      ∃ i offset, i < n ∧ s.dmaTxDescToSet = L.tx.slot i ∧ offset < frameLength.toNat ∧
        a = L.txBuf.slot i + BitVec.ofNat 32 offset
  | .handlePtpRxPkt, s, s' => ∀ a, s'.loaded = s.loaded ++ [a] →
      ∃ i offset, i < m ∧ s.dmaRxDescToGet = L.rx.slot i ∧
        offset < (rxFrameLength (s.desc (L.rx.slot i)).status - 4).toNat ∧
        a = L.rxBuf.slot i + BitVec.ofNat 32 offset
  | _, _, _ => True

/-- Between calls the cursors are in step, and every access copies accordingly. -/
structure ShadowLockstep (L : PtpLayout n m) (c : Config EthState EthCall EthResult) : Prop where
  tx : c.running = none → TxInStep L c.st
  rx : c.running = none → RxInStep L c.st
  copies : ∀ k c', (ptpSystem L).Access ptpCalls k c c' → CopiesInStep L k c.st c'.st

/-- The condition on what the shadow tables held before the initialisation. -/
structure ShadowReady (L : PtpLayout n m) (desc : Word → EthDmaDesc) : Prop where
  tx : ∀ i, i + 1 < n → (desc (L.ptpTx.slot i)).status = 0 ∨
    (desc (L.ptpTx.slot i)).status = L.ptpTx.slot (i + 1)
  rx : ∀ i, i + 1 < m → (desc (L.ptpRx.slot i)).status = 0 ∨
    (desc (L.ptpRx.slot i)).status = L.ptpRx.slot (i + 1)

/-! ## What no call changes -/

/-- Where the shadow cursor goes from the shadow descriptor at `a`. -/
def EthState.shadowNext (s : EthState) (a : Word) : Word :=
  if (s.desc a).status ≠ 0 then (s.desc a).status else a + descSize

/-- Chained tables, and the shadow tables of the start `s₀`. -/
structure ShadowWired (L : PtpLayout n m) (s₀ s : EthState) : Prop where
  tch : ∀ i, i < n → (s.desc (L.tx.slot i)).status &&& ethDmaTxDescTch ≠ 0
  rch : ∀ i, i < m → (s.desc (L.rx.slot i)).controlBufferSize &&& ethDmaRxDescRch ≠ 0
  ptpTx : ∀ i, i < n → s.desc (L.ptpTx.slot i) = s₀.desc (L.ptpTx.slot i)
  ptpRx : ∀ i, i < m → s.desc (L.ptpRx.slot i) = s₀.desc (L.ptpRx.slot i)

section Wired

variable {L : PtpLayout n m} {s₀ s s' : EthState}

/-- A store into a transmit descriptor that leaves TCH alone. -/
theorem ShadowWired.txDesc (h : ShadowWired L s₀ s) {i : Nat} (hi : i < n) {d : EthDmaDesc}
    (hdesc : s'.desc = Function.update s.desc (L.tx.slot i) d)
    (htch : d.status &&& ethDmaTxDescTch ≠ 0) : ShadowWired L s₀ s' := by
  constructor
  · intro j hj
    by_cases heq : j = i
    · subst heq
      rwa [hdesc, Function.update_self]
    · rw [hdesc, Function.update_of_ne (L.tx_ne_tx hj hi heq)]
      exact h.tch j hj
  · intro j hj
    rw [hdesc, Function.update_of_ne (L.tx_ne_rx hi hj).symm]
    exact h.rch j hj
  · intro j hj
    rw [hdesc, Function.update_of_ne (L.ptpTx_ne_tx hj hi)]
    exact h.ptpTx j hj
  · intro j hj
    rw [hdesc, Function.update_of_ne (L.ptpRx_ne_tx hj hi)]
    exact h.ptpRx j hj

/-- A store into a receive descriptor that leaves its control word alone. -/
theorem ShadowWired.rxDesc (h : ShadowWired L s₀ s) {i : Nat} (hi : i < m) {d : EthDmaDesc}
    (hdesc : s'.desc = Function.update s.desc (L.rx.slot i) d)
    (hsize : d.controlBufferSize = (s.desc (L.rx.slot i)).controlBufferSize) :
    ShadowWired L s₀ s' := by
  constructor
  · intro j hj
    rw [hdesc, Function.update_of_ne (L.tx_ne_rx hj hi)]
    exact h.tch j hj
  · intro j hj
    by_cases heq : j = i
    · subst heq
      rw [hdesc, Function.update_self, hsize]
      exact h.rch j hj
    · rw [hdesc, Function.update_of_ne (L.rx_ne_rx hj hi heq)]
      exact h.rch j hj
  · intro j hj
    rw [hdesc, Function.update_of_ne (L.ptpTx_ne_rx hj hi)]
    exact h.ptpTx j hj
  · intro j hj
    rw [hdesc, Function.update_of_ne (L.ptpRx_ne_rx hj hi)]
    exact h.ptpRx j hj

theorem ShadowWired.hw (h : ShadowWired L s₀ s) (hs : PtpHw L s s') : ShadowWired L s₀ s' := by
  obtain ⟨hstep, ⟨i, hi, htx⟩, j, hj, hrx, -⟩ := hs
  cases hstep with
  | send wb stamp hown =>
      refine h.txDesc hi (congrArg (fun a => Function.update s.desc a _) htx) ?_
      rw [txClosed_and _ s _ wb stamp (by decide) (by decide) (by decide), htx]
      exact h.tch i hi
  | txUnavailable hown => exact { h with }
  | fill a stamp hown hawake hfits =>
      refine h.rxDesc hj (congrArg (fun a => Function.update s.desc a _) hrx) ?_
      rw [rxClosed_size, hrx]
  | rxUnavailable hown hawake => exact { h with }

/-- The MAC hands nothing over: a free descriptor stays free. -/
theorem PtpHw.free (hs : PtpHw L s s') {a : Word} (hfree : ¬ (s.desc a).Own) :
    ¬ (s'.desc a).Own := by
  rwa [hs.1.desc_free hfree]

theorem PtpHw.cursors (hs : PtpHw L s s') :
    s'.dmaTxDescToSet = s.dmaTxDescToSet ∧ s'.dmaPtpTxDescToSet = s.dmaPtpTxDescToSet ∧
      s'.dmaRxDescToGet = s.dmaRxDescToGet ∧ s'.dmaPtpRxDescToGet = s.dmaPtpRxDescToGet := by
  obtain ⟨hstep, -, -⟩ := hs
  cases hstep <;> exact ⟨rfl, rfl, rfl, rfl⟩

end Wired

/-- The addresses in the shadow tables of `s₀`. -/
structure ShadowTables (L : PtpLayout n m) (s₀ : EthState) : Prop where
  tx : ∀ i, i < n → (s₀.desc (L.ptpTx.slot i)).buffer1Addr = L.txBuf.slot i ∧
    (s₀.desc (L.ptpTx.slot i)).buffer2NextDescAddr = L.tx.slot ((i + 1) % n)
  rx : ∀ i, i < m → (s₀.desc (L.ptpRx.slot i)).buffer1Addr = L.rxBuf.slot i ∧
    (s₀.desc (L.ptpRx.slot i)).buffer2NextDescAddr = L.rx.slot ((i + 1) % m)

/-! ## A transmit call -/

/-- Both cursors are at the `i`-th descriptor; of the others those in `free` are not the DMA's. -/
structure TxStep (L : PtpLayout n m) (s₀ : EthState) (i : Nat) (free : Nat → Prop) (s : EthState) :
    Prop where
  wired : ShadowWired L s₀ s
  cursor : s.dmaTxDescToSet = L.tx.slot i
  shadow : s.dmaPtpTxDescToSet = L.ptpTx.slot i
  free : ∀ j, j < n → free j → j ≠ i → ¬ (s.desc (L.tx.slot j)).Own

/-- After the call: the real cursor went to the neighbour, the shadow cursor where it is led. -/
structure TxMoved (L : PtpLayout n m) (s₀ : EthState) (i : Nat) (free : Nat → Prop) (s : EthState) :
    Prop where
  wired : ShadowWired L s₀ s
  cursor : s.dmaTxDescToSet = L.tx.slot ((i + 1) % n)
  shadow : s.dmaPtpTxDescToSet = s₀.shadowNext (L.ptpTx.slot i)
  free : ∀ j, j < n → free j → j ≠ i → ¬ (s.desc (L.tx.slot j)).Own

theorem copiesInStep_tx {L : PtpLayout n m} {ppkt : Nat → Byte} {frameLength : BitVec 16}
    {s s' : EthState} (h : s'.stored = s.stored) :
    CopiesInStep L (.handlePtpTxPkt ppkt frameLength) s s' := by
  intro a ha
  rw [h] at ha
  exact absurd ha (by simp)

theorem copiesInStep_rx {L : PtpLayout n m} {s s' : EthState} (h : s'.loaded = s.loaded) :
    CopiesInStep L .handlePtpRxPkt s s' := by
  intro a ha
  rw [h] at ha
  exact absurd ha (by simp)

section TxCall

variable {L : PtpLayout n m} {s₀ s : EthState} {i : Nat} {free : Nat → Prop}
  {A : EthState → EthState → Prop} {ppkt : Nat → Byte} {frameLength : BitVec 16}

theorem TxStep.stable : Prog.Stable (PtpHw L) (TxStep L s₀ i free) := by
  intro s s' h hs
  obtain ⟨hcursor, hshadow, -⟩ := hs.cursors
  exact ⟨h.wired.hw hs, hcursor.trans h.cursor, hshadow.trans h.shadow,
    fun j hj hf hne => hs.free (h.free j hj hf hne)⟩

/-- A store into the descriptor at the cursor that leaves TCH alone. -/
theorem TxStep.putDesc (h : TxStep L s₀ i free s) (hi : i < n) {d : EthDmaDesc}
    (htch : d.status &&& ethDmaTxDescTch ≠ 0) :
    TxStep L s₀ i free (s.putDesc s.dmaTxDescToSet d) := by
  rw [h.cursor]
  refine ⟨h.wired.txDesc hi rfl htch, h.cursor, h.shadow, fun j hj hf hne => ?_⟩
  rw [s.putDesc_other d (L.tx_ne_tx hj hi hne)]
  exact h.free j hj hf hne

theorem TxStep.tch (h : TxStep L s₀ i free s) (hi : i < n) :
    (s.desc s.dmaTxDescToSet).status &&& ethDmaTxDescTch ≠ 0 := by
  rw [h.cursor]
  exact h.wired.tch i hi

/-- What touches neither descriptors nor cursors, and stores no byte. -/
theorem TxStep.wp_quiet {α : Type} {p : EthProg α} (h : TxStep L s₀ i free s)
    (hp : p.Accesses fun s s' => (TxStep L s₀ i free s → TxStep L s₀ i free s') ∧
      s'.stored = s.stored) :
    p.wp (PtpHw L) A (CopiesInStep L (.handlePtpTxPkt ppkt frameLength))
      (fun _ => TxStep L s₀ i free) s :=
  Prog.wp_of_admitted hp TxStep.stable
    (fun _ _ h _ hq => ⟨copiesInStep_tx hq.2, hq.1 h⟩) h

theorem TxStep.wp_storeDesc (h : TxStep L s₀ i free s) (hi : i < n) {f : EthDmaDesc → EthDmaDesc}
    (hf : ∀ s, TxStep L s₀ i free s →
      (f (s.desc s.dmaTxDescToSet)).status &&& ethDmaTxDescTch ≠ 0) :
    (storeDesc (·.dmaTxDescToSet) f).wp (PtpHw L) A
      (CopiesInStep L (.handlePtpTxPkt ppkt frameLength)) (fun _ => TxStep L s₀ i free) s := by
  apply Eth.wp_storeDesc TxStep.stable h
  intro s h _
  exact ⟨copiesInStep_tx rfl, h.putDesc hi (hf s h)⟩

/-- `ptr->Status |= mask` and `ptr->Status &= mask`, where the mask leaves TCH set. -/
theorem TxStep.wp_modifyStatus (h : TxStep L s₀ i free s) (hi : i < n) (f : Word → Word)
    (hf : ∀ v, v &&& ethDmaTxDescTch ≠ 0 → f v &&& ethDmaTxDescTch ≠ 0) :
    (do
      let v ← loadDesc (·.dmaTxDescToSet) (·.status)
      storeStatus (·.dmaTxDescToSet) (f v) : EthProg Unit).wp (PtpHw L) A
      (CopiesInStep L (.handlePtpTxPkt ppkt frameLength)) (fun _ => TxStep L s₀ i free) s := by
  rw [Prog.wp_bind]
  apply wp_loadDesc TxStep.stable h
  intro s h
  refine ⟨copiesInStep_tx rfl, ?_⟩
  have hload := hf _ (h.tch hi)
  exact h.wp_storeDesc hi fun _ _ => hload

/-- The bytes go into the buffer of the descriptor at the cursor. -/
theorem TxStep.wp_copyToBuffer (htab : ShadowTables L s₀) (hi : i < n) {left offset : Nat}
    (hlen : offset + left ≤ frameLength.toNat) (h : TxStep L s₀ i free s) :
    (copyToBuffer (·.dmaPtpTxDescToSet) ppkt left offset).wp (PtpHw L) A
      (CopiesInStep L (.handlePtpTxPkt ppkt frameLength)) (fun _ => TxStep L s₀ i free) s := by
  induction left generalizing offset s with
  | zero => exact h
  | succ left ih =>
      rw [copyToBuffer, Prog.wp_bind]
      apply wp_loadDesc TxStep.stable h
      intro s h
      refine ⟨copiesInStep_tx rfl, ?_⟩
      have hbuf : (s.desc s.dmaPtpTxDescToSet).buffer1Addr = L.txBuf.slot i := by
        rw [h.shadow, h.wired.ptpTx i hi]
        exact (htab.tx i hi).1
      rw [hbuf, Prog.wp_bind]
      apply Prog.wp_put TxStep.stable h
      intro s h _
      have hnext : TxStep L s₀ i free (s.putByte (L.txBuf.slot i + BitVec.ofNat 32 offset)
        (ppkt offset)) := { h with wired := { h.wired with } }
      refine ⟨?_, ih (by omega) hnext⟩
      intro a ha
      have hlast := List.append_cancel_left ha
      simp only [List.cons.injEq, and_true] at hlast
      exact ⟨i, offset, hi, h.cursor, by omega, hlast.symm⟩

/-- The tail of the call. Between the two stores the cursors are out of step. -/
theorem TxStep.wp_advancePtpTx (htab : ShadowTables L s₀) (hi : i < n)
    (h : TxStep L s₀ i free s) :
    advancePtpTx.wp (PtpHw L) A (CopiesInStep L (.handlePtpTxPkt ppkt frameLength))
      (fun _ => TxMoved L s₀ i free) s := by
  rw [advancePtpTx, Prog.wp_bind]
  apply wp_loadDesc TxStep.stable h
  intro s h
  refine ⟨copiesInStep_tx rfl, ?_⟩
  rw [if_pos (h.tch hi), Prog.wp_bind]
  apply Prog.wp_put TxStep.stable h
  intro s h _
  refine ⟨copiesInStep_tx rfl, ?_⟩
  -- half way: the real cursor has moved
  let P : EthState → Prop := fun t => ShadowWired L s₀ t ∧
    t.dmaTxDescToSet = L.tx.slot ((i + 1) % n) ∧ t.dmaPtpTxDescToSet = L.ptpTx.slot i ∧
    ∀ j, j < n → free j → j ≠ i → ¬ (t.desc (L.tx.slot j)).Own
  have hstable : Prog.Stable (PtpHw L) P := by
    rintro t t' ⟨hwired, hcursor, hshadow, hfree⟩ hs
    obtain ⟨hc, hp, -⟩ := hs.cursors
    exact ⟨hwired.hw hs, hc.trans hcursor, hp.trans hshadow,
      fun j hj hf hne => hs.free (hfree j hj hf hne)⟩
  have hlink : (s.desc s.dmaPtpTxDescToSet).buffer2NextDescAddr = L.tx.slot ((i + 1) % n) := by
    rw [h.shadow, h.wired.ptpTx i hi]
    exact (htab.tx i hi).2
  have hhalf : P { s with
      dmaTxDescToSet := (s.desc s.dmaPtpTxDescToSet).buffer2NextDescAddr
      txMoves := s.txMoves + 1 } := ⟨{ h.wired with }, hlink, h.shadow, h.free⟩
  rw [Prog.wp_bind]
  apply wp_loadDesc hstable hhalf
  intro s h
  refine ⟨copiesInStep_tx rfl, ?_⟩
  have hword : (s.desc s.dmaPtpTxDescToSet).status = (s₀.desc (L.ptpTx.slot i)).status := by
    rw [h.2.2.1, h.1.ptpTx i hi]
  rw [hword]
  split
  case isTrue hwrap =>
    apply Prog.wp_put hstable h
    rintro s ⟨hwired, hcursor, hshadow, hfree⟩ _
    refine ⟨copiesInStep_tx rfl, { hwired with }, hcursor, ?_, hfree⟩
    rw [EthState.shadowNext, if_pos hwrap, hshadow, hwired.ptpTx i hi]
  case isFalse hwrap =>
    apply Prog.wp_put hstable h
    rintro s ⟨hwired, hcursor, hshadow, hfree⟩ _
    refine ⟨copiesInStep_tx rfl, { hwired with }, hcursor, ?_, hfree⟩
    rw [EthState.shadowNext, if_neg hwrap, hshadow]

/-- `ETH_HandlePTPTxPkt` moves the cursors on, unless it finds the descriptor taken. What is known of
    the descriptor when the call begins (`N`) may exclude that. -/
theorem TxStep.wp_ethHandlePtpTxPkt (ppkt : Nat → Byte) (frameLength : BitVec 16)
    (htab : ShadowTables L s₀) (hi : i < n) {N : EthState → Prop}
    (hN : Prog.Stable (PtpHw L) N) {Q : EthResult → EthState → Prop}
    (htaken : ∀ s, TxStep L s₀ i free s → N s → (s.desc (L.tx.slot i)).Own →
      Q (.code ethError) s)
    (hmoved : ∀ r s, TxMoved L s₀ i free s → Q r s) (h : TxStep L s₀ i free s) (hn : N s) :
    (ethHandlePtpTxPkt ppkt frameLength).wp (PtpHw L) A
      (CopiesInStep L (.handlePtpTxPkt ppkt frameLength)) Q s := by
  rw [ethHandlePtpTxPkt, Prog.wp_bind]
  apply wp_loadDesc (TxStep.stable.and hN) ⟨h, hn⟩
  rintro s ⟨h, hn⟩
  refine ⟨copiesInStep_tx rfl, ?_⟩
  split
  case isTrue hown =>
    rw [h.cursor] at hown
    exact htaken s h hn hown
  case isFalse =>
    apply Prog.wp_seq (h.wp_copyToBuffer htab hi (by omega))
    intro _ s h
    apply Prog.wp_seq (h.wp_storeDesc hi fun _ h => h.tch hi)
    intro _ s h
    apply Prog.wp_seq (h.wp_modifyStatus hi _ fun v hv => Mask.or_and_ne_zero _ hv)
    intro _ s h
    apply Prog.wp_seq (h.wp_modifyStatus hi _ fun v hv => Mask.or_and_ne_zero _ hv)
    intro _ s h
    apply Prog.wp_seq (h.wp_quiet (resumeTx_accesses (fun _ => ⟨id, rfl⟩)
      fun _ _ => ⟨fun h => { h with wired := { h.wired with } }, rfl⟩))
    intro _ s h
    have hwait : (waitTtss 0xFFFF 0).wp (PtpHw L) A
        (CopiesInStep L (.handlePtpTxPkt ppkt frameLength)) (fun _ => TxStep L s₀ i free) s :=
      h.wp_quiet (waitTtss_accesses (fun _ => ⟨id, rfl⟩) 0xFFFF 0)
    apply Prog.wp_seq (Prog.wp_and_returns hwait (waitTtss_returns 0xFFFF 0))
    rintro timeout s ⟨h, hle⟩
    have hbound : timeout ≠ phyReadTo := by
      unfold phyReadTo
      omega
    rw [if_neg hbound]
    apply Prog.wp_seq (h.wp_modifyStatus hi _ fun v hv => ?_)
    · intro _ s h
      apply Prog.wp_seq (h.wp_quiet (loadStamp_accesses (fun _ => ⟨id, rfl⟩) _))
      intro stamp s h
      apply Prog.wp_seq (h.wp_advancePtpTx htab hi)
      intro _ s h
      exact hmoved _ s h
    · rwa [Mask.and_and_of_subset _ (by decide)]

end TxCall

/-! ## A receive call -/

structure RxStep (L : PtpLayout n m) (s₀ : EthState) (i : Nat) (free : Nat → Prop) (s : EthState) :
    Prop where
  wired : ShadowWired L s₀ s
  cursor : s.dmaRxDescToGet = L.rx.slot i
  shadow : s.dmaPtpRxDescToGet = L.ptpRx.slot i
  free : ∀ j, j < m → free j → j ≠ i → ¬ (s.desc (L.rx.slot j)).Own

structure RxMoved (L : PtpLayout n m) (s₀ : EthState) (i : Nat) (free : Nat → Prop) (s : EthState) :
    Prop where
  wired : ShadowWired L s₀ s
  cursor : s.dmaRxDescToGet = L.rx.slot ((i + 1) % m)
  shadow : s.dmaPtpRxDescToGet = s₀.shadowNext (L.ptpRx.slot i)
  free : ∀ j, j < m → free j → j ≠ i → ¬ (s.desc (L.rx.slot j)).Own

section RxCall

variable {L : PtpLayout n m} {s₀ s : EthState} {i : Nat} {free : Nat → Prop}
  {A : EthState → EthState → Prop}

theorem RxStep.stable : Prog.Stable (PtpHw L) (RxStep L s₀ i free) := by
  intro s s' h hs
  obtain ⟨-, -, hcursor, hshadow⟩ := hs.cursors
  exact ⟨h.wired.hw hs, hcursor.trans h.cursor, hshadow.trans h.shadow,
    fun j hj hf hne => hs.free (h.free j hj hf hne)⟩

theorem RxStep.rch (h : RxStep L s₀ i free s) (hi : i < m) :
    (s.desc s.dmaRxDescToGet).controlBufferSize &&& ethDmaRxDescRch ≠ 0 := by
  rw [h.cursor]
  exact h.wired.rch i hi

/-- What touches neither descriptors nor cursors, and loads no byte. -/
theorem RxStep.wp_quiet {α : Type} {p : EthProg α} (h : RxStep L s₀ i free s)
    (hp : p.Accesses fun s s' => (RxStep L s₀ i free s → RxStep L s₀ i free s') ∧
      s'.loaded = s.loaded) :
    p.wp (PtpHw L) A (CopiesInStep L .handlePtpRxPkt) (fun _ => RxStep L s₀ i free) s :=
  Prog.wp_of_admitted hp RxStep.stable
    (fun _ _ h _ hq => ⟨copiesInStep_rx hq.2, hq.1 h⟩) h

/-- While the descriptor at the cursor is free its status word stays. -/
def RxRead (L : PtpLayout n m) (s₀ : EthState) (i : Nat) (free : Nat → Prop) (status : Word)
    (s : EthState) : Prop :=
  RxStep L s₀ i free s ∧ (s.desc (L.rx.slot i)).status = status

theorem RxRead.stable {status : Word} (hfree : status &&& ethDmaTxDescOwn = 0) :
    Prog.Stable (PtpHw L) (RxRead L s₀ i free status) := by
  rintro s s' ⟨h, hstatus⟩ hs
  refine ⟨RxStep.stable s s' h hs, ?_⟩
  rw [hs.1.desc_free (by rw [EthDmaDesc.Own, hstatus]; exact not_not_intro hfree), hstatus]

theorem RxRead.wp_copyFromBuffer {status : Word} (hfree : status &&& ethDmaTxDescOwn = 0)
    (htab : ShadowTables L s₀) (hi : i < m) {left offset : Nat}
    (hlen : offset + left ≤ (rxFrameLength status - 4).toNat) (h : RxRead L s₀ i free status s) :
    (copyFromBuffer (·.dmaPtpRxDescToGet) left offset).wp (PtpHw L) A
      (CopiesInStep L .handlePtpRxPkt) (fun _ => RxRead L s₀ i free status) s := by
  induction left generalizing offset s with
  | zero => exact h
  | succ left ih =>
      rw [copyFromBuffer, Prog.wp_bind]
      apply wp_loadDesc (RxRead.stable hfree) h
      intro s h
      refine ⟨copiesInStep_rx rfl, ?_⟩
      have hbuf : (s.desc s.dmaPtpRxDescToGet).buffer1Addr = L.rxBuf.slot i := by
        rw [h.1.shadow, h.1.wired.ptpRx i hi]
        exact (htab.rx i hi).1
      rw [hbuf, Prog.wp_bind]
      apply wp_loadByte (RxRead.stable hfree) h
      intro s h _
      have hnext : RxRead L s₀ i free status
          (s.noteLoad (L.rxBuf.slot i + BitVec.ofNat 32 offset)) :=
        ⟨{ h.1 with wired := { h.1.wired with } }, h.2⟩
      constructor
      · intro a ha
        have hlast := List.append_cancel_left ha
        simp only [List.cons.injEq, and_true] at hlast
        exact ⟨i, offset, hi, h.1.cursor, by rw [h.2]; omega, hlast.symm⟩
      · apply Prog.wp_seq (ih (by omega) hnext)
        intro rest s h
        exact h

theorem RxRead.wp_rxFrame {status : Word} (hfree : status &&& ethDmaTxDescOwn = 0)
    (htab : ShadowTables L s₀) (hi : i < m) (h : RxRead L s₀ i free status s) :
    (rxFrame (·.dmaPtpRxDescToGet)).wp (PtpHw L) A (CopiesInStep L .handlePtpRxPkt)
      (fun _ => RxStep L s₀ i free) s := by
  have htest := Prog.wp_of_admitted (A := A) (G := CopiesInStep L .handlePtpRxPkt)
    (rxGoodTest_accesses (G := fun s s' => s' = s) (fun _ => rfl)) (RxRead.stable hfree)
    (fun s s' h _ heq => ⟨copiesInStep_rx (by rw [heq]), heq ▸ h⟩) h
  apply Prog.wp_seq htest
  intro good s h
  split
  · rw [copyFrame, Prog.wp_bind]
    apply wp_loadDesc (RxRead.stable hfree) h
    intro s h
    refine ⟨copiesInStep_rx rfl, ?_⟩
    rw [h.1.cursor, h.2]
    apply Prog.wp_seq (h.wp_copyFromBuffer hfree htab hi (by omega))
    intro bytes s h
    exact h.1
  · exact h.1

/-- Giving the descriptor at the cursor back. -/
theorem RxStep.wp_orStatus (h : RxStep L s₀ i free s) (hi : i < m) (mask : Word) :
    (orStatus (·.dmaRxDescToGet) mask).wp (PtpHw L) A (CopiesInStep L .handlePtpRxPkt)
      (fun _ => RxStep L s₀ i free) s := by
  rw [orStatus, Prog.wp_bind]
  apply wp_loadDesc RxStep.stable h
  intro s h
  refine ⟨copiesInStep_rx rfl, ?_⟩
  apply wp_storeDesc RxStep.stable h
  intro s h _
  rw [h.cursor]
  refine ⟨copiesInStep_rx rfl, h.wired.rxDesc hi rfl rfl, h.cursor, h.shadow, fun j hj hf hne => ?_⟩
  rw [s.putDesc_other _ (L.rx_ne_rx hj hi hne)]
  exact h.free j hj hf hne

theorem RxStep.wp_advancePtpRx (htab : ShadowTables L s₀) (hi : i < m)
    (h : RxStep L s₀ i free s) :
    advancePtpRx.wp (PtpHw L) A (CopiesInStep L .handlePtpRxPkt)
      (fun _ => RxMoved L s₀ i free) s := by
  rw [advancePtpRx, Prog.wp_bind]
  apply wp_loadDesc RxStep.stable h
  intro s h
  refine ⟨copiesInStep_rx rfl, ?_⟩
  rw [if_pos (h.rch hi), Prog.wp_bind]
  apply Prog.wp_put RxStep.stable h
  intro s h _
  refine ⟨copiesInStep_rx rfl, ?_⟩
  let P : EthState → Prop := fun t => ShadowWired L s₀ t ∧
    t.dmaRxDescToGet = L.rx.slot ((i + 1) % m) ∧ t.dmaPtpRxDescToGet = L.ptpRx.slot i ∧
    ∀ j, j < m → free j → j ≠ i → ¬ (t.desc (L.rx.slot j)).Own
  have hstable : Prog.Stable (PtpHw L) P := by
    rintro t t' ⟨hwired, hcursor, hshadow, hfree⟩ hs
    obtain ⟨-, -, hc, hp⟩ := hs.cursors
    exact ⟨hwired.hw hs, hc.trans hcursor, hp.trans hshadow,
      fun j hj hf hne => hs.free (hfree j hj hf hne)⟩
  have hlink : (s.desc s.dmaPtpRxDescToGet).buffer2NextDescAddr = L.rx.slot ((i + 1) % m) := by
    rw [h.shadow, h.wired.ptpRx i hi]
    exact (htab.rx i hi).2
  have hhalf : P { s with
      dmaRxDescToGet := (s.desc s.dmaPtpRxDescToGet).buffer2NextDescAddr
      rxMoves := s.rxMoves + 1 } := ⟨{ h.wired with }, hlink, h.shadow, h.free⟩
  rw [Prog.wp_bind]
  apply wp_loadDesc hstable hhalf
  intro s h
  refine ⟨copiesInStep_rx rfl, ?_⟩
  have hword : (s.desc s.dmaPtpRxDescToGet).status = (s₀.desc (L.ptpRx.slot i)).status := by
    rw [h.2.2.1, h.1.ptpRx i hi]
  rw [hword]
  split
  case isTrue hwrap =>
    apply Prog.wp_put hstable h
    rintro s ⟨hwired, hcursor, hshadow, hfree⟩ _
    refine ⟨copiesInStep_rx rfl, { hwired with }, hcursor, ?_, hfree⟩
    rw [EthState.shadowNext, if_pos hwrap, hshadow, hwired.ptpRx i hi]
  case isFalse hwrap =>
    apply Prog.wp_put hstable h
    rintro s ⟨hwired, hcursor, hshadow, hfree⟩ _
    refine ⟨copiesInStep_rx rfl, { hwired with }, hcursor, ?_, hfree⟩
    rw [EthState.shadowNext, if_neg hwrap, hshadow]

/-- `ETH_HandlePTPRxPkt` likewise. -/
theorem RxStep.wp_ethHandlePtpRxPkt (htab : ShadowTables L s₀) (hi : i < m)
    {N : EthState → Prop} (hN : Prog.Stable (PtpHw L) N) {Q : EthResult → EthState → Prop}
    (hempty : ∀ s, RxStep L s₀ i free s → N s → (s.desc (L.rx.slot i)).Own →
      Q (.code ethError) s)
    (hmoved : ∀ r s, RxMoved L s₀ i free s → Q r s) (h : RxStep L s₀ i free s) (hn : N s) :
    ethHandlePtpRxPkt.wp (PtpHw L) A (CopiesInStep L .handlePtpRxPkt) Q s := by
  rw [ethHandlePtpRxPkt, Prog.wp_bind]
  apply wp_loadDesc (RxStep.stable.and hN) ⟨h, hn⟩
  rintro s ⟨h, hn⟩
  refine ⟨copiesInStep_rx rfl, ?_⟩
  rw [h.cursor]
  split
  case isTrue hown => exact hempty s h hn hown
  case isFalse hfree =>
    have hread : RxRead L s₀ i free (s.desc (L.rx.slot i)).status s := ⟨h, rfl⟩
    apply Prog.wp_seq (hread.wp_rxFrame (not_not.mp hfree) htab hi)
    intro frame s h
    have hpoll : ∀ s : EthState, (RxStep L s₀ i free s → RxStep L s₀ i free s.pollRx) ∧
        s.pollRx.loaded = s.loaded := by
      intro s
      obtain ⟨r, v, heq⟩ := s.pollRx_eq
      rw [heq]
      exact ⟨fun h => { h with wired := { h.wired with } }, rfl⟩
    apply Prog.wp_seq (h.wp_quiet (resumeRx_accesses (fun _ => ⟨id, rfl⟩)
      (fun _ _ => ⟨fun h => { h with wired := { h.wired with } }, rfl⟩) hpoll))
    intro _ s h
    apply Prog.wp_seq (h.wp_quiet (loadStamp_accesses (fun _ => ⟨id, rfl⟩) _))
    intro stamp s h
    apply Prog.wp_seq (h.wp_orStatus hi _)
    intro _ s h
    apply Prog.wp_seq (h.wp_advancePtpRx htab hi)
    intro _ s h
    exact hmoved _ s h

end RxCall

/-! ## Where the shadow cursors are led -/

section Start

variable {L : PtpLayout n m} {desc : Word → EthDmaDesc} {ram : Word → Byte} {dmaSts dmaBm : Word}
  {timeStamping : Bool}

/-- Between calls. -/
structure ShadowIdle (L : PtpLayout n m) (s₀ s : EthState) : Prop where
  wired : ShadowWired L s₀ s
  tx : TxInStep L s
  rx : RxInStep L s

theorem ptpStart_shadow (L : PtpLayout n m) (desc : Word → EthDmaDesc) (ram : Word → Byte)
    (dmaSts dmaBm : Word) (timeStamping : Bool) :
    ShadowTables L (ptpStart L desc ram dmaSts dmaBm timeStamping) ∧
      ShadowIdle L (ptpStart L desc ram dmaSts dmaBm timeStamping)
        (ptpStart L desc ram dmaSts dmaBm timeStamping) := by
  obtain ⟨D, hstart, htab⟩ := ptpStart_spec L desc ram dmaSts dmaBm timeStamping
  rw [hstart]
  refine ⟨⟨fun i hi => ?_, fun i hi => ?_⟩, ⟨fun i hi => ?_, fun i hi => ?_, fun _ _ => rfl,
    fun _ _ => rfl⟩, ⟨0, L.tx_pos, (L.tx.slot_zero).symm, (L.ptpTx.slot_zero).symm⟩,
    ⟨0, L.rx_pos, (L.rx.slot_zero).symm, (L.ptpRx.slot_zero).symm⟩⟩
  · simp only [htab.ptpTx i hi, and_self]
  · simp only [htab.ptpRx i hi, and_self]
  · simp only [htab.tx i hi]
    decide
  · simp only [htab.rx i hi]
    decide

/-- A word that holds zero, or the address of the next, leads to the next; no other does. -/
theorem shadowNext_succ {p : Region 32 16 n} (hbase : p.base ≠ 0) {s : EthState} {i : Nat}
    (hi : i + 1 < n) : s.shadowNext (p.slot i) = p.slot (i + 1) ↔
      (s.desc (p.slot i)).status = 0 ∨ (s.desc (p.slot i)).status = p.slot (i + 1) := by
  have hne : p.slot (i + 1) ≠ 0 := p.slot_ne_zero hbase (by decide) hi
  unfold EthState.shadowNext
  split
  case isTrue hword => exact ⟨.inr, fun h => h.resolve_left hword⟩
  case isFalse hword =>
    rw [p.slot_succ]
    exact ⟨fun _ => .inl (not_not.mp hword), fun _ => rfl⟩

theorem ptpStart_ptpTx {i : Nat} (hi : i < n) :
    ((ptpStart L desc ram dmaSts dmaBm timeStamping).desc (L.ptpTx.slot i)).status =
      if i = n - 1 then L.ptpTx.base else (desc (L.ptpTx.slot i)).status := by
  obtain ⟨D, hstart, htab⟩ := ptpStart_spec L desc ram dmaSts dmaBm timeStamping
  rw [hstart]
  simp only [htab.ptpTx i hi]

theorem ptpStart_ptpRx {i : Nat} (hi : i < m) :
    ((ptpStart L desc ram dmaSts dmaBm timeStamping).desc (L.ptpRx.slot i)).status =
      if i = m - 1 then L.ptpRx.base else (desc (L.ptpRx.slot i)).status := by
  obtain ⟨D, hstart, htab⟩ := ptpStart_spec L desc ram dmaSts dmaBm timeStamping
  rw [hstart]
  simp only [htab.ptpRx i hi]

/-- A shadow table that leads on to the next descriptor, and from the last to the first. -/
theorem shadowNext_mod {p : Region 32 16 n} (hbase : p.base ≠ 0) {s : EthState}
    {old : Nat → Word} (hwords : ∀ i, i < n → (s.desc (p.slot i)).status =
      if i = n - 1 then p.base else old i)
    (hready : ∀ i, i + 1 < n → old i = 0 ∨ old i = p.slot (i + 1)) {i : Nat} (hi : i < n) :
    s.shadowNext (p.slot i) = p.slot ((i + 1) % n) := by
  have hword := hwords i hi
  by_cases hlast : i = n - 1
  · have hwrap : i + 1 = n := by omega
    rw [if_pos hlast] at hword
    rw [hwrap, Nat.mod_self, Region.slot_zero, EthState.shadowNext, hword, if_pos hbase]
  · have hlt : i + 1 < n := by omega
    rw [if_neg hlast] at hword
    rw [Nat.mod_eq_of_lt hlt, shadowNext_succ hbase hlt, hword]
    exact hready i hlt

end Start

/-! ## The condition is enough -/

section Sound

variable {L : PtpLayout n m} {s₀ : EthState}

/-- Shadow words that always lead to the neighbour. -/
structure ShadowLinked (L : PtpLayout n m) (s₀ : EthState) : Prop where
  tables : ShadowTables L s₀
  tx : ∀ i, i < n → s₀.shadowNext (L.ptpTx.slot i) = L.ptpTx.slot ((i + 1) % n)
  rx : ∀ i, i < m → s₀.shadowNext (L.ptpRx.slot i) = L.ptpRx.slot ((i + 1) % m)

theorem TxInStep.stable : Prog.Stable (PtpHw L) (TxInStep L) := by
  rintro s s' ⟨i, hi, hcursor, hshadow⟩ hs
  obtain ⟨htx, hptx, -⟩ := hs.cursors
  exact ⟨i, hi, htx.trans hcursor, hptx.trans hshadow⟩

theorem RxInStep.stable : Prog.Stable (PtpHw L) (RxInStep L) := by
  rintro s s' ⟨i, hi, hcursor, hshadow⟩ hs
  obtain ⟨-, -, hrx, hprx⟩ := hs.cursors
  exact ⟨i, hi, hrx.trans hcursor, hprx.trans hshadow⟩

theorem shadow_sound (h₀ : ShadowLinked L s₀) :
    (ptpSystem L).Sound ptpCalls (fun _ => ShadowIdle L s₀) (CopiesInStep L) where
  hw := by
    intro _ s s' h hs
    exact ⟨h.wired.hw hs, TxInStep.stable s s' h.tx hs, RxInStep.stable s s' h.rx hs⟩
  body := by
    intro k _ s h hentry
    cases k with
    | handlePtpTxPkt ppkt frameLength =>
        obtain ⟨i, hi, hcursor, hshadow⟩ := h.tx
        have hstep : TxStep L s₀ i (fun _ => False) s :=
          ⟨h.wired, hcursor, hshadow, fun _ _ hf => hf.elim⟩
        have hwp := hstep.wp_ethHandlePtpTxPkt (A := fun _ _ => True) ppkt frameLength h₀.tables hi
          (N := fun _ => True) (fun _ _ _ _ => trivial)
          (Q := fun _ s => ShadowWired L s₀ s ∧ TxInStep L s)
          (fun s h _ _ => ⟨h.wired, i, hi, h.cursor, h.shadow⟩)
          (fun _ s h => ⟨h.wired, (i + 1) % n, Nat.mod_lt _ L.tx_pos, h.cursor,
            h.shadow.trans (h₀.tx i hi)⟩) trivial
        have hrest := ethHandlePtpTxPkt_accesses (G := fun s s' => RxInStep L s → RxInStep L s')
          (fun _ h => h) (fun _ _ _ h => h) (fun _ _ _ h => h) (fun _ _ h => h) (fun _ _ h => h)
          (fun _ _ h => h) ppkt frameLength
        exact Prog.wp_mono (Prog.wp_and_accesses hwp hrest RxInStep.stable h.rx)
          fun _ s h => ⟨h.1.1, h.1.2, h.2⟩
    | handlePtpRxPkt =>
        obtain ⟨i, hi, hcursor, hshadow⟩ := h.rx
        have hstep : RxStep L s₀ i (fun _ => False) s :=
          ⟨h.wired, hcursor, hshadow, fun _ _ hf => hf.elim⟩
        have hwp := hstep.wp_ethHandlePtpRxPkt (A := fun _ _ => True) h₀.tables hi
          (N := fun _ => True) (fun _ _ _ _ => trivial)
          (Q := fun _ s => ShadowWired L s₀ s ∧ RxInStep L s)
          (fun s h _ _ => ⟨h.wired, i, hi, h.cursor, h.shadow⟩)
          (fun _ s h => ⟨h.wired, (i + 1) % m, Nat.mod_lt _ L.rx_pos, h.cursor,
            h.shadow.trans (h₀.rx i hi)⟩) trivial
        have hpoll : ∀ s : EthState, TxInStep L s → TxInStep L s.pollRx := by
          intro s h
          obtain ⟨r, v, heq⟩ := s.pollRx_eq
          rw [heq]
          exact h
        have hrest := ethHandlePtpRxPkt_accesses (G := fun s s' => TxInStep L s → TxInStep L s')
          (fun _ h => h) (fun _ _ h => h) (fun _ _ h => h) (fun _ _ h => h) hpoll
          (fun _ _ h => h) (fun _ _ h => h)
        exact Prog.wp_mono (Prog.wp_and_accesses hwp hrest TxInStep.stable h.tx)
          fun _ s h => ⟨h.1.1, h.2, h.1.2⟩
    | handleTxPkt => exact absurd hentry id
    | handleRxPkt => exact absurd hentry id
    | dropRxPkt => exact absurd hentry id

end Sound

/-! ## The condition is necessary -/

section Necessary

variable {L : PtpLayout n m} {s₀ s : EthState} {i : Nat} {free : Nat → Prop}

/-- One packet, sent while nothing else happens. -/
theorem TxStep.call (h : TxStep L s₀ i free s) (htab : ShadowTables L s₀) (hi : i < n)
    (hfree : ¬ (s.desc (L.tx.slot i)).Own) (done : List (EthCall × EthResult)) :
    ∃ s' done', (ptpSystem L).Reach ptpCalls ⟨s, none, done⟩ ⟨s', none, done'⟩ ∧
      TxMoved L s₀ i free s' := by
  have hrun := System.Reach.call (ptpSystem L) (D := ptpCalls) (s := s)
    (k := .handlePtpTxPkt (fun _ => 0) 0) (Nat.zero_le _) (fun _ _ => trivial) (fun _ h => by cases h) done
  have hwp := h.wp_ethHandlePtpTxPkt (A := fun _ _ => True) (fun _ => 0) 0 htab hi
    (N := fun s => ¬ (s.desc (L.tx.slot i)).Own) (fun _ _ hf hs => hs.free hf)
    (Q := fun _ => TxMoved L s₀ i free) (fun _ _ hf hown => absurd hown hf) (fun _ _ h => h) hfree
  exact ⟨_, _, hrun, Prog.exec_of_wp hwp fun _ _ => trivial⟩

/-- One packet, taken while nothing else happens. -/
theorem RxStep.call (h : RxStep L s₀ i free s) (htab : ShadowTables L s₀) (hi : i < m)
    (hfree : ¬ (s.desc (L.rx.slot i)).Own) (done : List (EthCall × EthResult)) :
    ∃ s' done', (ptpSystem L).Reach ptpCalls ⟨s, none, done⟩ ⟨s', none, done'⟩ ∧
      RxMoved L s₀ i free s' := by
  have hrun := System.Reach.call (ptpSystem L) (D := ptpCalls) (s := s) (k := .handlePtpRxPkt)
    trivial (fun _ _ => trivial) (fun _ h => by cases h) done
  have hwp := h.wp_ethHandlePtpRxPkt (A := fun _ _ => True) htab hi
    (N := fun s => ¬ (s.desc (L.rx.slot i)).Own) (fun _ _ hf hs => hs.free hf)
    (Q := fun _ => RxMoved L s₀ i free) (fun _ _ hf hown => absurd hown hf) (fun _ _ h => h) hfree
  exact ⟨_, _, hrun, Prog.exec_of_wp hwp fun _ _ => trivial⟩

/-- In step after the call, the shadow cursor was led to the neighbour. -/
theorem TxMoved.inStep (h : TxMoved L s₀ i free s) (hi : i + 1 < n) (hlock : TxInStep L s) :
    s.dmaTxDescToSet = L.tx.slot (i + 1) ∧ s.dmaPtpTxDescToSet = L.ptpTx.slot (i + 1) ∧
      s₀.shadowNext (L.ptpTx.slot i) = L.ptpTx.slot (i + 1) := by
  obtain ⟨j, hj, hcursor, hshadow⟩ := hlock
  have hreal := h.cursor
  rw [Nat.mod_eq_of_lt hi] at hreal
  have hij : j = i + 1 := (L.tx.slot_inj (by decide) hj hi).mp (hcursor.symm.trans hreal)
  rw [hij] at hshadow
  exact ⟨hreal, hshadow, h.shadow.symm.trans hshadow⟩

theorem RxMoved.inStep (h : RxMoved L s₀ i free s) (hi : i + 1 < m) (hlock : RxInStep L s) :
    s.dmaRxDescToGet = L.rx.slot (i + 1) ∧ s.dmaPtpRxDescToGet = L.ptpRx.slot (i + 1) ∧
      s₀.shadowNext (L.ptpRx.slot i) = L.ptpRx.slot (i + 1) := by
  obtain ⟨j, hj, hcursor, hshadow⟩ := hlock
  have hreal := h.cursor
  rw [Nat.mod_eq_of_lt hi] at hreal
  have hij : j = i + 1 := (L.rx.slot_inj (by decide) hj hi).mp (hcursor.symm.trans hreal)
  rw [hij] at hshadow
  exact ⟨hreal, hshadow, h.shadow.symm.trans hshadow⟩

variable (hlock : ∀ c, (ptpSystem L).Reach ptpCalls (.start s₀) c → ShadowLockstep L c)
include hlock

/-- If the cursors are always in step, the first `k` packets of a free table take both to its `k`-th
    descriptor. -/
theorem txPackets (htab : ShadowTables L s₀) (h₀ : TxStep L s₀ 0 (0 < ·) s₀)
    (hfree : ¬ (s₀.desc (L.tx.slot 0)).Own) (k : Nat) (hk : k < n) :
    ∃ s done, (ptpSystem L).Reach ptpCalls (.start s₀) ⟨s, none, done⟩ ∧
      TxStep L s₀ k (k < ·) s ∧ ¬ (s.desc (L.tx.slot k)).Own := by
  induction k with
  | zero => exact ⟨s₀, [], .refl, h₀, hfree⟩
  | succ k ih =>
      obtain ⟨s, done, hreach, hstep, hown⟩ := ih (by omega)
      obtain ⟨s', done', hcall, hmoved⟩ := hstep.call htab (by omega) hown done
      have hrun := hreach.trans hcall
      obtain ⟨hcursor, hshadow, -⟩ := hmoved.inStep hk ((hlock _ hrun).tx rfl)
      refine ⟨s', done', hrun, ⟨hmoved.wired, hcursor, hshadow, fun j hj hlt hne => ?_⟩, ?_⟩
      · exact hmoved.free j hj (show k < j by omega) (by omega)
      · exact hmoved.free (k + 1) hk (Nat.lt_succ_self k) (by omega)

/-- So each shadow word but the last leads to the next descriptor. -/
theorem txLinked (htab : ShadowTables L s₀) (h₀ : TxStep L s₀ 0 (0 < ·) s₀)
    (hfree : ¬ (s₀.desc (L.tx.slot 0)).Own) (hi : i + 1 < n) :
    s₀.shadowNext (L.ptpTx.slot i) = L.ptpTx.slot (i + 1) := by
  obtain ⟨s, done, hreach, hstep, hown⟩ := txPackets hlock htab h₀ hfree i (by omega)
  obtain ⟨s', done', hcall, hmoved⟩ := hstep.call htab (by omega) hown done
  exact (hmoved.inStep hi ((hlock _ (hreach.trans hcall)).tx rfl)).2.2

theorem rxPackets {s₁ : EthState} (hreach₁ : (ptpSystem L).Reach ptpCalls (.start s₀) (.start s₁))
    (htab : ShadowTables L s₀) (h₁ : RxStep L s₀ 0 (0 < ·) s₁)
    (hfree : ¬ (s₁.desc (L.rx.slot 0)).Own) (k : Nat) (hk : k < m) :
    ∃ s done, (ptpSystem L).Reach ptpCalls (.start s₀) ⟨s, none, done⟩ ∧
      RxStep L s₀ k (k < ·) s ∧ ¬ (s.desc (L.rx.slot k)).Own := by
  induction k with
  | zero => exact ⟨s₁, [], hreach₁, h₁, hfree⟩
  | succ k ih =>
      obtain ⟨s, done, hreach, hstep, hown⟩ := ih (by omega)
      obtain ⟨s', done', hcall, hmoved⟩ := hstep.call htab (by omega) hown done
      have hrun := hreach.trans hcall
      obtain ⟨hcursor, hshadow, -⟩ := hmoved.inStep hk ((hlock _ hrun).rx rfl)
      refine ⟨s', done', hrun, ⟨hmoved.wired, hcursor, hshadow, fun j hj hlt hne => ?_⟩, ?_⟩
      · exact hmoved.free j hj (show k < j by omega) (by omega)
      · exact hmoved.free (k + 1) hk (Nat.lt_succ_self k) (by omega)

theorem rxLinked {s₁ : EthState} (hreach₁ : (ptpSystem L).Reach ptpCalls (.start s₀) (.start s₁))
    (htab : ShadowTables L s₀) (h₁ : RxStep L s₀ 0 (0 < ·) s₁)
    (hfree : ¬ (s₁.desc (L.rx.slot 0)).Own) (hi : i + 1 < m) :
    s₀.shadowNext (L.ptpRx.slot i) = L.ptpRx.slot (i + 1) := by
  obtain ⟨s, done, hreach, hstep, hown⟩ := rxPackets hlock hreach₁ htab h₁ hfree i (by omega)
  obtain ⟨s', done', hcall, hmoved⟩ := hstep.call htab (by omega) hown done
  exact (hmoved.inStep hi ((hlock _ (hreach.trans hcall)).rx rfl)).2.2

end Necessary

/-- After `k` frames that nobody took: they fill the first `k` descriptors. -/
structure RxFilled (L : PtpLayout n m) (s₀ : EthState) (k : Nat) (s : EthState) : Prop where
  wired : ShadowWired L s₀ s
  cursor : s.dmaRxDescToGet = L.rx.slot 0
  shadow : s.dmaPtpRxDescToGet = L.ptpRx.slot 0
  txCur : s.txCur = L.tx.slot 0
  rxCur : s.rxCur = L.rx.slot (k % m)
  awake : s.rxSuspended = false
  full : ∀ j, j < m → j < k → ¬ (s.desc (L.rx.slot j)).Own
  empty : ∀ j, j < m → k ≤ j → s.desc (L.rx.slot j) =
    { status := ethDmaRxDescOwn
      controlBufferSize := ethDmaRxDescRch ||| BitVec.ofNat 32 ethMaxPacketSize
      buffer1Addr := L.rxBuf.slot j
      buffer2NextDescAddr := L.rx.slot ((j + 1) % m) }

theorem RxFilled.fill {L : PtpLayout n m} {s₀ s : EthState} {k : Nat} (h : RxFilled L s₀ k s)
    (hk : k < m) : PtpHw L s (s.rxFill goodArrival (0, 0)) ∧
      RxFilled L s₀ (k + 1) (s.rxFill goodArrival (0, 0)) := by
  have hcur : s.rxCur = L.rx.slot k := by rw [h.rxCur, Nat.mod_eq_of_lt hk]
  have hdesc := h.empty k hk (Nat.le_refl k)
  have hown : (s.desc s.rxCur).Own := by
    have hbit : ethDmaRxDescOwn &&& ethDmaTxDescOwn ≠ 0 := by decide
    rw [hcur, hdesc]
    exact hbit
  have hbuf : (s.desc (L.rx.slot k)).buffer1Addr = L.rxBuf.slot k := by rw [hdesc]
  have hhw : PtpHw L s (s.rxFill goodArrival (0, 0)) := by
    refine ⟨.fill goodArrival (0, 0) hown h.awake ?_, ⟨0, L.tx_pos, h.txCur⟩, k, hk, hcur,
      fun _ => hbuf⟩
    rw [hcur, hdesc]
    change goodArrival.bytes.length ≤
      ((ethDmaRxDescRch ||| BitVec.ofNat 32 ethMaxPacketSize) &&& ethDmaRxDescRbs1).toNat
    decide
  have hself : (s.rxFill goodArrival (0, 0)).desc (L.rx.slot k) =
      s.rxClosed (L.rx.slot k) goodArrival.status (0, 0) := by
    simp only [EthState.rxFill, hcur, Function.update_self]
  have hother : ∀ j, j < m → j ≠ k →
      (s.rxFill goodArrival (0, 0)).desc (L.rx.slot j) = s.desc (L.rx.slot j) := by
    intro j hj hne
    simp only [EthState.rxFill, hcur, Function.update_of_ne (L.rx_ne_rx hj hk hne)]
  refine ⟨hhw, h.wired.hw hhw, h.cursor, h.shadow, h.txCur, ?_, h.awake, fun j hj hlt => ?_,
    fun j hj hle => ?_⟩
  · have hrer : (ethDmaRxDescRch ||| BitVec.ofNat 32 ethMaxPacketSize) &&& ethDmaRxDescRer = 0 := by
      decide
    have hrch : (ethDmaRxDescRch ||| BitVec.ofNat 32 ethMaxPacketSize) &&& ethDmaRxDescRch ≠ 0 := by
      decide
    simp only [EthState.rxFill, EthState.rxNext, hcur, hdesc, if_neg (not_not_intro hrer),
      if_pos hrch]
  · by_cases heq : j = k
    · subst heq
      rw [hself]
      unfold EthState.rxClosed
      split
      · exact not_not_intro goodArrival.notOwn
      · exact not_not_intro goodArrival.notOwn
    · rw [hother j hj heq]
      exact h.full j hj (by omega)
  · rw [hother j hj (by omega)]
    exact h.empty j hj (by omega)

section Iff

variable (L : PtpLayout n m) (desc : Word → EthDmaDesc) (ram : Word → Byte) (dmaSts dmaBm : Word)
  (timeStamping : Bool)

/-- Frames can fill the whole table before the first is taken. -/
theorem ptpStart_fills (k : Nat) (hk : k ≤ m) : ∃ s,
    (ptpSystem L).Reach ptpCalls (.start (ptpStart L desc ram dmaSts dmaBm timeStamping))
      (.start s) ∧
    RxFilled L (ptpStart L desc ram dmaSts dmaBm timeStamping) k s := by
  induction k with
  | zero =>
      obtain ⟨-, hidle⟩ := ptpStart_shadow L desc ram dmaSts dmaBm timeStamping
      refine ⟨_, .refl, ?_⟩
      obtain ⟨D, hstart, htab⟩ := ptpStart_spec L desc ram dmaSts dmaBm timeStamping
      have hwired := hidle.wired
      rw [hstart] at hwired ⊢
      refine ⟨hwired, L.rx.slot_zero.symm, L.ptpRx.slot_zero.symm, L.tx.slot_zero.symm, ?_, rfl,
        fun j _ hj => absurd hj (Nat.not_lt_zero j), fun j hj _ => htab.rx j hj⟩
      rw [Nat.zero_mod, Region.slot_zero]
  | succ k ih =>
      obtain ⟨s, hreach, h⟩ := ih (by omega)
      obtain ⟨hhw, hnext⟩ := h.fill (by omega)
      exact ⟨_, hreach.tail (.hw hhw), hnext⟩

theorem ShadowReady.lockstep (hready : ShadowReady L desc)
    {c : Config EthState EthCall EthResult} (hc : (ptpSystem L).Reach ptpCalls
      (.start (ptpStart L desc ram dmaSts dmaBm timeStamping)) c) : ShadowLockstep L c := by
  obtain ⟨htab, hidle⟩ := ptpStart_shadow L desc ram dmaSts dmaBm timeStamping
  have hlinked : ShadowLinked L (ptpStart L desc ram dmaSts dmaBm timeStamping) :=
    ⟨htab, fun i hi => shadowNext_mod L.ptpTx_base (fun j hj => ptpStart_ptpTx hj) hready.tx hi,
      fun i hi => shadowNext_mod L.ptpRx_base (fun j hj => ptpStart_ptpRx hj) hready.rx hi⟩
  have hsound := shadow_sound hlinked
  exact ⟨fun h => (hsound.idle hidle hc h).tx, fun h => (hsound.idle hidle hc h).rx,
    fun k c' ha => hsound.guarantee hidle hc ha⟩

/-- A transmit table is free from the start. -/
theorem ptpStart_txFree {j : Nat} (hj : j < n) :
    ¬ ((ptpStart L desc ram dmaSts dmaBm timeStamping).desc (L.tx.slot j)).Own := by
  obtain ⟨D, hstart, htab⟩ := ptpStart_spec L desc ram dmaSts dmaBm timeStamping
  rw [hstart, EthDmaDesc.Own]
  simp only [htab.tx j hj]
  decide

variable {L desc ram dmaSts dmaBm timeStamping}

/-- One lap through either table tells all its shadow words. -/
theorem ShadowReady.of_lockstep (hlock : ∀ c, (ptpSystem L).Reach ptpCalls
      (.start (ptpStart L desc ram dmaSts dmaBm timeStamping)) c → ShadowLockstep L c) :
    ShadowReady L desc := by
  obtain ⟨htab, hidle⟩ := ptpStart_shadow L desc ram dmaSts dmaBm timeStamping
  have htx₀ : TxStep L (ptpStart L desc ram dmaSts dmaBm timeStamping) 0 (0 < ·)
      (ptpStart L desc ram dmaSts dmaBm timeStamping) := by
    obtain ⟨D, hstart, -⟩ := ptpStart_spec L desc ram dmaSts dmaBm timeStamping
    refine ⟨hidle.wired, ?_, ?_, fun j hj _ _ => ptpStart_txFree L desc ram _ _ _ hj⟩
    · rw [hstart, Region.slot_zero]
    · rw [hstart, Region.slot_zero]
  obtain ⟨s₁, hreach₁, hfull⟩ := ptpStart_fills L desc ram dmaSts dmaBm timeStamping m
    (Nat.le_refl m)
  have hrx₁ : RxStep L (ptpStart L desc ram dmaSts dmaBm timeStamping) 0 (0 < ·) s₁ :=
    ⟨hfull.wired, hfull.cursor, hfull.shadow, fun j hj _ _ => hfull.full j hj hj⟩
  refine ⟨fun i hi => ?_, fun i hi => ?_⟩
  · have hnext := txLinked hlock htab htx₀ (ptpStart_txFree L desc ram _ _ _ L.tx_pos) hi
    rw [shadowNext_succ L.ptpTx_base hi, ptpStart_ptpTx (by omega), if_neg (by omega)] at hnext
    exact hnext
  · have hnext := rxLinked hlock hreach₁ htab hrx₁ (hfull.full 0 L.rx_pos L.rx_pos) hi
    rw [shadowNext_succ L.ptpRx_base hi, ptpStart_ptpRx (by omega), if_neg (by omega)] at hnext
    exact hnext

end Iff

/-- **The shadow cursors stay in step exactly when the shadow words that the initialisation leaves
    alone hold zero, or the address of the next shadow descriptor.** -/
theorem ptp_lockstep_iff (L : PtpLayout n m) (desc : Word → EthDmaDesc) (ram : Word → Byte)
    (dmaSts dmaBm : Word) (timeStamping : Bool) :
    (∀ c, (ptpSystem L).Reach ptpCalls
        (.start (ptpStart L desc ram dmaSts dmaBm timeStamping)) c → ShadowLockstep L c) ↔
      ShadowReady L desc :=
  ⟨ShadowReady.of_lockstep,
    fun hready _ hc => hready.lockstep L desc ram dmaSts dmaBm timeStamping hc⟩

/-- A one in the first word of the transmit shadow table, whose second descriptor is the last: after
    one packet the shadow cursor points at address one. -/
theorem ptp_lockstep_fails : ¬ ∀ c, (ptpSystem sramPtpLayout).Reach ptpCalls
    (.start (ptpStart sramPtpLayout (fun _ => ⟨1, 0, 0, 0⟩) (fun _ => 0) 0 0 false)) c →
      ShadowLockstep sramPtpLayout c := by
  intro hlock
  have hready := (ShadowReady.of_lockstep hlock).tx 0 (by decide)
  revert hready
  decide

end Eth
