import McuDrivers.Eth.Chain
import McuDrivers.Eth.Driver
import McuDrivers.Eth.Init
import Mathlib.Logic.Function.Iterate
import Mathlib.Tactic.IntervalCases

set_option autoImplicit false

/-! # Ethernet: the cursors in ring mode

In ring mode a descriptor does not hold the address of the next one. The engines go from one to the
next by a distance, back to the base of the list at the end-of-ring bit, and the driver has to do the
same with its own cursors. It does if no distance is to be skipped, and if the words that
`ETH_DMATxDescRingInit` does not write, the status words of all descriptors but the last, happen to
hold neither OWN nor TCH. These conditions are also necessary, but for a list whose first descriptor
is its last as well, where the distance is never used.

Frames are counted by the calls that hand one over or take one, so that a call of `ETH_DropRxPkt` which
finds none is an error of its caller: it moves the cursor all the same. -/

namespace Eth

variable {n m : Nat}

/-- Both tables, initialised in ring mode, with the second buffers at `txBuff2` and `rxBuff2`. -/
def ringStart (L : Layout n m) (txBuff2 rxBuff2 : Word) (desc : Word → EthDmaDesc)
    (ram : Word → Byte) (dmaSts dmaBm : Word) (timeStamping : Bool) : EthState :=
  dmaRxDescRingInit L.rx.base L.rxBuf.base rxBuff2 m
    (dmaTxDescRingInit L.tx.base L.txBuf.base txBuff2 n
      (EthState.boot desc ram dmaSts dmaBm timeStamping))

/-- The calls of a driver in ring mode: packets that fit a buffer, receptions and drops. -/
def ringCalls : Discipline EthState EthCall :=
  .onEntry fun k _ => match k with
    | .handleTxPkt _ frameLength => frameLength.toNat ≤ ethMaxPacketSize
    | .handleRxPkt | .dropRxPkt => True
    | _ => False

/-- Those of a driver that drops only what has arrived. `ETH_DropRxPkt` does not look, and with one
    receive descriptor it need not. -/
def ringCallsHeld (m : Nat) : Discipline EthState EthCall :=
  .onEntry fun k s => ringCalls.entry k s ∧
    (k = .dropRxPkt → m = 1 ∨ ¬ (s.desc s.dmaRxDescToGet).Own)

/-- A finished call that handed a frame to the transmit engine. -/
def sendsFrame (kr : (EthCall × Bool) × EthResult) : Bool :=
  match kr.1.1 with
  | .handleTxPkt _ _ => decide (kr.2.ret = ethSuccess)
  | _ => false

/-- A finished call that took the frame it found, or dropped it. -/
def takesFrame (kr : (EthCall × Bool) × EthResult) : Bool :=
  match kr.1 with
  | (.handleRxPkt, found) | (.dropRxPkt, found) => found
  | _ => false

/-- How many frames the calls so far have handed over, and how many they have taken. -/
def txFrames (done : NotedCalls) : Nat := done.countP sendsFrame

def rxFrames (done : NotedCalls) : Nat := done.countP takesFrame

/-- Where the driver and the engines are in their tables, in a run from `s₀`: after `k` frames each
    is where `k` steps of the engine lead from the base. -/
structure RingAgree (L : Layout n m) (s₀ : EthState) (c : NotedConfig) : Prop where
  txInside : ∃ i, i < n ∧ c.st.dmaTxDescToSet = L.tx.slot i
  rxInside : ∃ i, i < m ∧ c.st.dmaRxDescToGet = L.rx.slot i
  txCursor : c.running = none → c.st.dmaTxDescToSet = s₀.txNext^[txFrames c.done] L.tx.base
  rxCursor : c.running = none → c.st.dmaRxDescToGet = s₀.rxNext^[rxFrames c.done] L.rx.base
  txEngine : c.st.txCur = s₀.txNext^[c.st.sent.length] L.tx.base
  rxEngine : c.st.rxCur = s₀.rxNext^[c.st.arrived.length] L.rx.base

/-- The runs from `s₀` in which frames that have arrived are received or dropped, and packets sent. -/
abbrev RingReach (m : Nat) (s₀ : EthState) (c : NotedConfig) : Prop :=
  (ethSystem.noting Bool).Reach ((ringCallsHeld m).noting EthCall.finds) (.start s₀) c

/-- Driver and engines agree in every run from `s₀`, and no descriptor starts out owned by the
    transmit DMA or marked chained. -/
structure RingModeWorks (L : Layout n m) (s₀ : EthState) : Prop where
  free : ∀ i, i < n → ¬ (s₀.desc (L.tx.slot i)).Own
  unchained : ∀ i, i < n → (s₀.desc (L.tx.slot i)).status &&& ethDmaTxDescTch = 0
  agree : ∀ c, RingReach m s₀ c → RingAgree L s₀ c

/-- The descriptor skip length DSL, in place. -/
def dsl (dmaBm : Word) : Word := dmaBm &&& ethDmaBmDsl

/-- The condition on what memory and `DMABM` held before the initialisation. -/
structure RingModeReady (L : Layout n m) (desc : Word → EthDmaDesc) (dmaBm : Word) : Prop where
  free : ∀ i, i + 1 < n → (desc (L.tx.slot i)).status &&& ethDmaTxDescOwn = 0
  unchained : ∀ i, i + 1 < n → (desc (L.tx.slot i)).status &&& ethDmaTxDescTch = 0
  txSkip : dsl dmaBm = 0 ∨ n = 1 ∨ (desc (L.tx.slot 0)).status &&& ethDmaTxDescTer ≠ 0
  rxSkip : dsl dmaBm = 0 ∨ m = 1

/-! ## One distance, and another -/

/-- Without a skip length both are the size of a descriptor. -/
theorem skip_eq {s : EthState} (h : dsl s.dmaBm = 0) : s.cpuSkip = 16 ∧ s.dmaSkip = 16 := by
  unfold dsl at h
  simp only [EthState.cpuSkip, EthState.dmaSkip, h]
  decide

/-- The field has five bits. -/
theorem dsl_eq (dmaBm : Word) : dsl dmaBm = ((dmaBm >>> 2).setWidth 5).setWidth 32 <<< 2 := by
  unfold dsl ethDmaBmDsl
  ext i hi
  interval_cases i <;> simp

/-- With one, the driver skips as many bytes as the engine skips words. -/
theorem skip_ne {s : EthState} (h : dsl s.dmaBm ≠ 0) : s.cpuSkip ≠ s.dmaSkip := by
  have hfield : ∀ v : BitVec 5, v ≠ 0 →
      0x10 + ((v.setWidth 32 <<< 2) >>> 2) ≠ (16 : Word) + 4 * ((v.setWidth 32 <<< 2) >>> 2) := by
    decide
  have hne : (s.dmaBm >>> 2).setWidth 5 ≠ 0 := by
    intro h0
    rw [dsl_eq, h0] at h
    exact h (by decide)
  have hskip := hfield _ hne
  rw [← dsl_eq] at hskip
  exact hskip

/-! ## What the initialisation leaves -/

section Start

variable (L : Layout n m) (txBuff2 rxBuff2 : Word) (desc : Word → EthDmaDesc) (ram : Word → Byte)
  (dmaSts dmaBm : Word) (timeStamping : Bool)

theorem ringStart_spec :
    ∃ D, ringStart L txBuff2 rxBuff2 desc ram dmaSts dmaBm timeStamping =
        { EthState.boot desc ram dmaSts dmaBm timeStamping with
          desc := D
          dmaTxDescToSet := L.tx.base, dmaTdlAddr := L.tx.base, txCur := L.tx.base
          dmaRxDescToGet := L.rx.base, dmaRdlAddr := L.rx.base, rxCur := L.rx.base } ∧
      (∀ i, i < n → (D (L.tx.slot i)).status =
        if i = n - 1 then ethDmaTxDescTer else (desc (L.tx.slot i)).status) ∧
      ∀ i, i < m → (D (L.rx.slot i)).Own ∧ (D (L.rx.slot i)).controlBufferSize =
        if i = m - 1 then BitVec.ofNat 32 ethMaxPacketSize ||| ethDmaRxDescRer
        else BitVec.ofNat 32 ethMaxPacketSize := by
  obtain ⟨T, hT, hTin, -⟩ := dmaTxDescRingInit_spec L.tx L.txBuf.base txBuff2
    (EthState.boot desc ram dmaSts dmaBm timeStamping)
  obtain ⟨R, hR, hRin, hRout⟩ := dmaRxDescRingInit_spec L.rx L.rxBuf.base rxBuff2
    { EthState.boot desc ram dmaSts dmaBm timeStamping with
      desc := T, dmaTxDescToSet := L.tx.base, dmaTdlAddr := L.tx.base, txCur := L.tx.base }
  refine ⟨R, ?_, fun i hi => ?_, fun i hi => ?_⟩
  · rw [ringStart, hT, hR]
  · have hkeep : R (L.tx.slot i) = T (L.tx.slot i) := hRout _ fun j hj => L.tx_ne_rx hi hj
    rw [hkeep, hTin i hi]
    rfl
  · have hown : ethDmaRxDescOwn &&& ethDmaTxDescOwn ≠ 0 := by decide
    rw [hRin i hi]
    exact ⟨hown, rfl⟩

end Start

/-! ## The walk of an engine -/

/-- The engine, going by `next` from the base of the table `r`, only comes to descriptors of which
    `V` holds, and these are in the table. -/
structure RingWalk (r : Region 32 16 n) (next : Word → Word) (V : Nat → Prop) : Prop where
  zero : V 0
  lt : ∀ i, V i → i < n
  step : ∀ i, V i → ∃ j, V j ∧ next (r.slot i) = r.slot j

theorem RingWalk.pos {r : Region 32 16 n} {next : Word → Word} {V : Nat → Prop}
    (h : RingWalk r next V) (k : Nat) : ∃ i, V i ∧ next^[k] r.base = r.slot i := by
  induction k with
  | zero => exact ⟨0, h.zero, by rw [Function.iterate_zero, id, Region.slot_zero]⟩
  | succ k ih =>
      obtain ⟨i, hi, hpos⟩ := ih
      obtain ⟨j, hj, hnext⟩ := h.step i hi
      exact ⟨j, hj, by rw [Function.iterate_succ_apply', hpos, hnext]⟩

/-- An engine that goes back from each marked descriptor, and on from the others to the next one,
    stays in the table: where it may go past the first descriptor (`P`), as well as where it may not. -/
theorem RingWalk.of_marks {r : Region 32 16 n} {next : Word → Word} {P : Prop} (hn : 0 < n)
    (hnext : ∀ i, i < n → P ∨ i = 0 →
      next (r.slot i) = r.base ∨ P ∧ i + 1 < n ∧ next (r.slot i) = r.slot (i + 1)) :
    RingWalk r next (fun i => i < n ∧ (P ∨ i = 0)) where
  zero := ⟨hn, .inr rfl⟩
  lt _ hi := hi.1
  step i hi := by
    rcases hnext i hi.1 hi.2 with hback | ⟨hP, hlt, hon⟩
    · exact ⟨0, ⟨hn, .inr rfl⟩, by rw [hback, Region.slot_zero]⟩
    · exact ⟨i + 1, ⟨hlt, .inl hP⟩, hon⟩

/-- What of the start the runs rest on: no chained descriptor, and walks that stay in the tables, on
    which driver and engine skip the same distance. -/
structure RingSetup (L : Layout n m) (s₀ : EthState) (V W : Nat → Prop) : Prop where
  tdl : s₀.dmaTdlAddr = L.tx.base
  rdl : s₀.dmaRdlAddr = L.rx.base
  tch : ∀ i, i < n → (s₀.desc (L.tx.slot i)).status &&& ethDmaTxDescTch = 0
  rch : ∀ i, i < m → (s₀.desc (L.rx.slot i)).controlBufferSize &&& ethDmaRxDescRch = 0
  txWalk : RingWalk L.tx s₀.txNext V
  rxWalk : RingWalk L.rx s₀.rxNext W
  txSkip : ∀ i, V i → (s₀.desc (L.tx.slot i)).status &&& ethDmaTxDescTer = 0 →
    s₀.cpuSkip = s₀.dmaSkip
  rxSkip : ∀ i, W i → (s₀.desc (L.rx.slot i)).controlBufferSize &&& ethDmaRxDescRer = 0 →
    s₀.cpuSkip = s₀.dmaSkip

/-- What stays true in a run from such a start. -/
structure RingInv (L : Layout n m) (s₀ s : EthState) : Prop where
  tdl : s.dmaTdlAddr = L.tx.base
  rdl : s.dmaRdlAddr = L.rx.base
  bm : s.dmaBm = s₀.dmaBm
  ter : ∀ i, i < n → (s.desc (L.tx.slot i)).status &&& ethDmaTxDescTer =
    (s₀.desc (L.tx.slot i)).status &&& ethDmaTxDescTer
  tch : ∀ i, i < n → (s.desc (L.tx.slot i)).status &&& ethDmaTxDescTch = 0
  size : ∀ i, i < m → (s.desc (L.rx.slot i)).controlBufferSize =
    (s₀.desc (L.rx.slot i)).controlBufferSize
  txCursor : s.dmaTxDescToSet = s₀.txNext^[s.txMoves] L.tx.base
  rxCursor : s.dmaRxDescToGet = s₀.rxNext^[s.rxMoves] L.rx.base
  txEngine : s.txCur = s₀.txNext^[s.sent.length] L.tx.base
  rxEngine : s.rxCur = s₀.rxNext^[s.arrived.length] L.rx.base

section Invariant

variable {L : Layout n m} {s₀ : EthState} {V W : Nat → Prop}

theorem RingInv.dmaSkip {s : EthState} (h : RingInv L s₀ s) : s.dmaSkip = s₀.dmaSkip := by
  rw [EthState.dmaSkip, EthState.dmaSkip, h.bm]

theorem RingInv.cpuSkip {s : EthState} (h : RingInv L s₀ s) : s.cpuSkip = s₀.cpuSkip := by
  rw [EthState.cpuSkip, EthState.cpuSkip, h.bm]

theorem RingInv.txNext {s : EthState} (h : RingInv L s₀ s) (h₀ : RingSetup L s₀ V W) {i : Nat}
    (hi : i < n) : s.txNext (L.tx.slot i) = s₀.txNext (L.tx.slot i) := by
  simp only [EthState.txNext, h.ter i hi, h.tch i hi, h₀.tch i hi, h.tdl, h₀.tdl, h.dmaSkip,
    ne_eq, not_true, if_false]

theorem RingInv.rxNext {s : EthState} (h : RingInv L s₀ s) (h₀ : RingSetup L s₀ V W) {i : Nat}
    (hi : i < m) : s.rxNext (L.rx.slot i) = s₀.rxNext (L.rx.slot i) := by
  simp only [EthState.rxNext, h.size i hi, h₀.rch i hi, h.rdl, h₀.rdl, h.dmaSkip, ne_eq, not_true,
    if_false]

/-- A change of one transmit descriptor that leaves TER and TCH alone. -/
theorem RingInv.txDesc {s : EthState} (h : RingInv L s₀ s) (s' : EthState) {i : Nat} (hi : i < n)
    {d : EthDmaDesc} (hdesc : s'.desc = Function.update s.desc (L.tx.slot i) d)
    (hter : d.status &&& ethDmaTxDescTer =
      (s.desc (L.tx.slot i)).status &&& ethDmaTxDescTer)
    (htch : d.status &&& ethDmaTxDescTch = 0) :
    (∀ j, j < n → (s'.desc (L.tx.slot j)).status &&& ethDmaTxDescTer =
      (s₀.desc (L.tx.slot j)).status &&& ethDmaTxDescTer) ∧
    (∀ j, j < n → (s'.desc (L.tx.slot j)).status &&& ethDmaTxDescTch = 0) ∧
    ∀ j, j < m → (s'.desc (L.rx.slot j)).controlBufferSize =
      (s₀.desc (L.rx.slot j)).controlBufferSize := by
  rw [hdesc]
  refine ⟨fun j hj => ?_, fun j hj => ?_, fun j hj => ?_⟩
  · by_cases heq : j = i
    · subst heq
      rw [Function.update_self, hter]
      exact h.ter j hi
    · rw [Function.update_of_ne (L.tx_ne_tx hj hi heq)]
      exact h.ter j hj
  · by_cases heq : j = i
    · subst heq
      rwa [Function.update_self]
    · rw [Function.update_of_ne (L.tx_ne_tx hj hi heq)]
      exact h.tch j hj
  · rw [Function.update_of_ne (L.tx_ne_rx hi hj).symm]
    exact h.size j hj

/-- A change of one receive descriptor that leaves its control word alone. -/
theorem RingInv.rxDesc {s : EthState} (h : RingInv L s₀ s) (s' : EthState) {i : Nat} (hi : i < m)
    {d : EthDmaDesc} (hdesc : s'.desc = Function.update s.desc (L.rx.slot i) d)
    (hsize : d.controlBufferSize = (s.desc (L.rx.slot i)).controlBufferSize) :
    (∀ j, j < n → (s'.desc (L.tx.slot j)).status &&& ethDmaTxDescTer =
      (s₀.desc (L.tx.slot j)).status &&& ethDmaTxDescTer) ∧
    (∀ j, j < n → (s'.desc (L.tx.slot j)).status &&& ethDmaTxDescTch = 0) ∧
    ∀ j, j < m → (s'.desc (L.rx.slot j)).controlBufferSize =
      (s₀.desc (L.rx.slot j)).controlBufferSize := by
  rw [hdesc]
  refine ⟨fun j hj => ?_, fun j hj => ?_, fun j hj => ?_⟩
  · rw [Function.update_of_ne (L.tx_ne_rx hj hi)]
    exact h.ter j hj
  · rw [Function.update_of_ne (L.tx_ne_rx hj hi)]
    exact h.tch j hj
  · by_cases heq : j = i
    · subst heq
      rw [Function.update_self, hsize]
      exact h.size j hi
    · rw [Function.update_of_ne (L.rx_ne_rx hj hi heq)]
      exact h.size j hj

theorem RingInv.hw {s s' : EthState} (h : RingInv L s₀ s) (h₀ : RingSetup L s₀ V W)
    (hs : EthHw s s') : RingInv L s₀ s' := by
  cases hs with
  | send wb stamp hown =>
      obtain ⟨i, hi, hpos⟩ := h₀.txWalk.pos s.sent.length
      have hlt := h₀.txWalk.lt i hi
      have hcur : s.txCur = L.tx.slot i := h.txEngine.trans hpos
      have hdesc : (s.txSend wb stamp).desc = Function.update s.desc (L.tx.slot i)
          (s.txClosed (L.tx.slot i) wb stamp) := by
        simp only [EthState.txSend, hcur]
      have htch := (txClosed_and ethDmaTxDescTch s (L.tx.slot i) wb stamp (by decide) (by decide)
        (by decide)).trans (h.tch i hlt)
      obtain ⟨h1, h2, h3⟩ := h.txDesc _ hlt hdesc
        (txClosed_and _ s _ wb stamp (by decide) (by decide) (by decide)) htch
      refine { h with ter := h1, tch := h2, size := h3, txEngine := ?_ }
      simp only [EthState.txSend, List.length_append, List.length_singleton]
      rw [Function.iterate_succ_apply', hpos, hcur]
      exact h.txNext h₀ hlt
  | txUnavailable hown => exact { h with }
  | fill a stamp hown hawake hfits =>
      obtain ⟨i, hi, hpos⟩ := h₀.rxWalk.pos s.arrived.length
      have hlt := h₀.rxWalk.lt i hi
      have hcur : s.rxCur = L.rx.slot i := h.rxEngine.trans hpos
      have hdesc : (s.rxFill a stamp).desc = Function.update s.desc (L.rx.slot i)
          (s.rxClosed (L.rx.slot i) a.status stamp) := by
        simp only [EthState.rxFill, hcur]
      obtain ⟨h1, h2, h3⟩ := h.rxDesc _ hlt hdesc (rxClosed_size s _ _ _)
      refine { h with ter := h1, tch := h2, size := h3, rxEngine := ?_ }
      simp only [EthState.rxFill, List.length_append, List.length_singleton]
      rw [Function.iterate_succ_apply', hpos, hcur]
      exact h.rxNext h₀ hlt
  | rxUnavailable hown hawake => exact { h with }

end Invariant

/-! ## The calls -/

/-- An assertion that a transmit call can carry along while it fills the descriptor at its cursor: it
    fixes the bits TER and TCH there, and rests on nothing else that the call stores. -/
structure TxSteady (R : EthState → EthState → Prop) (bit : Word) (P : EthState → Prop) : Prop where
  stable : Prog.Stable R P
  ter : ∀ s, P s → (s.desc s.dmaTxDescToSet).status &&& ethDmaTxDescTer = bit
  tch : ∀ s, P s → (s.desc s.dmaTxDescToSet).status &&& ethDmaTxDescTch = 0
  byte : ∀ s a b, P s → P (s.putByte a b)
  desc : ∀ s d, P s → d.status &&& ethDmaTxDescTer = bit → d.status &&& ethDmaTxDescTch = 0 →
    P (s.putDesc s.dmaTxDescToSet d)
  sts : ∀ s v, P s → P { s with dmaSts := v }

section Calls

variable {R A G : EthState → EthState → Prop} {bit : Word} {P : EthState → Prop}

theorem TxSteady.wp_orStatus (h : TxSteady R bit P) (hG : ∀ s s', P s → P s' → G s s')
    {mask : Word} (hter : mask &&& ethDmaTxDescTer = 0) (htch : mask &&& ethDmaTxDescTch = 0)
    {s : EthState} (hs : P s) :
    (orStatus (·.dmaTxDescToSet) mask).wp R A G (fun _ => P) s := by
  rw [orStatus, Prog.wp_bind]
  apply wp_loadDesc h.stable hs
  intro s hs
  refine ⟨hG _ _ hs hs, ?_⟩
  -- the value stored is made from the one loaded
  have hload := h.ter s hs
  have hload' := h.tch s hs
  apply wp_storeDesc h.stable hs
  intro t ht _
  have hstore : P (t.putDesc t.dmaTxDescToSet
      { t.desc t.dmaTxDescToSet with status := (s.desc s.dmaTxDescToSet).status ||| mask }) :=
    h.desc t _ ht ((Mask.or_and_of_disjoint _ hter).trans hload)
      ((Mask.or_and_of_disjoint _ htch).trans hload')
  exact ⟨hG _ _ ht hstore, hstore⟩

/-- All of `ETH_HandleTxPkt` but its tail. -/
theorem TxSteady.wp_ethHandleTxPkt (h : TxSteady R bit P) (hG : ∀ s s', P s → P s' → G s s')
    {Q : EthResult → EthState → Prop} (herror : ∀ s, P s → (s.desc s.dmaTxDescToSet).Own →
      Q (.code ethError) s)
    (htail : ∀ s, P s → advanceTx.wp R A G (fun _ => Q (.code ethSuccess)) s)
    (ppkt : Nat → Byte) (frameLength : BitVec 16) {s : EthState} (hs : P s) :
    (ethHandleTxPkt ppkt frameLength).wp R A G Q s := by
  rw [ethHandleTxPkt, Prog.wp_bind]
  apply wp_loadDesc h.stable hs
  intro s hs
  refine ⟨hG _ _ hs hs, ?_⟩
  split
  · rename_i hown
    exact herror s hs hown
  · have hcopy := copyToBuffer_accesses (G := fun s s' => P s → P s') (fun _ h => h) h.byte
      (·.dmaTxDescToSet) ppkt frameLength.toNat 0
    apply Prog.wp_seq (Prog.wp_of_accesses hcopy h.stable hG hs)
    intro _ s hs
    rw [Prog.wp_bind]
    apply wp_storeDesc h.stable hs
    intro s hs _
    have hlen := h.desc s { s.desc s.dmaTxDescToSet with
      controlBufferSize := frameLength.setWidth 32 &&& ethDmaTxDescTbs1 } hs (h.ter s hs) (h.tch s hs)
    refine ⟨hG _ _ hs hlen, ?_⟩
    apply Prog.wp_seq (h.wp_orStatus hG (by decide) (by decide) hlen)
    intro _ s hs
    apply Prog.wp_seq (h.wp_orStatus hG (by decide) (by decide) hs)
    intro _ s hs
    have hresume := resumeTx_accesses (G := fun s s' => P s → P s') (fun _ h => h) h.sts
    apply Prog.wp_seq (Prog.wp_of_accesses hresume h.stable hG hs)
    intro _ s hs
    apply Prog.wp_seq (htail s hs)
    intro _ s hs
    exact hs

end Calls

section Runs

variable {L : Layout n m} {s₀ : EthState} {V W : Nat → Prop} {A : EthState → EthState → Prop}

/-- During a call: the invariant, with the cursors at their `k`-th and `l`-th places. -/
structure RingAt (L : Layout n m) (s₀ : EthState) (k l : Nat) (s : EthState) : Prop where
  inv : RingInv L s₀ s
  tx : s.txMoves = k
  rx : s.rxMoves = l

theorem EthHw.moves {s s' : EthState} (h : EthHw s s') :
    s'.txMoves = s.txMoves ∧ s'.rxMoves = s.rxMoves := by
  cases h <;> exact ⟨rfl, rfl⟩

variable {k l : Nat}

theorem RingAt.stable (h₀ : RingSetup L s₀ V W) : Prog.Stable EthHw (RingAt L s₀ k l) :=
  fun _ _ h hs => ⟨h.inv.hw h₀ hs, hs.moves.1.trans h.tx, hs.moves.2.trans h.rx⟩

theorem RingAt.txCursor {s : EthState} (h : RingAt L s₀ k l s) :
    s.dmaTxDescToSet = s₀.txNext^[k] L.tx.base := h.tx ▸ h.inv.txCursor

theorem RingAt.rxCursor {s : EthState} (h : RingAt L s₀ k l s) :
    s.dmaRxDescToGet = s₀.rxNext^[l] L.rx.base := h.rx ▸ h.inv.rxCursor

theorem RingAt.steady (h₀ : RingSetup L s₀ V W) :
    TxSteady EthHw ((s₀.desc (s₀.txNext^[k] L.tx.base)).status &&& ethDmaTxDescTer)
      (RingAt L s₀ k l) := by
  obtain ⟨i, hi, hpos⟩ := h₀.txWalk.pos k
  have hlt := h₀.txWalk.lt i hi
  rw [hpos]
  refine ⟨RingAt.stable h₀, fun s h => ?_, fun s h => ?_, fun s a b h => ?_,
    fun s d h hter htch => ?_, fun s v h => ⟨{ h.inv with }, h.tx, h.rx⟩⟩
  · rw [h.txCursor, hpos]
    exact h.inv.ter i hlt
  · rw [h.txCursor, hpos]
    exact h.inv.tch i hlt
  · exact ⟨{ h.inv with }, h.tx, h.rx⟩
  · rw [h.txCursor, hpos]
    obtain ⟨h1, h2, h3⟩ := h.inv.txDesc (s.putDesc (L.tx.slot i) d) hlt rfl
      (hter.trans (h.inv.ter i hlt).symm) htch
    exact ⟨{ h.inv with ter := h1, tch := h2, size := h3 }, h.tx, h.rx⟩

/-- The tail of a transmit call takes the step that the engine takes. -/
theorem RingAt.wp_advanceTx (h₀ : RingSetup L s₀ V W) {s : EthState} (h : RingAt L s₀ k l s) :
    advanceTx.wp EthHw A (fun _ => RingInv L s₀) (fun _ => RingAt L s₀ (k + 1) l) s := by
  have hsteady : TxSteady EthHw _ (RingAt L s₀ k l) := RingAt.steady h₀
  obtain ⟨i, hi, hpos⟩ := h₀.txWalk.pos k
  have hlt := h₀.txWalk.lt i hi
  have hmove : ∀ s, RingAt L s₀ k l s → ∀ next, next = s₀.txNext (L.tx.slot i) →
      RingAt L s₀ (k + 1) l { s with dmaTxDescToSet := next, txMoves := s.txMoves + 1 } := by
    rintro s h next rfl
    refine ⟨{ h.inv with txCursor := ?_ }, congrArg (· + 1) h.tx, h.rx⟩
    rw [Function.iterate_succ_apply', h.tx, hpos]
  rw [advanceTx, Prog.wp_bind]
  apply wp_loadDesc hsteady.stable h
  intro s h
  refine ⟨h.inv, ?_⟩
  rw [hsteady.tch s h, if_neg (not_not_intro rfl), Prog.wp_bind]
  apply wp_loadDesc hsteady.stable h
  intro s h
  refine ⟨h.inv, ?_⟩
  rw [hsteady.ter s h, hpos]
  split
  case isTrue hter =>
    apply Prog.wp_put hsteady.stable h
    intro s h _
    have hnext := hmove s h s.dmaTdlAddr
      (by rw [EthState.txNext, if_pos hter, h.inv.tdl, h₀.tdl])
    exact ⟨hnext.inv, hnext⟩
  case isFalse hter =>
    apply Prog.wp_put hsteady.stable h
    intro s h _
    have hnext := hmove s h (s.dmaTxDescToSet + s.cpuSkip) (by
      rw [EthState.txNext, if_neg hter, h₀.tch i hlt, if_neg (not_not_intro rfl), h.txCursor, hpos,
        h.inv.cpuSkip, h₀.txSkip i hi (not_not.mp hter)])
    exact ⟨hnext.inv, hnext⟩

/-- The tail of a receive call likewise. -/
theorem RingAt.wp_advanceRx (h₀ : RingSetup L s₀ V W) {s : EthState} (h : RingAt L s₀ k l s) :
    advanceRx.wp EthHw A (fun _ => RingInv L s₀) (fun _ => RingAt L s₀ k (l + 1)) s := by
  have hstable : Prog.Stable EthHw (RingAt L s₀ k l) := RingAt.stable h₀
  obtain ⟨i, hi, hpos⟩ := h₀.rxWalk.pos l
  have hlt := h₀.rxWalk.lt i hi
  have hmove : ∀ s, RingAt L s₀ k l s → ∀ next, next = s₀.rxNext (L.rx.slot i) →
      RingAt L s₀ k (l + 1) { s with dmaRxDescToGet := next, rxMoves := s.rxMoves + 1 } := by
    rintro s h next rfl
    refine ⟨{ h.inv with rxCursor := ?_ }, h.tx, congrArg (· + 1) h.rx⟩
    rw [Function.iterate_succ_apply', h.rx, hpos]
  rw [advanceRx, Prog.wp_bind]
  apply wp_loadDesc hstable h
  intro s h
  refine ⟨h.inv, ?_⟩
  rw [h.rxCursor, hpos, h.inv.size i hlt, h₀.rch i hlt, if_neg (not_not_intro rfl), Prog.wp_bind]
  apply wp_loadDesc hstable h
  intro s h
  refine ⟨h.inv, ?_⟩
  rw [h.rxCursor, hpos, h.inv.size i hlt]
  split
  case isTrue hrer =>
    apply Prog.wp_put hstable h
    intro s h _
    have hnext := hmove s h s.dmaRdlAddr
      (by rw [EthState.rxNext, if_pos hrer, h.inv.rdl, h₀.rdl])
    exact ⟨hnext.inv, hnext⟩
  case isFalse hrer =>
    apply Prog.wp_put hstable h
    intro s h _
    have hnext := hmove s h (s.dmaRxDescToGet + s.cpuSkip) (by
      rw [EthState.rxNext, if_neg hrer, h₀.rch i hlt, if_neg (not_not_intro rfl), h.rxCursor, hpos,
        h.inv.cpuSkip, h₀.rxSkip i hi (not_not.mp hrer)])
    exact ⟨hnext.inv, hnext⟩

/-- Giving the descriptor at the cursor back. -/
theorem RingAt.wp_give (h₀ : RingSetup L s₀ V W) {s : EthState} (h : RingAt L s₀ k l s) :
    (storeStatus (·.dmaRxDescToGet) ethDmaRxDescOwn).wp EthHw A (fun _ => RingInv L s₀)
      (fun _ => RingAt L s₀ k l) s := by
  obtain ⟨i, hi, hpos⟩ := h₀.rxWalk.pos l
  have hlt := h₀.rxWalk.lt i hi
  apply wp_storeDesc (RingAt.stable h₀) h
  intro s h _
  rw [h.rxCursor, hpos]
  obtain ⟨h1, h2, h3⟩ := h.inv.rxDesc (s.putDesc (L.rx.slot i)
    { s.desc (L.rx.slot i) with status := ethDmaRxDescOwn }) hlt rfl rfl
  have hinv : RingInv L s₀ (s.putDesc (L.rx.slot i)
      { s.desc (L.rx.slot i) with status := ethDmaRxDescOwn }) :=
    { h.inv with ter := h1, tch := h2, size := h3 }
  exact ⟨hinv, hinv, h.tx, h.rx⟩

/-- **`ETH_HandleTxPkt`** moves its cursor if it returns `ETH_SUCCESS`, and only then. -/
theorem RingAt.wp_ethHandleTxPkt (h₀ : RingSetup L s₀ V W) {s : EthState} (h : RingAt L s₀ k l s)
    (ppkt : Nat → Byte) (frameLength : BitVec 16) :
    (ethHandleTxPkt ppkt frameLength).wp EthHw A (fun _ => RingInv L s₀)
      (fun r => if r.ret = ethSuccess then RingAt L s₀ (k + 1) l else RingAt L s₀ k l) s := by
  have hcode : (EthResult.code ethError).ret ≠ ethSuccess := by decide
  refine (RingAt.steady h₀).wp_ethHandleTxPkt (fun _ _ _ h => h.inv) (fun s h _ => ?_)
    (fun s h => ?_) ppkt frameLength h
  · rwa [if_neg hcode]
  · exact h.wp_advanceTx h₀

/-- What `ETH_HandleRxPkt` does after it has loaded the status word: if this says that something has
    arrived, its cursor moves. -/
theorem RingAt.wp_loaded (h₀ : RingSetup L s₀ V W) {s : EthState} (h : RingAt L s₀ k l s) :
    (if (s.desc s.dmaRxDescToGet).status &&& ethDmaRxDescOwn ≠ 0 then pure (.code ethError) else do
        let frame ← rxFrame (·.dmaRxDescToGet)
        storeStatus (·.dmaRxDescToGet) ethDmaRxDescOwn
        resumeRx
        advanceRx
        return ⟨frame.1, frame.2, none⟩ : EthProg EthResult).wp EthHw A (fun _ => RingInv L s₀)
      (fun _ => RingAt L s₀ k (if EthCall.handleRxPkt.finds s then l + 1 else l)) s := by
  by_cases hown : (s.desc s.dmaRxDescToGet).Own
  · have hset : (s.desc s.dmaRxDescToGet).status &&& ethDmaRxDescOwn ≠ 0 := hown
    simp only [EthCall.finds, hown, if_pos hset, not_true, decide_false, Bool.false_eq_true, if_false]
    exact h
  · have hclear : ¬ (s.desc s.dmaRxDescToGet).status &&& ethDmaRxDescOwn ≠ 0 := hown
    simp only [EthCall.finds, hown, if_neg hclear, not_false_iff, decide_true, if_true]
    have hstable : Prog.Stable EthHw (RingAt L s₀ k l) := RingAt.stable h₀
    have hframe := rxFrame_accesses (G := fun t t' => RingAt L s₀ k l t → RingAt L s₀ k l t')
      (fun _ h => h) (fun _ _ h => ⟨{ h.inv with }, h.tx, h.rx⟩) (·.dmaRxDescToGet)
    have hresume := resumeRx_accesses (G := fun t t' => RingAt L s₀ k l t → RingAt L s₀ k l t')
      (fun _ h => h) (fun _ _ h => ⟨{ h.inv with }, h.tx, h.rx⟩) (by
        intro t h
        obtain ⟨r, v, heq⟩ := t.pollRx_eq
        rw [heq]
        exact ⟨{ h.inv with }, h.tx, h.rx⟩)
    apply Prog.wp_seq (Prog.wp_of_accesses hframe hstable (fun _ _ _ h => h.inv) h)
    intro _ t h
    apply Prog.wp_seq (h.wp_give h₀)
    intro _ t h
    apply Prog.wp_seq (Prog.wp_of_accesses hresume hstable (fun _ _ _ h => h.inv) h)
    intro _ t h
    apply Prog.wp_seq (h.wp_advanceRx h₀)
    intro _ t h
    exact h

/-- `ETH_DropRxPkt` moves its cursor whatever it finds. -/
theorem RingAt.wp_ethDropRxPkt (h₀ : RingSetup L s₀ V W) {s : EthState} (h : RingAt L s₀ k l s) :
    ethDropRxPkt.wp EthHw A (fun _ => RingInv L s₀) (fun _ => RingAt L s₀ k (l + 1)) s := by
  apply Prog.wp_seq (h.wp_give h₀)
  intro _ t h
  apply Prog.wp_seq (h.wp_advanceRx h₀)
  intro _ t h
  exact h

/-- What holds between calls: the cursors have moved once for each frame. -/
structure RingIdle (L : Layout n m) (s₀ : EthState) (done : NotedCalls) (s : EthState) : Prop where
  inv : RingInv L s₀ s
  tx : s.txMoves = txFrames done
  rx : m = 1 ∨ s.rxMoves = rxFrames done

theorem ring_sound (h₀ : RingSetup L s₀ V W) :
    (ethSystem.noting Bool).SoundFirst ((ringCallsHeld m).noting EthCall.finds) (RingIdle L s₀)
      (fun _ _ => RingInv L s₀) where
  hw := fun _ _ _ h hs => ⟨h.inv.hw h₀ hs, hs.moves.1.trans h.tx, h.rx.imp_right hs.moves.2.trans⟩
  body := by
    rintro ⟨k, note⟩ done s upd next hbody h ⟨⟨hentry, hdrop⟩, hnote⟩ -
    have hfound : note = k.finds s := hnote
    have hat : RingAt L s₀ (txFrames done) s.rxMoves s := ⟨h.inv, h.tx, rfl⟩
    cases k with
    | handleTxPkt ppkt frameLength =>
        obtain ⟨hinv, hrest⟩ :=
          Prog.wp_first (A := fun _ _ => True) hbody (hat.wp_ethHandleTxPkt h₀ ppkt frameLength) trivial
        refine ⟨hinv, Prog.wp_mono hrest ?_⟩
        intro r t ht
        have hrx : rxFrames (done ++ [((.handleTxPkt ppkt frameLength, note), r)]) = rxFrames done := by
          simp [rxFrames, takesFrame]
        split at ht
        case isTrue hret | isFalse hret =>
          refine ⟨ht.inv, ht.tx.trans ?_, h.rx.imp_right fun hrx' => ?_⟩
          · simp [txFrames, sendsFrame, hret]
          · rw [hrx, ht.rx, hrx']
    | handleRxPkt =>
        cases hbody
        refine ⟨hat.inv, Prog.wp_mono (hat.wp_loaded (A := fun _ _ => True) h₀) ?_⟩
        intro r t ht
        refine ⟨ht.inv, ht.tx.trans ?_, h.rx.imp_right fun hrx' => ht.rx.trans ?_⟩
        · simp [txFrames, sendsFrame]
        · rw [hrx', ← hfound]
          cases note <;> simp [rxFrames, takesFrame]
    | dropRxPkt =>
        obtain ⟨hinv, hrest⟩ :=
          Prog.wp_first (A := fun _ _ => True) hbody (hat.wp_ethDropRxPkt h₀) trivial
        refine ⟨hinv, Prog.wp_mono hrest ?_⟩
        intro r t ht
        refine ⟨ht.inv, ht.tx.trans ?_, ?_⟩
        · simp [txFrames, sendsFrame]
        · rcases hdrop rfl with hone | hheld
          · exact .inl hone
          · obtain rfl : note = true := by simp [hfound, EthCall.finds, hheld]
            refine h.rx.imp_right fun hrx' => ht.rx.trans ?_
            simp [rxFrames, takesFrame, hrx']
    | handlePtpTxPkt => exact absurd hentry id
    | handlePtpRxPkt => exact absurd hentry id

end Runs

/-! ## The condition is enough -/

section Ready

variable {L : Layout n m} (txBuff2 rxBuff2 : Word) {desc : Word → EthDmaDesc} (ram : Word → Byte)
  (dmaSts : Word) {dmaBm : Word} (timeStamping : Bool)

/-- The end of the ring is marked in the last receive descriptor and in no other. -/
theorem rer_iff {i : Nat} {size : Word}
    (h : size = if i = m - 1 then BitVec.ofNat 32 ethMaxPacketSize ||| ethDmaRxDescRer
      else BitVec.ofNat 32 ethMaxPacketSize) :
    size &&& ethDmaRxDescRch = 0 ∧ (size &&& ethDmaRxDescRer ≠ 0 ↔ i = m - 1) := by
  rw [h]
  split
  case isTrue hlast =>
    refine ⟨by decide, ?_⟩
    simp only [hlast, iff_true]
    decide
  case isFalse hlast =>
    refine ⟨by decide, ?_⟩
    simp only [hlast, iff_false]
    decide

/-- A transmit descriptor without the mark is not the last, and is not used with a skip length. -/
theorem RingModeReady.tx_unmarked (h : RingModeReady L desc dmaBm) {i : Nat} {status : Word}
    (hstatus : status = if i = n - 1 then ethDmaTxDescTer else (desc (L.tx.slot i)).status)
    (hi : i < n) (hused : dsl dmaBm = 0 ∨ i = 0) (hter : status &&& ethDmaTxDescTer = 0) :
    dsl dmaBm = 0 ∧ i + 1 < n := by
  rw [hstatus] at hter
  split at hter
  · exact absurd hter (by decide)
  · next hlast =>
      refine ⟨?_, by omega⟩
      by_contra hdsl
      obtain rfl := hused.resolve_left hdsl
      rcases h.txSkip with h0 | rfl | hter0
      · exact hdsl h0
      · exact hlast rfl
      · exact hter0 hter

/-- Nor is a receive descriptor. -/
theorem RingModeReady.rx_unmarked (h : RingModeReady L desc dmaBm) {i : Nat} {size : Word}
    (hmark : size &&& ethDmaRxDescRer ≠ 0 ↔ i = m - 1) (hi : i < m)
    (hused : dsl dmaBm = 0 ∨ i = 0) (hrer : size &&& ethDmaRxDescRer = 0) :
    dsl dmaBm = 0 ∧ i + 1 < m := by
  have hlast : i ≠ m - 1 := fun heq => hmark.mpr heq hrer
  refine ⟨?_, by omega⟩
  by_contra hdsl
  obtain rfl := hused.resolve_left hdsl
  rcases h.rxSkip with h0 | rfl
  · exact hdsl h0
  · exact hlast rfl

/-- The receive engine goes back from the last descriptor, and on from the others. -/
theorem RingModeReady.rxNext (h : RingModeReady L desc dmaBm) {s₀ : EthState}
    (hbm : s₀.dmaBm = dmaBm) (hrdl : s₀.dmaRdlAddr = L.rx.base) {i : Nat}
    (hsize : (s₀.desc (L.rx.slot i)).controlBufferSize =
      if i = m - 1 then BitVec.ofNat 32 ethMaxPacketSize ||| ethDmaRxDescRer
      else BitVec.ofNat 32 ethMaxPacketSize)
    (hi : i < m) (hused : dsl dmaBm = 0 ∨ i = 0) :
    (i = m - 1 ∧ s₀.rxNext (L.rx.slot i) = L.rx.base) ∨
      (dsl dmaBm = 0 ∧ i + 1 < m ∧ s₀.rxNext (L.rx.slot i) = L.rx.slot (i + 1)) := by
  obtain ⟨hrch, hmark⟩ := rer_iff hsize
  by_cases hbit : (s₀.desc (L.rx.slot i)).controlBufferSize &&& ethDmaRxDescRer = 0
  · obtain ⟨hdsl, hlt⟩ := h.rx_unmarked hmark hi hused hbit
    refine .inr ⟨hdsl, hlt, ?_⟩
    rw [EthState.rxNext, if_neg (not_not_intro hbit), if_neg (not_not_intro hrch),
      (skip_eq (by rwa [hbm])).2, Region.slot_succ]
    rfl
  · refine .inl ⟨hmark.mp hbit, ?_⟩
    rw [EthState.rxNext, if_pos hbit, hrdl]

theorem RingModeReady.setup (h : RingModeReady L desc dmaBm) :
    RingSetup L (ringStart L txBuff2 rxBuff2 desc ram dmaSts dmaBm timeStamping)
      (fun i => i < n ∧ (dsl dmaBm = 0 ∨ i = 0)) (fun i => i < m ∧ (dsl dmaBm = 0 ∨ i = 0)) := by
  obtain ⟨D, hstart, htx, hrx⟩ :=
    ringStart_spec L txBuff2 rxBuff2 desc ram dmaSts dmaBm timeStamping
  generalize ringStart L txBuff2 rxBuff2 desc ram dmaSts dmaBm timeStamping = s₀ at hstart ⊢
  have hdesc : s₀.desc = D := by rw [hstart]
  have htdl : s₀.dmaTdlAddr = L.tx.base := by rw [hstart]
  have hrdl : s₀.dmaRdlAddr = L.rx.base := by rw [hstart]
  have hbm : s₀.dmaBm = dmaBm := by rw [hstart]; rfl
  rw [← hdesc] at htx hrx
  have htch : ∀ i, i < n → (s₀.desc (L.tx.slot i)).status &&& ethDmaTxDescTch = 0 := by
    intro i hi
    rw [htx i hi]
    split
    · decide
    · exact h.unchained i (by omega)
  have hsize := fun i hi => rer_iff (hrx i hi).2
  have hskip : dsl dmaBm = 0 → s₀.cpuSkip = 16 ∧ s₀.dmaSkip = 16 := by
    intro h0
    exact skip_eq (by rwa [hbm])
  constructor
  case tdl => exact htdl
  case rdl => exact hrdl
  case tch => exact htch
  case rch => exact fun i hi => (hsize i hi).1
  case txWalk =>
    refine .of_marks L.tx_pos fun i hi hused => ?_
    by_cases hbit : (s₀.desc (L.tx.slot i)).status &&& ethDmaTxDescTer = 0
    · obtain ⟨hdsl, hlt⟩ := h.tx_unmarked (htx i hi) hi hused hbit
      refine .inr ⟨hdsl, hlt, ?_⟩
      rw [EthState.txNext, if_neg (not_not_intro hbit), if_neg (not_not_intro (htch i hi)),
        (hskip hdsl).2, Region.slot_succ]
      rfl
    · left
      rw [EthState.txNext, if_pos hbit, htdl]
  case rxWalk =>
    refine .of_marks L.rx_pos fun i hi hused => ?_
    exact (h.rxNext hbm hrdl (hrx i hi).2 hi hused).imp_left And.right
  case txSkip =>
    rintro i ⟨hi, hused⟩ hbit
    have h16 := hskip (h.tx_unmarked (htx i hi) hi hused hbit).1
    rw [h16.1, h16.2]
  case rxSkip =>
    rintro i ⟨hi, hused⟩ hbit
    have h16 := hskip (h.rx_unmarked (hsize i hi).2 hi hused hbit).1
    rw [h16.1, h16.2]

theorem RingIdle.agree {s₀ : EthState} {c : NotedConfig} {V W : Nat → Prop} (h₀ : RingSetup L s₀ V W)
    (hinv : RingInv L s₀ c.st) (h : c.running = none → RingIdle L s₀ c.done c.st) :
    RingAgree L s₀ c := by
  obtain ⟨i, hi, htx⟩ := h₀.txWalk.pos c.st.txMoves
  obtain ⟨j, hj, hrx⟩ := h₀.rxWalk.pos c.st.rxMoves
  refine ⟨⟨i, h₀.txWalk.lt i hi, hinv.txCursor.trans htx⟩,
    ⟨j, h₀.rxWalk.lt j hj, hinv.rxCursor.trans hrx⟩, fun hidle => ?_, fun hidle => ?_,
    hinv.txEngine, hinv.rxEngine⟩
  · rw [← (h hidle).tx]
    exact hinv.txCursor
  · rcases (h hidle).rx with rfl | hmoves
    · -- of one descriptor every walk stays there
      obtain ⟨j', hj', hrx'⟩ := h₀.rxWalk.pos (rxFrames c.done)
      have hlt := h₀.rxWalk.lt j hj
      have hlt' := h₀.rxWalk.lt j' hj'
      have hsame : j = j' := by omega
      rw [hrx', ← hsame]
      exact hinv.rxCursor.trans hrx
    · rw [← hmoves]
      exact hinv.rxCursor

theorem RingModeReady.idle (h : RingModeReady L desc dmaBm) :
    RingIdle L (ringStart L txBuff2 rxBuff2 desc ram dmaSts dmaBm timeStamping) []
      (ringStart L txBuff2 rxBuff2 desc ram dmaSts dmaBm timeStamping) := by
  have h₀ := h.setup txBuff2 rxBuff2 ram dmaSts timeStamping
  obtain ⟨D, hstart, -⟩ := ringStart_spec L txBuff2 rxBuff2 desc ram dmaSts dmaBm timeStamping
  generalize ringStart L txBuff2 rxBuff2 desc ram dmaSts dmaBm timeStamping = s₀ at hstart h₀ ⊢
  have hzero : s₀.txMoves = 0 ∧ s₀.rxMoves = 0 := by
    rw [hstart]
    exact ⟨rfl, rfl⟩
  refine ⟨?_, hzero.1, .inr hzero.2⟩
  refine ⟨h₀.tdl, h₀.rdl, rfl, fun _ _ => rfl, h₀.tch, fun _ _ => rfl, ?_, ?_, ?_, ?_⟩
  all_goals
    rw [hstart]
    rfl

theorem RingModeReady.works (h : RingModeReady L desc dmaBm) :
    RingModeWorks L (ringStart L txBuff2 rxBuff2 desc ram dmaSts dmaBm timeStamping) := by
  have h₀ := h.setup txBuff2 rxBuff2 ram dmaSts timeStamping
  have hidle := h.idle txBuff2 rxBuff2 ram dmaSts timeStamping
  obtain ⟨D, hstart, htx, hrx⟩ :=
    ringStart_spec L txBuff2 rxBuff2 desc ram dmaSts dmaBm timeStamping
  generalize ringStart L txBuff2 rxBuff2 desc ram dmaSts dmaBm timeStamping = s₀ at hstart h₀ hidle ⊢
  refine ⟨fun i hi => ?_, h₀.tch, fun c hc => ?_⟩
  · rw [EthDmaDesc.Own, hstart]
    simp only [htx i hi]
    split
    · decide
    · exact not_not_intro (h.free i (by omega))
  · have hsound := ring_sound h₀
    have hinv := hsound.always (I := RingInv L s₀) hidle hidle.inv (fun _ _ h hs => h.hw h₀ hs)
      (fun _ _ _ h _ => h) hc
    exact RingIdle.agree h₀ hinv fun hnone => hsound.idle hidle hc hnone

end Ready

/-! ## The condition is necessary -/

/-- With no end-of-ring bit at the cursor, a transmit call that sends skips the driver's distance. -/
theorem ethHandleTxPkt_skip {s : EthState} {a : Word} (hcursor : s.dmaTxDescToSet = a)
    (hfree : ¬ (s.desc a).Own) (hter : (s.desc a).status &&& ethDmaTxDescTer = 0)
    (htch : (s.desc a).status &&& ethDmaTxDescTch = 0) (ppkt : Nat → Byte)
    (frameLength : BitVec 16) :
    ((ethHandleTxPkt ppkt frameLength).exec s).1.ret = ethSuccess ∧
      ((ethHandleTxPkt ppkt frameLength).exec s).2.dmaTxDescToSet = a + s.cpuSkip := by
  have hret : ((ethHandleTxPkt ppkt frameLength).exec s).1.ret =
      if (s.desc s.dmaTxDescToSet).status &&& ethDmaTxDescOwn ≠ 0 then ethError else ethSuccess :=
    Prog.exec_of_returns (ethHandleTxPkt_returns ppkt frameLength _) s
  have hclear : ¬ (s.desc a).status &&& ethDmaTxDescOwn ≠ 0 := hfree
  rw [hcursor, if_neg hclear] at hret
  refine ⟨hret, ?_⟩
  -- nobody interferes, and the bits at the cursor stay as they are
  let P : EthState → Prop := fun t => t.dmaTxDescToSet = a ∧ t.dmaBm = s.dmaBm ∧
    (t.desc a).status &&& ethDmaTxDescTer = 0 ∧ (t.desc a).status &&& ethDmaTxDescTch = 0
  have hsteady : TxSteady (fun _ _ => False) 0 P := by
    refine ⟨fun _ _ _ h => h.elim, ?_, ?_, fun t x b h => h, ?_, fun t v h => h⟩
    · rintro t ⟨hc, -, hter, -⟩
      rw [hc, hter]
    · rintro t ⟨hc, -, -, htch⟩
      rw [hc, htch]
    · rintro t d ⟨hc, hb, -, -⟩ hter htch
      rw [hc]
      exact ⟨hc, hb, by rwa [t.putDesc_self], by rwa [t.putDesc_self]⟩
  have hwp := hsteady.wp_ethHandleTxPkt (A := fun _ _ => True) (G := fun _ _ => True)
    (Q := fun r t => r.ret = ethSuccess → t.dmaTxDescToSet = a + s.cpuSkip)
    (fun _ _ _ _ => trivial) (fun t _ _ hret => absurd hret (by decide)) ?_ ppkt frameLength
    (s := s) ⟨hcursor, rfl, hter, htch⟩
  · exact Prog.exec_of_wp hwp (fun _ _ => trivial) hret
  · intro t ht
    rw [advanceTx, Prog.wp_bind]
    apply wp_loadDesc hsteady.stable ht
    intro t ht
    refine ⟨trivial, ?_⟩
    rw [hsteady.tch t ht, if_neg (not_not_intro rfl), Prog.wp_bind]
    apply wp_loadDesc hsteady.stable ht
    intro t ht
    refine ⟨trivial, ?_⟩
    rw [hsteady.ter t ht, if_neg (not_not_intro rfl)]
    apply Prog.wp_put hsteady.stable ht
    rintro t ⟨hc, hb, -, -⟩ _
    refine ⟨trivial, fun _ => ?_⟩
    simp only [hc, EthState.cpuSkip, hb]

/-- So does the tail of a receive call. -/
theorem advanceRx_skip {s : EthState}
    (hrch : (s.desc s.dmaRxDescToGet).controlBufferSize &&& ethDmaRxDescRch = 0)
    (hrer : (s.desc s.dmaRxDescToGet).controlBufferSize &&& ethDmaRxDescRer = 0) :
    (advanceRx.exec s).2 =
      { s with dmaRxDescToGet := s.dmaRxDescToGet + s.cpuSkip, rxMoves := s.rxMoves + 1 } := by
  rw [advanceRx, loadDesc]
  change (Prog.exec (if (s.desc s.dmaRxDescToGet).controlBufferSize &&& ethDmaRxDescRch ≠ 0 then _
    else _) s).2 = _
  rw [if_neg (not_not_intro hrch)]
  change (Prog.exec (if (s.desc s.dmaRxDescToGet).controlBufferSize &&& ethDmaRxDescRer ≠ 0 then _
    else _) s).2 = _
  rw [if_neg (not_not_intro hrer)]
  rfl

theorem ethDropRxPkt_skip {s : EthState}
    (hrch : (s.desc s.dmaRxDescToGet).controlBufferSize &&& ethDmaRxDescRch = 0)
    (hrer : (s.desc s.dmaRxDescToGet).controlBufferSize &&& ethDmaRxDescRer = 0) :
    (ethDropRxPkt.exec s).2.dmaRxDescToGet = s.dmaRxDescToGet + s.cpuSkip := by
  let d : EthDmaDesc := { s.desc s.dmaRxDescToGet with status := ethDmaRxDescOwn }
  let t := s.putDesc s.dmaRxDescToGet d
  have hself : t.desc t.dmaRxDescToGet = d := s.putDesc_self _ _
  have hskip := advanceRx_skip (s := t) (by rw [hself]; exact hrch) (by rw [hself]; exact hrer)
  have htail : (ethDropRxPkt.exec s).2 = (advanceRx.exec t).2 := by
    rw [ethDropRxPkt, Prog.exec_bind, Prog.exec_bind]
    rfl
  rw [htail, hskip]
  rfl

section Necessary

variable {L : Layout n m} {txBuff2 rxBuff2 : Word} {desc : Word → EthDmaDesc} {ram : Word → Byte}
  {dmaSts dmaBm : Word} {timeStamping : Bool}

/-- A list whose first transmit descriptor does not end it needs the two distances to agree: one
    packet moves the cursor by one of them, one step of the engine goes the other. -/
theorem RingModeWorks.txSkip
    (h : RingModeWorks L (ringStart L txBuff2 rxBuff2 desc ram dmaSts dmaBm timeStamping)) :
    dsl dmaBm = 0 ∨ n = 1 ∨ (desc (L.tx.slot 0)).status &&& ethDmaTxDescTer ≠ 0 := by
  by_contra hnot
  obtain ⟨hdsl, hnot⟩ := not_or.mp hnot
  obtain ⟨hn, hter⟩ := not_or.mp hnot
  obtain ⟨D, hstart, htx, -⟩ :=
    ringStart_spec L txBuff2 rxBuff2 desc ram dmaSts dmaBm timeStamping
  generalize ringStart L txBuff2 rxBuff2 desc ram dmaSts dmaBm timeStamping = s₀ at hstart h
  have hpos := L.tx_pos
  have hcursor : s₀.dmaTxDescToSet = L.tx.slot 0 := by rw [hstart, Region.slot_zero]
  have hfirst : (s₀.desc (L.tx.slot 0)).status &&& ethDmaTxDescTer = 0 := by
    have hkept := htx 0 hpos
    rw [if_neg (by omega)] at hkept
    rw [hstart]
    simp only [hkept, not_not.mp hter]
  have htch := h.unchained 0 hpos
  obtain ⟨hret, hskip⟩ := ethHandleTxPkt_skip hcursor (h.free 0 hpos) hfirst htch (fun _ => 0) 0
  have hentry : ((ringCallsHeld m).noting EthCall.finds).entry
      (.handleTxPkt (fun _ => 0) 0, true) s₀ := by
    refine ⟨⟨Nat.zero_le _, fun hdrop => by cases hdrop⟩, (decide_eq_true ?_).symm⟩
    rw [hcursor]
    exact h.free 0 hpos
  have hrun : RingReach m s₀ _ := System.Reach.call (ethSystem.noting Bool) hentry
    (fun _ _ => trivial) (fun _ hret => by cases hret) []
  have hone : txFrames [((.handleTxPkt (fun _ => 0) 0, true),
      ((ethHandleTxPkt (fun _ => 0) 0).exec s₀).1)] = 1 := by
    simpa [txFrames, sendsFrame] using hret
  have hagree := (hskip.symm.trans ((h.agree _ hrun).txCursor rfl)).trans
    (congrArg (fun k => s₀.txNext^[k] L.tx.base) hone)
  rw [Function.iterate_one, ← Region.slot_zero, EthState.txNext, if_neg (not_not_intro hfirst),
    if_neg (not_not_intro htch)] at hagree
  have hbm : s₀.dmaBm = dmaBm := by rw [hstart]; rfl
  exact skip_ne (s := s₀) (by rwa [hbm]) ((BitVec.add_right_inj _).mp hagree)

/-- A receive list of more than one descriptor likewise: a frame arrives and is dropped. -/
theorem RingModeWorks.rxSkip
    (h : RingModeWorks L (ringStart L txBuff2 rxBuff2 desc ram dmaSts dmaBm timeStamping)) :
    dsl dmaBm = 0 ∨ m = 1 := by
  by_contra hnot
  obtain ⟨hdsl, hm⟩ := not_or.mp hnot
  obtain ⟨D, hstart, -, hrx⟩ :=
    ringStart_spec L txBuff2 rxBuff2 desc ram dmaSts dmaBm timeStamping
  generalize ringStart L txBuff2 rxBuff2 desc ram dmaSts dmaBm timeStamping = s₀ at hstart h
  have hpos := L.rx_pos
  have hcur : s₀.rxCur = L.rx.slot 0 := by rw [hstart, Region.slot_zero]
  have hcursor : s₀.dmaRxDescToGet = L.rx.slot 0 := by rw [hstart, Region.slot_zero]
  obtain ⟨hown, hsize⟩ : (s₀.desc (L.rx.slot 0)).Own ∧
      (s₀.desc (L.rx.slot 0)).controlBufferSize = BitVec.ofNat 32 ethMaxPacketSize := by
    have hfirst := hrx 0 hpos
    rw [if_neg (by omega)] at hfirst
    rw [hstart]
    exact hfirst
  -- the engine stores a frame
  have hfill : EthHw s₀ (s₀.rxFill goodArrival (0, 0)) := by
    refine .fill goodArrival (0, 0) (by rwa [hcur]) (by rw [hstart]; rfl) ?_
    rw [hcur, hsize]
    decide
  generalize hs : s₀.rxFill goodArrival (0, 0) = s at hfill
  have hsame : s.dmaRxDescToGet = s₀.rxCur := by rw [← hs, hcur]; exact hcursor
  have hsize' : (s.desc s.dmaRxDescToGet).controlBufferSize =
      BitVec.ofNat 32 ethMaxPacketSize := by
    rw [hsame, ← hs]
    simp only [EthState.rxFill, Function.update_self, rxClosed_size, hcur, hsize]
  have hheld : ¬ (s.desc s.dmaRxDescToGet).Own := by
    rw [hsame, ← hs, EthDmaDesc.Own]
    simp only [EthState.rxFill, Function.update_self, rxClosed_status]
    exact not_not_intro goodArrival.notOwn
  -- the driver drops it
  have hskip := ethDropRxPkt_skip (s := s) (by rw [hsize']; decide) (by rw [hsize']; decide)
  have hentry : ((ringCallsHeld m).noting EthCall.finds).entry (.dropRxPkt, true) s :=
    ⟨⟨trivial, fun _ => .inr hheld⟩, (decide_eq_true hheld).symm⟩
  have hrun : RingReach m s₀ _ := .head (.hw hfill) (System.Reach.call (ethSystem.noting Bool) hentry
    (fun _ _ => trivial) (fun _ hret => by cases hret) [])
  have hone : rxFrames [((.dropRxPkt, true), (ethDropRxPkt.exec s).1)] = 1 := rfl
  have hagree := (hskip.symm.trans ((h.agree _ hrun).rxCursor rfl)).trans
    (congrArg (fun k => s₀.rxNext^[k] L.rx.base) hone)
  have hbm : s.dmaBm = dmaBm := by rw [← hs, EthState.rxFill, hstart]; rfl
  have hbm₀ : s₀.dmaSkip = s.dmaSkip := by rw [← hs]; rfl
  have hback : s.dmaRxDescToGet = L.rx.slot 0 := by rw [← hs]; exact hcursor
  rw [Function.iterate_one, ← Region.slot_zero, EthState.rxNext, hsize,
    if_neg (by decide), if_neg (by decide), hback, hbm₀] at hagree
  exact skip_ne (s := s) (by rwa [hbm]) ((BitVec.add_right_inj _).mp hagree)

theorem RingModeWorks.ready
    (h : RingModeWorks L (ringStart L txBuff2 rxBuff2 desc ram dmaSts dmaBm timeStamping)) :
    RingModeReady L desc dmaBm := by
  obtain ⟨D, hstart, htx, -⟩ :=
    ringStart_spec L txBuff2 rxBuff2 desc ram dmaSts dmaBm timeStamping
  -- of all descriptors but the last the initialisation leaves the status word as it was
  have hkept : ∀ i, i + 1 < n →
      ((ringStart L txBuff2 rxBuff2 desc ram dmaSts dmaBm timeStamping).desc (L.tx.slot i)).status =
        (desc (L.tx.slot i)).status := by
    intro i hi
    have hword := htx i (by omega)
    rw [if_neg (by omega)] at hword
    rw [hstart]
    exact hword
  refine ⟨fun i hi => ?_, fun i hi => ?_, h.txSkip, h.rxSkip⟩
  · have hfree := h.free i (by omega)
    rw [EthDmaDesc.Own, hkept i hi] at hfree
    exact not_not.mp hfree
  · have htch := h.unchained i (by omega)
    rwa [hkept i hi] at htch

/-- In a receive list of more than one descriptor the engine never stays where it is. -/
theorem RingModeReady.rxNext_ne (h : RingModeReady L desc dmaBm) (hm : m ≠ 1) {i : Nat} (hi : i < m) :
    (ringStart L txBuff2 rxBuff2 desc ram dmaSts dmaBm timeStamping).rxNext (L.rx.slot i) ≠
      L.rx.slot i := by
  obtain ⟨D, hstart, -, hrx⟩ :=
    ringStart_spec L txBuff2 rxBuff2 desc ram dmaSts dmaBm timeStamping
  generalize ringStart L txBuff2 rxBuff2 desc ram dmaSts dmaBm timeStamping = s₀ at hstart ⊢
  have hbm : s₀.dmaBm = dmaBm := by rw [hstart]; rfl
  have hrdl : s₀.dmaRdlAddr = L.rx.base := by rw [hstart]
  have hsize := (hrx i hi).2
  rw [← show s₀.desc = D by rw [hstart]] at hsize
  rcases h.rxNext hbm hrdl hsize hi (.inl (h.rxSkip.resolve_right hm)) with
    ⟨hlast, hback⟩ | ⟨-, hlt, hon⟩
  · rw [hback, ← Region.slot_zero]
    exact L.rx_ne_rx L.rx_pos hi (by omega)
  · rw [hon]
    exact L.rx_ne_rx hlt hi (by omega)

/-- `ETH_DropRxPkt` called where nothing has arrived moves the cursor without a frame. -/
theorem RingModeReady.drop_unheld (h : RingModeReady L desc dmaBm) (hm : m ≠ 1) {c : NotedConfig}
    (hreach : RingReach m (ringStart L txBuff2 rxBuff2 desc ram dmaSts dmaBm timeStamping) c)
    (hidle : c.running = none) (hown : (c.st.desc c.st.dmaRxDescToGet).Own) :
    ∃ c', (ethSystem.noting Bool).Reach (ringCalls.noting EthCall.finds) c c' ∧
      ¬ RingAgree L (ringStart L txBuff2 rxBuff2 desc ram dmaSts dmaBm timeStamping) c' := by
  have h₀ := h.setup txBuff2 rxBuff2 ram dmaSts timeStamping
  have hstart := h.idle txBuff2 rxBuff2 ram dmaSts timeStamping
  have hne : ∀ i, i < m →
      (ringStart L txBuff2 rxBuff2 desc ram dmaSts dmaBm timeStamping).rxNext (L.rx.slot i) ≠
        L.rx.slot i := fun _ hi => h.rxNext_ne hm hi
  generalize ringStart L txBuff2 rxBuff2 desc ram dmaSts dmaBm timeStamping = s₀ at hreach h₀ hstart hne ⊢
  have hnow := (ring_sound h₀).idle hstart hreach hidle
  obtain ⟨s, running, done⟩ := c
  subst hidle
  have hentry : (ringCalls.noting EthCall.finds).entry (.dropRxPkt, false) s :=
    ⟨trivial, by simp [EthCall.finds, hown]⟩
  refine ⟨_, System.Reach.call (ethSystem.noting Bool) hentry (fun _ _ => trivial)
    (fun _ hret => by cases hret) done, fun hagree => ?_⟩
  have hat : RingAt L s₀ (txFrames done) (rxFrames done) s :=
    ⟨hnow.inv, hnow.tx, hnow.rx.resolve_left hm⟩
  have hmoved := Prog.exec_of_wp (hat.wp_ethDropRxPkt (A := fun _ _ => True) h₀) fun _ _ => trivial
  have hsame : rxFrames (done ++ [((.dropRxPkt, false), (ethDropRxPkt.exec s).1)]) = rxFrames done := by
    simp [rxFrames, takesFrame]
  have hstay := (hmoved.rxCursor.symm.trans (hagree.rxCursor rfl)).trans
    (congrArg (fun k => s₀.rxNext^[k] L.rx.base) hsame)
  obtain ⟨i, hi, hpos⟩ := h₀.rxWalk.pos (rxFrames done)
  simp only [Function.iterate_succ_apply', hpos] at hstay
  exact hne i (h₀.rxWalk.lt i hi) hstay

end Necessary

/-- **Ring mode works exactly when no distance is to be skipped, or none is ever used, and the status
    words that the initialisation leaves alone hold neither OWN nor TCH**, as long as `ETH_DropRxPkt`
    is called where a frame has arrived; called elsewhere, it breaks the agreement at once. -/
theorem ring_mode_works_iff (L : Layout n m) (txBuff2 rxBuff2 : Word) (desc : Word → EthDmaDesc)
    (ram : Word → Byte) (dmaSts dmaBm : Word) (timeStamping : Bool) :
    (RingModeWorks L (ringStart L txBuff2 rxBuff2 desc ram dmaSts dmaBm timeStamping) ↔
      RingModeReady L desc dmaBm) ∧
    (RingModeReady L desc dmaBm → m ≠ 1 → ∀ c,
      RingReach m (ringStart L txBuff2 rxBuff2 desc ram dmaSts dmaBm timeStamping) c →
      c.running = none → (c.st.desc c.st.dmaRxDescToGet).Own →
      ∃ c', (ethSystem.noting Bool).Reach (ringCalls.noting EthCall.finds) c c' ∧
        ¬ RingAgree L (ringStart L txBuff2 rxBuff2 desc ram dmaSts dmaBm timeStamping) c') :=
  ⟨⟨RingModeWorks.ready, RingModeReady.works txBuff2 rxBuff2 ram dmaSts timeStamping⟩,
    fun h hm _ hreach hidle hown => h.drop_unheld hm hreach hidle hown⟩

/-- Memory that is all zero, and a descriptor skip length of one word: the first packet leaves the
    cursor 17 bytes further, between two descriptors, where the engine goes 20. A skip length of
    zero, and a status word that holds OWN: the engine sends a frame that nobody handed over. -/
theorem ring_mode_fails :
    ¬ RingModeWorks sramLayout
        (ringStart sramLayout 0 0 (fun _ => ⟨0, 0, 0, 0⟩) (fun _ => 0) 0 4 false) ∧
      ¬ RingModeWorks sramLayout
        (ringStart sramLayout 0 0 (fun _ => ⟨ethDmaTxDescOwn, 0, 0, 0⟩) (fun _ => 0) 0 0 false) := by
  constructor
  · intro h
    rcases h.rxSkip with h0 | h1
    · exact absurd h0 (by decide)
    · exact absurd h1 (by decide)
  · intro h
    exact absurd (h.ready.free 0 (by decide)) (by decide)

end Eth
