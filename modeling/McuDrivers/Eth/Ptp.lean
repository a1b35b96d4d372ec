import McuDrivers.Eth.Chain
import McuDrivers.Eth.Driver
import McuDrivers.Eth.Init

set_option autoImplicit false

/-! # Ethernet: the tables of a driver that takes time stamps

The DMA stores the time stamp of a frame over the third and fourth words of its descriptor, so the
driver keeps these words in a shadow table as well. `PtpLayout` lays the four tables out, and the
initialisation functions fill them: of a shadow descriptor they write the two addresses, and of the
last one the status word, which leads back to the first. -/

namespace Eth

variable {n m : Nat}

/-- Two tables of descriptors, their buffers, and two shadow tables. -/
structure PtpLayout (n m : Nat) extends Layout n m where
  ptpTx : Region 32 16 n
  ptpRx : Region 32 16 m
  ptpTx_base : ptpTx.base ≠ 0
  ptpRx_base : ptpRx.base ≠ 0
  ptpTx_tx : ptpTx.Disjoint tx
  ptpTx_rx : ptpTx.Disjoint rx
  ptpRx_tx : ptpRx.Disjoint tx
  ptpRx_rx : ptpRx.Disjoint rx
  ptp_disjoint : ptpTx.Disjoint ptpRx

/-- The tables of `sramLayout`, and shadow tables behind their buffers. -/
def sramPtpLayout : PtpLayout 2 4 where
  toLayout := sramLayout
  ptpTx := ⟨0x20003000, by decide⟩
  ptpRx := ⟨0x20003020, by decide⟩
  ptpTx_base := by decide
  ptpRx_base := by decide
  ptpTx_tx := by decide
  ptpTx_rx := by decide
  ptpRx_tx := by decide
  ptpRx_rx := by decide
  ptp_disjoint := by decide

/-- Both tables, initialised with their shadows. -/
def ptpStart (L : PtpLayout n m) (desc : Word → EthDmaDesc) (ram : Word → Byte)
    (dmaSts dmaBm : Word) (timeStamping : Bool) : EthState :=
  dmaPtpRxDescChainInit L.rx.base L.ptpRx.base L.rxBuf.base m
    (dmaPtpTxDescChainInit L.tx.base L.ptpTx.base L.txBuf.base n
      (EthState.boot desc ram dmaSts dmaBm timeStamping))

/-! ## What the initialisation leaves -/

/-- A loop that updates one descriptor after the other, and copies its addresses to its shadow. -/
theorem forLoop_copyAddrs (r p : Region 32 16 n) (hdisj : p.Disjoint r)
    (f : Nat → EthDmaDesc → EthDmaDesc) (s : EthState) :
    ∃ D, forLoop n (fun i (s : EthState) =>
        copyAddrs (r.slot i) (p.slot i) (s.setDesc (r.slot i) (f i))) s = { s with desc := D } ∧
      (∀ i, i < n → D (r.slot i) = f i (s.desc (r.slot i))) ∧
      (∀ i, i < n → D (p.slot i) = { s.desc (p.slot i) with
        buffer1Addr := (f i (s.desc (r.slot i))).buffer1Addr
        buffer2NextDescAddr := (f i (s.desc (r.slot i))).buffer2NextDescAddr }) ∧
      ∀ a, (∀ i, i < n → a ≠ r.slot i) → (∀ i, i < n → a ≠ p.slot i) → D a = s.desc a := by
  have hpr : ∀ {i j}, i < n → j < n → p.slot i ≠ r.slot j :=
    fun hi hj => hdisj.slot_ne (by decide) (by decide) hi hj
  have hinv := forLoop_induct (n := n) (s := s)
    (fun i (s : EthState) => copyAddrs (r.slot i) (p.slot i) (s.setDesc (r.slot i) (f i)))
    (fun k t => ∃ D, t = { s with desc := D } ∧
      (∀ i, i < n → D (r.slot i) = if i < k then f i (s.desc (r.slot i)) else s.desc (r.slot i)) ∧
      (∀ i, i < n → D (p.slot i) = if i < k then { s.desc (p.slot i) with
        buffer1Addr := (f i (s.desc (r.slot i))).buffer1Addr
        buffer2NextDescAddr := (f i (s.desc (r.slot i))).buffer2NextDescAddr }
        else s.desc (p.slot i)) ∧
      ∀ a, (∀ i, i < n → a ≠ r.slot i) → (∀ i, i < n → a ≠ p.slot i) → D a = s.desc a)
    ⟨s.desc, rfl, by simp, by simp, fun _ _ _ => rfl⟩ ?_
  · obtain ⟨D, heq, hin, hshadow, hout⟩ := hinv
    refine ⟨D, heq, fun i hi => ?_, fun i hi => ?_, hout⟩
    · rw [hin i hi, if_pos hi]
    · rw [hshadow i hi, if_pos hi]
  · rintro k t hk ⟨D, rfl, hin, hshadow, hout⟩
    have hself : D (r.slot k) = s.desc (r.slot k) := by
      rw [hin k hk, if_neg (Nat.lt_irrefl k)]
    have hself' : D (p.slot k) = s.desc (p.slot k) := by
      rw [hshadow k hk, if_neg (Nat.lt_irrefl k)]
    refine ⟨_, rfl, fun i hi => ?_, fun i hi => ?_, fun a ha ha' => ?_⟩
    · rw [Function.update_of_ne (hpr hk hi).symm]
      by_cases heq : i = k
      · subst heq
        rw [if_pos (Nat.lt_succ_self i)]
        simp only [EthState.setDesc, Function.update_self, hself]
      · have hne : r.slot i ≠ r.slot k := fun h => heq ((r.slot_inj (by decide) hi hk).mp h)
        have hlt : i < k + 1 ↔ i < k := by omega
        simp only [EthState.setDesc, Function.update_of_ne hne, hin i hi, hlt]
    · by_cases heq : i = k
      · subst heq
        rw [Function.update_self, if_pos (Nat.lt_succ_self i)]
        simp only [EthState.setDesc, Function.update_self, Function.update_of_ne (hpr hi hi), hself,
          hself']
      · have hne : p.slot i ≠ p.slot k := fun h => heq ((p.slot_inj (by decide) hi hk).mp h)
        have hlt : i < k + 1 ↔ i < k := by omega
        rw [Function.update_of_ne hne]
        simp only [EthState.setDesc, Function.update_of_ne (hpr hi hk), hshadow i hi, hlt]
    · rw [Function.update_of_ne (ha' k hk)]
      simp only [EthState.setDesc, Function.update_of_ne (ha k hk)]
      exact hout a ha ha'

/-- The same, and the status word of the last shadow descriptor. -/
theorem shadowInit_spec (r p : Region 32 16 n) (hdisj : p.Disjoint r) (hpos : 0 < n)
    (f : Nat → EthDmaDesc → EthDmaDesc) (s : EthState) :
    ∃ D, (forLoop n (fun i (s : EthState) =>
        copyAddrs (r.slot i) (p.slot i) (s.setDesc (r.slot i) (f i))) s).setDesc (p.slot (n - 1))
          (fun d => { d with status := p.base }) = { s with desc := D } ∧
      (∀ i, i < n → D (r.slot i) = f i (s.desc (r.slot i))) ∧
      (∀ i, i < n → D (p.slot i) = { s.desc (p.slot i) with
        status := if i = n - 1 then p.base else (s.desc (p.slot i)).status
        buffer1Addr := (f i (s.desc (r.slot i))).buffer1Addr
        buffer2NextDescAddr := (f i (s.desc (r.slot i))).buffer2NextDescAddr }) ∧
      ∀ a, (∀ i, i < n → a ≠ r.slot i) → (∀ i, i < n → a ≠ p.slot i) → D a = s.desc a := by
  obtain ⟨D, heq, hin, hshadow, hout⟩ := forLoop_copyAddrs r p hdisj f s
  have hlast : n - 1 < n := by omega
  rw [heq]
  refine ⟨_, rfl, fun i hi => ?_, fun i hi => ?_, fun a ha ha' => ?_⟩
  · rw [Function.update_of_ne (hdisj.slot_ne (by decide) (by decide) hlast hi).symm]
    exact hin i hi
  · by_cases h : i = n - 1
    · subst h
      simp only [Function.update_self, hshadow _ hi, if_true]
    · have hne : p.slot i ≠ p.slot (n - 1) := fun heq => h ((p.slot_inj (by decide) hi hlast).mp heq)
      simp only [Function.update_of_ne hne, hshadow i hi, if_neg h]
  · rw [Function.update_of_ne (ha' _ hlast)]
    exact hout a ha ha'

/-- Descriptor memory after the initialisation, where `desc` was before. -/
structure PtpTables (L : PtpLayout n m) (desc D : Word → EthDmaDesc) : Prop where
  tx : ∀ i, i < n → D (L.tx.slot i) = { desc (L.tx.slot i) with
    status := ethDmaTxDescTch ||| ethDmaTxDescTtse
    buffer1Addr := L.txBuf.slot i
    buffer2NextDescAddr := L.tx.slot ((i + 1) % n) }
  rx : ∀ i, i < m → D (L.rx.slot i) =
    { status := ethDmaRxDescOwn
      controlBufferSize := ethDmaRxDescRch ||| BitVec.ofNat 32 ethMaxPacketSize
      buffer1Addr := L.rxBuf.slot i
      buffer2NextDescAddr := L.rx.slot ((i + 1) % m) }
  ptpTx : ∀ i, i < n → D (L.ptpTx.slot i) = { desc (L.ptpTx.slot i) with
    status := if i = n - 1 then L.ptpTx.base else (desc (L.ptpTx.slot i)).status
    buffer1Addr := L.txBuf.slot i
    buffer2NextDescAddr := L.tx.slot ((i + 1) % n) }
  ptpRx : ∀ i, i < m → D (L.ptpRx.slot i) = { desc (L.ptpRx.slot i) with
    status := if i = m - 1 then L.ptpRx.base else (desc (L.ptpRx.slot i)).status
    buffer1Addr := L.rxBuf.slot i
    buffer2NextDescAddr := L.rx.slot ((i + 1) % m) }

section Slots

variable (L : PtpLayout n m) {i j : Nat}

theorem PtpLayout.ptpTx_ne_tx (hi : i < n) (hj : j < n) : L.ptpTx.slot i ≠ L.tx.slot j :=
  L.ptpTx_tx.slot_ne (by decide) (by decide) hi hj

theorem PtpLayout.ptpTx_ne_rx (hi : i < n) (hj : j < m) : L.ptpTx.slot i ≠ L.rx.slot j :=
  L.ptpTx_rx.slot_ne (by decide) (by decide) hi hj

theorem PtpLayout.ptpRx_ne_tx (hi : i < m) (hj : j < n) : L.ptpRx.slot i ≠ L.tx.slot j :=
  L.ptpRx_tx.slot_ne (by decide) (by decide) hi hj

theorem PtpLayout.ptpRx_ne_rx (hi : i < m) (hj : j < m) : L.ptpRx.slot i ≠ L.rx.slot j :=
  L.ptpRx_rx.slot_ne (by decide) (by decide) hi hj

theorem PtpLayout.ptpTx_ne_ptpRx (hi : i < n) (hj : j < m) : L.ptpTx.slot i ≠ L.ptpRx.slot j :=
  L.ptp_disjoint.slot_ne (by decide) (by decide) hi hj

end Slots

theorem ptpStart_spec (L : PtpLayout n m) (desc : Word → EthDmaDesc) (ram : Word → Byte)
    (dmaSts dmaBm : Word) (timeStamping : Bool) :
    ∃ D, ptpStart L desc ram dmaSts dmaBm timeStamping =
        { EthState.boot desc ram dmaSts dmaBm timeStamping with
          desc := D
          dmaTxDescToSet := L.tx.base, dmaPtpTxDescToSet := L.ptpTx.base
          dmaTdlAddr := L.tx.base, txCur := L.tx.base
          dmaRxDescToGet := L.rx.base, dmaPtpRxDescToGet := L.ptpRx.base
          dmaRdlAddr := L.rx.base, rxCur := L.rx.base } ∧
      PtpTables L desc D := by
  let s₀ := EthState.boot desc ram dmaSts dmaBm timeStamping
  obtain ⟨T, hT, hTin, hTshadow, hTout⟩ := shadowInit_spec L.tx L.ptpTx L.ptpTx_tx L.tx_pos
    (fun i d => { d with
      status := ethDmaTxDescTch ||| ethDmaTxDescTtse
      buffer1Addr := buffAt L.txBuf.base i
      buffer2NextDescAddr := chainNext L.tx.base n i })
    { s₀ with dmaTxDescToSet := L.tx.base, dmaPtpTxDescToSet := L.ptpTx.base }
  obtain ⟨R, hR, hRin, hRshadow, hRout⟩ := shadowInit_spec L.rx L.ptpRx L.ptpRx_rx L.rx_pos
    (fun i _ =>
      { status := ethDmaRxDescOwn
        controlBufferSize := ethDmaRxDescRch ||| BitVec.ofNat 32 ethMaxPacketSize
        buffer1Addr := buffAt L.rxBuf.base i
        buffer2NextDescAddr := chainNext L.rx.base m i })
    { s₀ with
      desc := T, dmaTxDescToSet := L.tx.base, dmaPtpTxDescToSet := L.ptpTx.base
      dmaTdlAddr := L.tx.base, txCur := L.tx.base
      dmaRxDescToGet := L.rx.base, dmaPtpRxDescToGet := L.ptpRx.base }
  have htx : dmaPtpTxDescChainInit L.tx.base L.ptpTx.base L.txBuf.base n s₀ =
      { s₀ with
        desc := T, dmaTxDescToSet := L.tx.base, dmaPtpTxDescToSet := L.ptpTx.base
        dmaTdlAddr := L.tx.base, txCur := L.tx.base } :=
    congrArg (fun t => t.setDmaTdlAddr L.tx.base) hT
  have hall : ptpStart L desc ram dmaSts dmaBm timeStamping = _ :=
    (congrArg (dmaPtpRxDescChainInit L.rx.base L.ptpRx.base L.rxBuf.base m) htx).trans
      (congrArg (fun t => t.setDmaRdlAddr L.rx.base) hR)
  refine ⟨R, hall, fun i hi => ?_, fun i hi => ?_, fun i hi => ?_, fun i hi => ?_⟩
  · -- the second initialisation leaves the tables of the first alone
    have hkept : R (L.tx.slot i) = T (L.tx.slot i) :=
      hRout _ (fun j hj => L.tx_ne_rx hi hj) (fun j hj => (L.ptpRx_ne_tx hj hi).symm)
    rw [hkept, hTin i hi, chainNext_eq L.tx hi]
    rfl
  · rw [hRin i hi, chainNext_eq L.rx hi]
    rfl
  · have hkept : R (L.ptpTx.slot i) = T (L.ptpTx.slot i) :=
      hRout _ (fun j hj => L.ptpTx_ne_rx hi hj) (fun j hj => L.ptpTx_ne_ptpRx hi hj)
    rw [hkept, hTshadow i hi, chainNext_eq L.tx hi]
    rfl
  · have hkept : T (L.ptpRx.slot i) = desc (L.ptpRx.slot i) :=
      hTout _ (fun j hj => L.ptpRx_ne_tx hi hj) (fun j hj => (L.ptpTx_ne_ptpRx hj hi).symm)
    rw [hRshadow i hi, chainNext_eq L.rx hi]
    simp only [hkept]
    rfl

end Eth
