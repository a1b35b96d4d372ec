import McuDrivers.Eth.Basic
import McuDrivers.Library.Loop

set_option autoImplicit false

/-! # Ethernet: the initialisation functions of `at32f4xx_eth.c`

They run before the engines are started, so each is a function of the state. A table and the buffers
of its descriptors are given by the address of the first element. The stores to one descriptor are
one update of it. -/

namespace Eth

/-- `ETH->DMATDLADDR = v`, written while the engine is stopped: it starts at that descriptor. -/
def EthState.setDmaTdlAddr (s : EthState) (v : Word) : EthState :=
  { s with dmaTdlAddr := v, txCur := v }

/-- `ETH->DMARDLADDR = v` -/
def EthState.setDmaRdlAddr (s : EthState) (v : Word) : EthState :=
  { s with dmaRdlAddr := v, rxCur := v }

/-- `tab + i` -/
def descAt (tab : Word) (i : Nat) : Word := tab + BitVec.ofNat 32 (16 * i)

/-- `&buff[i * ETH_MAX_PACKET_SIZE]` -/
def buffAt (buff : Word) (i : Nat) : Word := buff + BitVec.ofNat 32 (ethMaxPacketSize * i)

/-- "Initialize the next descriptor": the last one goes back to the first. -/
def chainNext (tab : Word) (count i : Nat) : Word :=
  if i < count - 1 then descAt tab (i + 1) else tab

/-! ## Chain mode -/

def dmaTxDescChainInit (tab txBuff : Word) (count : Nat) (s : EthState) : EthState :=
  (forLoop count (fun i (s : EthState) => s.setDesc (descAt tab i) fun d =>
    { d with
      status := ethDmaTxDescTch
      buffer1Addr := buffAt txBuff i
      buffer2NextDescAddr := chainNext tab count i })
    { s with dmaTxDescToSet := tab }).setDmaTdlAddr tab

def dmaRxDescChainInit (tab rxBuff : Word) (count : Nat) (s : EthState) : EthState :=
  (forLoop count (fun i (s : EthState) => s.setDesc (descAt tab i) fun _ =>
    { status := ethDmaRxDescOwn
      controlBufferSize := ethDmaRxDescRch ||| BitVec.ofNat 32 ethMaxPacketSize
      buffer1Addr := buffAt rxBuff i
      buffer2NextDescAddr := chainNext tab count i })
    { s with dmaRxDescToGet := tab }).setDmaRdlAddr tab

/-! ## Ring mode -/

/-- The status word is written for the last descriptor only. -/
def dmaTxDescRingInit (tab txBuff1 txBuff2 : Word) (count : Nat) (s : EthState) : EthState :=
  (forLoop count (fun i (s : EthState) => s.setDesc (descAt tab i) fun d =>
    { d with
      buffer1Addr := buffAt txBuff1 i
      buffer2NextDescAddr := buffAt txBuff2 i
      status := if i = count - 1 then ethDmaTxDescTer else d.status })
    { s with dmaTxDescToSet := tab }).setDmaTdlAddr tab

def dmaRxDescRingInit (tab rxBuff1 rxBuff2 : Word) (count : Nat) (s : EthState) : EthState :=
  (forLoop count (fun i (s : EthState) => s.setDesc (descAt tab i) fun _ =>
    { status := ethDmaRxDescOwn
      controlBufferSize :=
        if i = count - 1 then BitVec.ofNat 32 ethMaxPacketSize ||| ethDmaRxDescRer
        else BitVec.ofNat 32 ethMaxPacketSize
      buffer1Addr := buffAt rxBuff1 i
      buffer2NextDescAddr := buffAt rxBuff2 i })
    { s with dmaRxDescToGet := tab }).setDmaRdlAddr tab

/-! ## Chain mode with time stamps -/

/-- "make DMAPTPTxDescTab points to the same addresses as DMATxDescTab" -/
def copyAddrs (src dst : Word) (s : EthState) : EthState :=
  s.setDesc dst fun d =>
    { d with
      buffer1Addr := (s.desc src).buffer1Addr
      buffer2NextDescAddr := (s.desc src).buffer2NextDescAddr }

/-- Of the shadow table the status word is written for the last descriptor only. -/
def dmaPtpTxDescChainInit (tab ptpTab txBuff : Word) (count : Nat) (s : EthState) : EthState :=
  ((forLoop count (fun i (s : EthState) => copyAddrs (descAt tab i) (descAt ptpTab i)
    (s.setDesc (descAt tab i) fun d =>
      { d with
        status := ethDmaTxDescTch ||| ethDmaTxDescTtse
        buffer1Addr := buffAt txBuff i
        buffer2NextDescAddr := chainNext tab count i }))
    { s with dmaTxDescToSet := tab, dmaPtpTxDescToSet := ptpTab }).setDesc
      (descAt ptpTab (count - 1)) fun d => { d with status := ptpTab }).setDmaTdlAddr tab

def dmaPtpRxDescChainInit (tab ptpTab rxBuff : Word) (count : Nat) (s : EthState) : EthState :=
  ((forLoop count (fun i (s : EthState) => copyAddrs (descAt tab i) (descAt ptpTab i)
    (s.setDesc (descAt tab i) fun _ =>
      { status := ethDmaRxDescOwn
        controlBufferSize := ethDmaRxDescRch ||| BitVec.ofNat 32 ethMaxPacketSize
        buffer1Addr := buffAt rxBuff i
        buffer2NextDescAddr := chainNext tab count i }))
    { s with dmaRxDescToGet := tab, dmaPtpRxDescToGet := ptpTab }).setDesc
      (descAt ptpTab (count - 1)) fun d => { d with status := ptpTab }).setDmaRdlAddr tab

/-! ## What the loops leave -/

variable {n : Nat}

/-- A loop that updates one descriptor of a table after the other. -/
theorem forLoop_setDesc (r : Region 32 16 n) (f : Nat → EthDmaDesc → EthDmaDesc) (s : EthState) :
    ∃ D, forLoop n (fun i (s : EthState) => s.setDesc (r.slot i) (f i)) s = { s with desc := D } ∧
      (∀ i, i < n → D (r.slot i) = f i (s.desc (r.slot i))) ∧
      ∀ a, (∀ i, i < n → a ≠ r.slot i) → D a = s.desc a := by
  have hinv := forLoop_induct (n := n) (s := s)
    (fun i (s : EthState) => s.setDesc (r.slot i) (f i))
    (fun k t => ∃ D, t = { s with desc := D } ∧
      (∀ i, i < n → D (r.slot i) = if i < k then f i (s.desc (r.slot i)) else s.desc (r.slot i)) ∧
      ∀ a, (∀ i, i < n → a ≠ r.slot i) → D a = s.desc a)
    ⟨s.desc, rfl, by simp, fun _ _ => rfl⟩ ?_
  · obtain ⟨D, heq, hin, hout⟩ := hinv
    refine ⟨D, heq, fun i hi => ?_, hout⟩
    rw [hin i hi, if_pos hi]
  · rintro k t hk ⟨D, rfl, hin, hout⟩
    refine ⟨_, rfl, fun i hi => ?_, fun a ha => ?_⟩
    · by_cases heq : i = k
      · subst heq
        have hself := hin i hi
        rw [if_neg (Nat.lt_irrefl i)] at hself
        rw [Function.update_self, if_pos (Nat.lt_succ_self i)]
        exact congrArg (f i) hself
      · have hne : r.slot i ≠ r.slot k := fun h => heq ((r.slot_inj (by decide) hi hk).mp h)
        have hlt : i < k + 1 ↔ i < k := by omega
        simp only [Function.update_of_ne hne, hin i hi, hlt]
    · rw [Function.update_of_ne (ha k hk)]
      exact hout a ha

theorem chainNext_eq (r : Region 32 16 n) {i : Nat} (hi : i < n) :
    chainNext r.base n i = r.slot ((i + 1) % n) := by
  unfold chainNext
  split
  · rw [Nat.mod_eq_of_lt (by omega)]
    rfl
  · have hlast : i + 1 = n := by omega
    rw [hlast, Nat.mod_self, Region.slot_zero]

theorem dmaTxDescChainInit_spec (r : Region 32 16 n) (txBuff : Word) (s : EthState) :
    ∃ D, dmaTxDescChainInit r.base txBuff n s =
        { s with desc := D, dmaTxDescToSet := r.base, dmaTdlAddr := r.base, txCur := r.base } ∧
      (∀ i, i < n → D (r.slot i) =
        { s.desc (r.slot i) with
          status := ethDmaTxDescTch
          buffer1Addr := buffAt txBuff i
          buffer2NextDescAddr := r.slot ((i + 1) % n) }) ∧
      ∀ a, (∀ i, i < n → a ≠ r.slot i) → D a = s.desc a := by
  obtain ⟨D, heq, hin, hout⟩ := forLoop_setDesc r
    (fun i d =>
      { d with
        status := ethDmaTxDescTch
        buffer1Addr := buffAt txBuff i
        buffer2NextDescAddr := chainNext r.base n i }) { s with dmaTxDescToSet := r.base }
  refine ⟨D, congrArg (fun t => t.setDmaTdlAddr r.base) heq, fun i hi => ?_, hout⟩
  rw [hin i hi, chainNext_eq r hi]

theorem dmaRxDescChainInit_spec (r : Region 32 16 n) (rxBuff : Word) (s : EthState) :
    ∃ D, dmaRxDescChainInit r.base rxBuff n s =
        { s with desc := D, dmaRxDescToGet := r.base, dmaRdlAddr := r.base, rxCur := r.base } ∧
      (∀ i, i < n → D (r.slot i) =
        { status := ethDmaRxDescOwn
          controlBufferSize := ethDmaRxDescRch ||| BitVec.ofNat 32 ethMaxPacketSize
          buffer1Addr := buffAt rxBuff i
          buffer2NextDescAddr := r.slot ((i + 1) % n) }) ∧
      ∀ a, (∀ i, i < n → a ≠ r.slot i) → D a = s.desc a := by
  obtain ⟨D, heq, hin, hout⟩ := forLoop_setDesc r
    (fun i _ =>
      { status := ethDmaRxDescOwn
        controlBufferSize := ethDmaRxDescRch ||| BitVec.ofNat 32 ethMaxPacketSize
        buffer1Addr := buffAt rxBuff i
        buffer2NextDescAddr := chainNext r.base n i }) { s with dmaRxDescToGet := r.base }
  refine ⟨D, congrArg (fun t => t.setDmaRdlAddr r.base) heq, fun i hi => ?_, hout⟩
  rw [hin i hi, chainNext_eq r hi]

theorem dmaTxDescRingInit_spec (r : Region 32 16 n) (txBuff1 txBuff2 : Word) (s : EthState) :
    ∃ D, dmaTxDescRingInit r.base txBuff1 txBuff2 n s =
        { s with desc := D, dmaTxDescToSet := r.base, dmaTdlAddr := r.base, txCur := r.base } ∧
      (∀ i, i < n → (D (r.slot i)).status =
        if i = n - 1 then ethDmaTxDescTer else (s.desc (r.slot i)).status) ∧
      ∀ a, (∀ i, i < n → a ≠ r.slot i) → D a = s.desc a := by
  obtain ⟨D, heq, hin, hout⟩ := forLoop_setDesc r
    (fun i d =>
      { d with
        buffer1Addr := buffAt txBuff1 i
        buffer2NextDescAddr := buffAt txBuff2 i
        status := if i = n - 1 then ethDmaTxDescTer else d.status })
    { s with dmaTxDescToSet := r.base }
  refine ⟨D, congrArg (fun t => t.setDmaTdlAddr r.base) heq, fun i hi => ?_, hout⟩
  rw [hin i hi]

theorem dmaRxDescRingInit_spec (r : Region 32 16 n) (rxBuff1 rxBuff2 : Word) (s : EthState) :
    ∃ D, dmaRxDescRingInit r.base rxBuff1 rxBuff2 n s =
        { s with desc := D, dmaRxDescToGet := r.base, dmaRdlAddr := r.base, rxCur := r.base } ∧
      (∀ i, i < n → D (r.slot i) =
        { status := ethDmaRxDescOwn
          controlBufferSize :=
            if i = n - 1 then BitVec.ofNat 32 ethMaxPacketSize ||| ethDmaRxDescRer
            else BitVec.ofNat 32 ethMaxPacketSize
          buffer1Addr := buffAt rxBuff1 i
          buffer2NextDescAddr := buffAt rxBuff2 i }) ∧
      ∀ a, (∀ i, i < n → a ≠ r.slot i) → D a = s.desc a := by
  obtain ⟨D, heq, hin, hout⟩ := forLoop_setDesc r
    (fun i _ =>
      { status := ethDmaRxDescOwn
        controlBufferSize :=
          if i = n - 1 then BitVec.ofNat 32 ethMaxPacketSize ||| ethDmaRxDescRer
          else BitVec.ofNat 32 ethMaxPacketSize
        buffer1Addr := buffAt rxBuff1 i
        buffer2NextDescAddr := buffAt rxBuff2 i }) { s with dmaRxDescToGet := r.base }
  refine ⟨D, congrArg (fun t => t.setDmaRdlAddr r.base) heq, hin, hout⟩

end Eth
