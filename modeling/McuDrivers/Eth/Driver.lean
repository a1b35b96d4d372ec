import McuDrivers.Eth.Dma
import McuDrivers.Library.Interleave

set_option autoImplicit false

/-! # Ethernet: the packet functions of `at32f4xx_eth.c`

The five functions that hand descriptors to the DMA engines, access by access. An application buffer
`ppkt` that a function reads is a map from offsets to bytes; one that it fills is the list of bytes
it was filled with. -/

namespace Eth

/-- What a call returns: the value of the C function, the bytes written to `ppkt`, and the two words
    written to the time stamp table. -/
structure EthResult where
  ret : Word
  bytes : List Byte
  stamp : Option (Word × Word)

def EthResult.code (ret : Word) : EthResult := ⟨ret, [], none⟩

/-! ## Moving the cursors -/

/-- The distance in ring mode: `0x10 + ((ETH->DMABM & ETH_DMABM_DSL) >> 2)`. -/
def EthState.cpuSkip (s : EthState) : Word := 0x10 + ((s.dmaBm &&& ethDmaBmDsl) >>> 2)

def setTxCursor (next : EthState → Word) : EthProg Unit :=
  .put fun s => { s with dmaTxDescToSet := next s, txMoves := s.txMoves + 1 }

def setRxCursor (next : EthState → Word) : EthProg Unit :=
  .put fun s => { s with dmaRxDescToGet := next s, rxMoves := s.rxMoves + 1 }

/-- The tail of `ETH_HandleTxPkt`. -/
def advanceTx : EthProg Unit := do
  let chained ← loadDesc (·.dmaTxDescToSet) (·.status)
  if chained &&& ethDmaTxDescTch ≠ 0 then
    setTxCursor fun s => (s.desc s.dmaTxDescToSet).buffer2NextDescAddr
  else do
    let last ← loadDesc (·.dmaTxDescToSet) (·.status)
    if last &&& ethDmaTxDescTer ≠ 0 then
      setTxCursor (·.dmaTdlAddr)
    else
      setTxCursor fun s => s.dmaTxDescToSet + s.cpuSkip

/-- The tail of `ETH_HandleRxPkt`, which is also the tail of `ETH_DropRxPkt`. -/
def advanceRx : EthProg Unit := do
  let chained ← loadDesc (·.dmaRxDescToGet) (·.controlBufferSize)
  if chained &&& ethDmaRxDescRch ≠ 0 then
    setRxCursor fun s => (s.desc s.dmaRxDescToGet).buffer2NextDescAddr
  else do
    let last ← loadDesc (·.dmaRxDescToGet) (·.controlBufferSize)
    if last &&& ethDmaRxDescRer ≠ 0 then
      setRxCursor (·.dmaRdlAddr)
    else
      setRxCursor fun s => s.dmaRxDescToGet + s.cpuSkip

/-! ## Packets -/

def ethHandleTxPkt (ppkt : Nat → Byte) (frameLength : BitVec 16) : EthProg EthResult := do
  let status ← loadDesc (·.dmaTxDescToSet) (·.status)
  if status &&& ethDmaTxDescOwn ≠ 0 then
    return .code ethError
  copyToBuffer (·.dmaTxDescToSet) ppkt frameLength.toNat 0
  storeDesc (·.dmaTxDescToSet) fun d =>
    { d with controlBufferSize := frameLength.setWidth 32 &&& ethDmaTxDescTbs1 }
  orStatus (·.dmaTxDescToSet) (ethDmaTxDescLs ||| ethDmaTxDescFs)
  orStatus (·.dmaTxDescToSet) ethDmaTxDescOwn
  resumeTx
  advanceTx
  return .code ethSuccess

/-- The three tests of a good frame, each of which loads the status word again: OWN was found clear,
    so the loads agree, but they are loads of a volatile word all the same. -/
def rxGoodTest : EthProg Bool := do
  let es ← loadDesc (·.dmaRxDescToGet) (·.status)
  if es &&& ethDmaRxDescEs = 0 then do
    let ls ← loadDesc (·.dmaRxDescToGet) (·.status)
    if ls &&& ethDmaRxDescLs ≠ 0 then do
      let fs ← loadDesc (·.dmaRxDescToGet) (·.status)
      return fs &&& ethDmaRxDescFs ≠ 0
    else return false
  else return false

/-- The good branch: the length, and the bytes copied from the buffer of the descriptor `ptr`. -/
def copyFrame (ptr : EthState → Word) : EthProg (Word × List Byte) := do
  let status ← loadDesc (·.dmaRxDescToGet) (·.status)
  let framelength := rxFrameLength status - 4
  let bytes ← copyFromBuffer ptr framelength.toNat 0
  return (framelength, bytes)

/-- `framelength` and the bytes copied, of a good frame or of none. -/
def rxFrame (ptr : EthState → Word) : EthProg (Word × List Byte) := do
  let good ← rxGoodTest
  if good then copyFrame ptr else return (ethError, [])

def ethHandleRxPkt : EthProg EthResult := do
  let status ← loadDesc (·.dmaRxDescToGet) (·.status)
  if status &&& ethDmaRxDescOwn ≠ 0 then
    return .code ethError
  let frame ← rxFrame (·.dmaRxDescToGet)
  storeStatus (·.dmaRxDescToGet) ethDmaRxDescOwn
  resumeRx
  advanceRx
  return ⟨frame.1, frame.2, none⟩

def ethDropRxPkt : EthProg EthResult := do
  storeStatus (·.dmaRxDescToGet) ethDmaRxDescOwn
  advanceRx
  return .code 0

/-! ## Packets with time stamps -/

/-- `timeout++ < 0xFFFF` polls of TTSS; returns the final `timeout`. -/
def waitTtss : (left timeout : Nat) → EthProg Nat
  | 0, timeout => pure timeout
  | left + 1, timeout => do
      let status ← loadDesc (·.dmaTxDescToSet) (·.status)
      if status &&& ethDmaTxDescTtss = 0 ∧ timeout + 1 < 0xFFFF then
        waitTtss left (timeout + 1)
      else return timeout + 1

def phyReadTo : Nat := 0x00FFFFFF

/-- `sizeof(ETH_DMADESCTypeDef)`: what `++` adds to a descriptor pointer. -/
def descSize : Word := 16

/-- The tail of `ETH_HandlePTPTxPkt`. -/
def advancePtpTx : EthProg Unit := do
  let chained ← loadDesc (·.dmaTxDescToSet) (·.status)
  if chained &&& ethDmaTxDescTch ≠ 0 then do
    setTxCursor fun s => (s.desc s.dmaPtpTxDescToSet).buffer2NextDescAddr
    let wrap ← loadDesc (·.dmaPtpTxDescToSet) (·.status)
    if wrap ≠ 0 then
      .put fun s => { s with dmaPtpTxDescToSet := (s.desc s.dmaPtpTxDescToSet).status }
    else
      .put fun s => { s with dmaPtpTxDescToSet := s.dmaPtpTxDescToSet + descSize }
  else do
    let last ← loadDesc (·.dmaTxDescToSet) (·.status)
    if last &&& ethDmaTxDescTer ≠ 0 then do
      setTxCursor (·.dmaTdlAddr)
      .put fun s => { s with dmaPtpTxDescToSet := s.dmaTdlAddr }
    else do
      setTxCursor fun s => s.dmaTxDescToSet + s.cpuSkip
      .put fun s => { s with dmaPtpTxDescToSet := s.dmaPtpTxDescToSet + s.cpuSkip }

/-- The tail of `ETH_HandlePTPRxPkt`. In ring mode the shadow cursor stays where it is. -/
def advancePtpRx : EthProg Unit := do
  let chained ← loadDesc (·.dmaRxDescToGet) (·.controlBufferSize)
  if chained &&& ethDmaRxDescRch ≠ 0 then do
    setRxCursor fun s => (s.desc s.dmaPtpRxDescToGet).buffer2NextDescAddr
    let wrap ← loadDesc (·.dmaPtpRxDescToGet) (·.status)
    if wrap ≠ 0 then
      .put fun s => { s with dmaPtpRxDescToGet := (s.desc s.dmaPtpRxDescToGet).status }
    else
      .put fun s => { s with dmaPtpRxDescToGet := s.dmaPtpRxDescToGet + descSize }
  else do
    let last ← loadDesc (·.dmaRxDescToGet) (·.controlBufferSize)
    if last &&& ethDmaRxDescRer ≠ 0 then
      setRxCursor (·.dmaRdlAddr)
    else
      setRxCursor fun s => s.dmaRxDescToGet + s.cpuSkip

/-- The two words of the descriptor that hold the time stamp once the DMA has closed it. -/
def loadStamp (ptr : EthState → Word) : EthProg (Word × Word) := do
  let lo ← loadDesc ptr (·.buffer1Addr)
  let hi ← loadDesc ptr (·.buffer2NextDescAddr)
  return (lo, hi)

def ethHandlePtpTxPkt (ppkt : Nat → Byte) (frameLength : BitVec 16) : EthProg EthResult := do
  let status ← loadDesc (·.dmaTxDescToSet) (·.status)
  if status &&& ethDmaTxDescOwn ≠ 0 then
    return .code ethError
  copyToBuffer (·.dmaPtpTxDescToSet) ppkt frameLength.toNat 0
  storeDesc (·.dmaTxDescToSet) fun d =>
    { d with controlBufferSize := frameLength.setWidth 32 &&& 0x1FFF }
  orStatus (·.dmaTxDescToSet) (ethDmaTxDescLs ||| ethDmaTxDescFs)
  orStatus (·.dmaTxDescToSet) ethDmaTxDescOwn
  resumeTx
  let timeout ← waitTtss 0xFFFF 0
  -- the bound of the wait is `0xFFFF`, so that this test never succeeds
  if timeout = phyReadTo then
    return .code ethError
  andStatus (·.dmaTxDescToSet) (~~~ethDmaTxDescTtss)
  let stamp ← loadStamp (·.dmaTxDescToSet)
  advancePtpTx
  return ⟨ethSuccess, [], some stamp⟩

def ethHandlePtpRxPkt : EthProg EthResult := do
  let status ← loadDesc (·.dmaRxDescToGet) (·.status)
  if status &&& ethDmaRxDescOwn ≠ 0 then
    return .code ethError
  let frame ← rxFrame (·.dmaPtpRxDescToGet)
  -- here the poll demand comes before the descriptor is given back
  resumeRx
  let stamp ← loadStamp (·.dmaRxDescToGet)
  orStatus (·.dmaRxDescToGet) ethDmaRxDescOwn
  advancePtpRx
  return ⟨frame.1, frame.2, some stamp⟩

/-! ## The accesses of the pieces

Which accesses a piece can make at all, whatever it sees: of what kind, not with which values. -/

section Accesses

variable {G : EthState → EthState → Prop}

theorem loadDesc_accesses (hread : ∀ s, G s s) (ptr : EthState → Word)
    (field : EthDmaDesc → Word) : (loadDesc ptr field).Accesses G :=
  (Prog.accesses_get _ _).mpr hread

theorem orStatus_accesses {ptr : EthState → Word} {mask : Word} (hread : ∀ s, G s s)
    (hstatus : ∀ s v, G s (s.putDesc (ptr s) { s.desc (ptr s) with status := v })) :
    (orStatus ptr mask).Accesses G :=
  Prog.accesses_bind (loadDesc_accesses hread _ _) fun _ =>
    (Prog.accesses_put _ _).mpr fun s => hstatus s _

theorem storeStatus_accesses {ptr : EthState → Word} (v : Word)
    (hstatus : ∀ s v, G s (s.putDesc (ptr s) { s.desc (ptr s) with status := v })) :
    (storeStatus ptr v).Accesses G :=
  (Prog.accesses_put _ _).mpr fun s => hstatus s v

theorem andStatus_accesses {ptr : EthState → Word} {mask : Word} (hread : ∀ s, G s s)
    (hstatus : ∀ s v, G s (s.putDesc (ptr s) { s.desc (ptr s) with status := v })) :
    (andStatus ptr mask).Accesses G :=
  Prog.accesses_bind (loadDesc_accesses hread _ _) fun _ => storeStatus_accesses _ hstatus

theorem copyToBuffer_accesses (hread : ∀ s, G s s) (hbyte : ∀ s a b, G s (s.putByte a b))
    (ptr : EthState → Word) (ppkt : Nat → Byte) (left offset : Nat) :
    (copyToBuffer ptr ppkt left offset).Accesses G := by
  induction left generalizing offset with
  | zero => trivial
  | succ left ih =>
      exact Prog.accesses_bind (loadDesc_accesses hread _ _) fun _ =>
        Prog.accesses_bind ((Prog.accesses_put _ _).mpr fun s => hbyte s _ _) fun _ => ih _

theorem copyFromBuffer_accesses (hread : ∀ s, G s s) (hload : ∀ s a, G s (s.noteLoad a))
    (ptr : EthState → Word) (left offset : Nat) :
    (copyFromBuffer ptr left offset).Accesses G := by
  induction left generalizing offset with
  | zero => trivial
  | succ left ih =>
      refine Prog.accesses_bind (loadDesc_accesses hread _ _) fun b => ?_
      exact Prog.accesses_bind ⟨fun s => hload s _, fun _ => trivial⟩ fun _ =>
        Prog.accesses_bind (ih _) fun _ => trivial

theorem resumeTx_accesses (hread : ∀ s, G s s) (hsts : ∀ s v, G s { s with dmaSts := v }) :
    resumeTx.Accesses G := by
  refine Prog.accesses_bind ((Prog.accesses_get _ _).mpr hread) fun sts => ?_
  split
  · exact Prog.accesses_bind ((Prog.accesses_put _ _).mpr fun s => hsts s _) fun _ =>
      (Prog.accesses_put _ _).mpr hread
  · trivial

theorem resumeRx_accesses (hread : ∀ s, G s s) (hsts : ∀ s v, G s { s with dmaSts := v })
    (hpoll : ∀ s, G s s.pollRx) : resumeRx.Accesses G := by
  refine Prog.accesses_bind ((Prog.accesses_get _ _).mpr hread) fun sts => ?_
  split
  · exact Prog.accesses_bind ((Prog.accesses_put _ _).mpr fun s => hsts s _) fun _ =>
      (Prog.accesses_put _ _).mpr hpoll
  · trivial

/-- A load decides which of two programs comes next. -/
theorem loadIf_accesses {α : Type} {ptr : EthState → Word} {field : EthDmaDesc → Word} {c : Word → Prop}
    [DecidablePred c] {p q : EthProg α} (hread : ∀ s, G s s) (hp : p.Accesses G) (hq : q.Accesses G) :
    (do
      let v ← loadDesc ptr field
      if c v then p else q : EthProg α).Accesses G := by
  refine Prog.accesses_bind (loadDesc_accesses hread _ _) fun v => ?_
  split
  · exact hp
  · exact hq

theorem rxGoodTest_accesses (hread : ∀ s, G s s) : rxGoodTest.Accesses G := by
  refine loadIf_accesses hread ?_ trivial
  refine loadIf_accesses hread ?_ trivial
  exact Prog.accesses_bind (loadDesc_accesses hread _ _) fun _ => trivial

theorem rxFrame_accesses (hread : ∀ s, G s s) (hload : ∀ s a, G s (s.noteLoad a))
    (ptr : EthState → Word) : (rxFrame ptr).Accesses G := by
  refine Prog.accesses_bind (rxGoodTest_accesses hread) fun good => ?_
  split
  · exact Prog.accesses_bind (loadDesc_accesses hread _ _) fun _ =>
      Prog.accesses_bind (copyFromBuffer_accesses hread hload _ _ _) fun _ => trivial
  · trivial

/-- Handing the current transmit descriptor over, before the rest `p` of a call. -/
theorem giveTx_accesses {α : Type} {f : EthDmaDesc → EthDmaDesc} {p : EthProg α} (hread : ∀ s, G s s)
    (hdesc : ∀ s, G s (s.putDesc s.dmaTxDescToSet (f (s.desc s.dmaTxDescToSet))))
    (hstatus : ∀ s v, G s (s.putDesc s.dmaTxDescToSet
      { s.desc s.dmaTxDescToSet with status := v }))
    (hsts : ∀ s v, G s { s with dmaSts := v }) (hp : p.Accesses G) :
    (do
      storeDesc (·.dmaTxDescToSet) f
      orStatus (·.dmaTxDescToSet) (ethDmaTxDescLs ||| ethDmaTxDescFs)
      orStatus (·.dmaTxDescToSet) ethDmaTxDescOwn
      resumeTx
      p : EthProg α).Accesses G := by
  refine Prog.accesses_bind ((Prog.accesses_put _ _).mpr hdesc) fun _ => ?_
  refine Prog.accesses_bind (orStatus_accesses hread hstatus) fun _ => ?_
  refine Prog.accesses_bind (orStatus_accesses hread hstatus) fun _ => ?_
  exact Prog.accesses_bind (resumeTx_accesses hread hsts) fun _ => hp

theorem setTxCursor_accesses
    (hmove : ∀ s v, G s { s with dmaTxDescToSet := v, txMoves := s.txMoves + 1 })
    (next : EthState → Word) : (setTxCursor next).Accesses G :=
  (Prog.accesses_put _ _).mpr fun s => hmove s _

theorem setRxCursor_accesses
    (hmove : ∀ s v, G s { s with dmaRxDescToGet := v, rxMoves := s.rxMoves + 1 })
    (next : EthState → Word) : (setRxCursor next).Accesses G :=
  (Prog.accesses_put _ _).mpr fun s => hmove s _

theorem advanceTx_accesses (hread : ∀ s, G s s)
    (hmove : ∀ s v, G s { s with dmaTxDescToSet := v, txMoves := s.txMoves + 1 }) :
    advanceTx.Accesses G := by
  have hset := setTxCursor_accesses hmove
  refine loadIf_accesses hread (hset _) ?_
  exact loadIf_accesses hread (hset _) (hset _)

theorem advanceRx_accesses (hread : ∀ s, G s s)
    (hmove : ∀ s v, G s { s with dmaRxDescToGet := v, rxMoves := s.rxMoves + 1 }) :
    advanceRx.Accesses G := by
  have hset := setRxCursor_accesses hmove
  refine loadIf_accesses hread (hset _) ?_
  exact loadIf_accesses hread (hset _) (hset _)

theorem advancePtpRx_accesses (hread : ∀ s, G s s)
    (hmove : ∀ s v, G s { s with dmaRxDescToGet := v, rxMoves := s.rxMoves + 1 })
    (hshadow : ∀ s v, G s { s with dmaPtpRxDescToGet := v }) : advancePtpRx.Accesses G := by
  have hset := setRxCursor_accesses hmove
  have hfollow (next : EthState → Word) :
      (.put fun s => { s with dmaPtpRxDescToGet := next s } : EthProg Unit).Accesses G :=
    (Prog.accesses_put _ _).mpr fun s => hshadow s _
  refine loadIf_accesses hread ?_ ?_
  · refine Prog.accesses_bind (hset _) fun _ => ?_
    exact loadIf_accesses hread (hfollow _) (hfollow _)
  · exact loadIf_accesses hread (hset _) (hset _)

theorem loadStamp_accesses (hread : ∀ s, G s s) (ptr : EthState → Word) :
    (loadStamp ptr).Accesses G :=
  Prog.accesses_bind (loadDesc_accesses hread _ _) fun _ =>
    Prog.accesses_bind (loadDesc_accesses hread _ _) fun _ => trivial

theorem waitTtss_accesses (hread : ∀ s, G s s) (left timeout : Nat) :
    (waitTtss left timeout).Accesses G := by
  induction left generalizing timeout with
  | zero => trivial
  | succ left ih =>
      refine Prog.accesses_bind (loadDesc_accesses hread _ _) fun status => ?_
      split
      · exact ih _
      · trivial

theorem waitTtss_returns (left timeout : Nat) :
    (waitTtss left timeout).Returns (· ≤ timeout + left) := by
  induction left generalizing timeout with
  | zero => exact Nat.le_refl _
  | succ left ih =>
      refine Prog.returns_bind fun status => ?_
      split
      · have hle : timeout + 1 + left = timeout + (left + 1) := by omega
        exact hle ▸ ih (timeout + 1)
      · show timeout + 1 ≤ timeout + (left + 1)
        omega

theorem advancePtpTx_accesses (hread : ∀ s, G s s)
    (hmove : ∀ s v, G s { s with dmaTxDescToSet := v, txMoves := s.txMoves + 1 })
    (hshadow : ∀ s v, G s { s with dmaPtpTxDescToSet := v }) : advancePtpTx.Accesses G := by
  have hset := setTxCursor_accesses hmove
  have hfollow (next : EthState → Word) :
      (.put fun s => { s with dmaPtpTxDescToSet := next s } : EthProg Unit).Accesses G :=
    (Prog.accesses_put _ _).mpr fun s => hshadow s _
  refine loadIf_accesses hread ?_ ?_
  · refine Prog.accesses_bind (hset _) fun _ => ?_
    exact loadIf_accesses hread (hfollow _) (hfollow _)
  · refine loadIf_accesses hread ?_ ?_
    · exact Prog.accesses_bind (hset _) fun _ => hfollow _
    · exact Prog.accesses_bind (hset _) fun _ => hfollow _

/-- Of a descriptor `ETH_HandlePTPTxPkt` writes the first two words only. -/
theorem ethHandlePtpTxPkt_accesses (hread : ∀ s, G s s) (hbyte : ∀ s a b, G s (s.putByte a b))
    (hdesc : ∀ s v w, G s (s.putDesc s.dmaTxDescToSet
      { s.desc s.dmaTxDescToSet with status := v, controlBufferSize := w }))
    (hsts : ∀ s v, G s { s with dmaSts := v })
    (hmove : ∀ s v, G s { s with dmaTxDescToSet := v, txMoves := s.txMoves + 1 })
    (hshadow : ∀ s v, G s { s with dmaPtpTxDescToSet := v })
    (ppkt : Nat → Byte) (frameLength : BitVec 16) :
    (ethHandlePtpTxPkt ppkt frameLength).Accesses G := by
  have hstatus : ∀ s v, G s (s.putDesc s.dmaTxDescToSet
      { s.desc s.dmaTxDescToSet with status := v }) := fun s v => hdesc s v _
  refine Prog.accesses_bind (loadDesc_accesses hread _ _) fun status => ?_
  split
  · trivial
  · refine Prog.accesses_bind (copyToBuffer_accesses hread hbyte _ _ _ _) fun _ => ?_
    refine giveTx_accesses hread (fun s => hdesc s _ _) hstatus hsts ?_
    refine Prog.accesses_bind (waitTtss_accesses hread _ _) fun timeout => ?_
    split
    · trivial
    · refine Prog.accesses_bind (andStatus_accesses hread hstatus) fun _ => ?_
      refine Prog.accesses_bind (loadStamp_accesses hread _) fun _ => ?_
      exact Prog.accesses_bind (advancePtpTx_accesses hread hmove hshadow) fun _ => trivial

/-- Of a descriptor `ETH_HandlePTPRxPkt` writes the status word only. -/
theorem ethHandlePtpRxPkt_accesses (hread : ∀ s, G s s) (hload : ∀ s a, G s (s.noteLoad a))
    (hstatus : ∀ s v, G s (s.putDesc s.dmaRxDescToGet
      { s.desc s.dmaRxDescToGet with status := v }))
    (hsts : ∀ s v, G s { s with dmaSts := v }) (hpoll : ∀ s, G s s.pollRx)
    (hmove : ∀ s v, G s { s with dmaRxDescToGet := v, rxMoves := s.rxMoves + 1 })
    (hshadow : ∀ s v, G s { s with dmaPtpRxDescToGet := v }) : ethHandlePtpRxPkt.Accesses G := by
  refine Prog.accesses_bind (loadDesc_accesses hread _ _) fun status => ?_
  split
  · trivial
  · refine Prog.accesses_bind (rxFrame_accesses hread hload _) fun frame => ?_
    refine Prog.accesses_bind (resumeRx_accesses hread hsts hpoll) fun _ => ?_
    refine Prog.accesses_bind (loadStamp_accesses hread _) fun stamp => ?_
    refine Prog.accesses_bind (orStatus_accesses hread hstatus) fun _ => ?_
    exact Prog.accesses_bind (advancePtpRx_accesses hread hmove hshadow) fun _ => trivial

end Accesses

/-- Of a status word that stays as it is, the three loads make one test. -/
theorem wp_rxGoodTest {R A G : EthState → EthState → Prop} {P : EthState → Prop} {status : Word}
    {s : EthState} (hP : Prog.Stable R P)
    (hstatus : ∀ s, P s → (s.desc s.dmaRxDescToGet).status = status) (hread : ∀ s, G s s) (h : P s) :
    rxGoodTest.wp R A G (fun good s => good = decide (RxGood status) ∧ P s) s := by
  have hload : ∀ s, P s → (loadDesc (·.dmaRxDescToGet) (·.status)).wp R A G
      (fun v s => v = status ∧ P s) s :=
    fun s h => wp_loadDesc hP h fun s h => ⟨hread s, hstatus s h, h⟩
  refine Prog.wp_seq (hload s h) ?_
  rintro es s ⟨rfl, h⟩
  split
  case isFalse hes => exact ⟨(decide_eq_false fun hgood => hes hgood.1).symm, h⟩
  case isTrue hes =>
    refine Prog.wp_seq (hload s h) ?_
    rintro ls s ⟨rfl, h⟩
    split
    case isFalse hls => exact ⟨(decide_eq_false fun hgood => hls hgood.2.1).symm, h⟩
    case isTrue hls =>
      refine Prog.wp_seq (hload s h) ?_
      rintro fs s ⟨rfl, h⟩
      refine ⟨decide_eq_decide.mpr ?_, h⟩
      constructor
      · intro hfs
        exact ⟨hes, hls, hfs⟩
      · intro hgood
        exact hgood.2.2

/-- The status word that `ETH_HandleTxPkt` loads first decides what it returns. -/
theorem ethHandleTxPkt_returns (ppkt : Nat → Byte) (frameLength : BitVec 16) (status : Word) :
    (if status &&& ethDmaTxDescOwn ≠ 0 then pure (EthResult.code ethError) else do
        copyToBuffer (·.dmaTxDescToSet) ppkt frameLength.toNat 0
        storeDesc (·.dmaTxDescToSet) fun d =>
          { d with controlBufferSize := frameLength.setWidth 32 &&& ethDmaTxDescTbs1 }
        orStatus (·.dmaTxDescToSet) (ethDmaTxDescLs ||| ethDmaTxDescFs)
        orStatus (·.dmaTxDescToSet) ethDmaTxDescOwn
        resumeTx
        advanceTx
        return .code ethSuccess : EthProg EthResult).Returns fun r =>
      r.ret = if status &&& ethDmaTxDescOwn ≠ 0 then ethError else ethSuccess := by
  split
  · rfl
  · iterate 6
      refine Prog.returns_bind fun _ => ?_
    rfl

/-! ## The driver as a system -/

inductive EthCall where
  | handleTxPkt (ppkt : Nat → Byte) (frameLength : BitVec 16)
  | handleRxPkt
  | dropRxPkt
  | handlePtpTxPkt (ppkt : Nat → Byte) (frameLength : BitVec 16)
  | handlePtpRxPkt

def EthCall.body : EthCall → EthProg EthResult
  | handleTxPkt ppkt frameLength => ethHandleTxPkt ppkt frameLength
  | handleRxPkt => ethHandleRxPkt
  | dropRxPkt => ethDropRxPkt
  | handlePtpTxPkt ppkt frameLength => ethHandlePtpTxPkt ppkt frameLength
  | handlePtpRxPkt => ethHandlePtpRxPkt

/-- Whether a call finds OWN clear in the descriptor at its cursor: a free one to send from, or one in
    which something has arrived. -/
def EthCall.finds : EthCall → EthState → Bool
  | handleTxPkt _ _, s | handlePtpTxPkt _ _, s => decide (¬ (s.desc s.dmaTxDescToSet).Own)
  | handleRxPkt, s | dropRxPkt, s | handlePtpRxPkt, s => decide (¬ (s.desc s.dmaRxDescToGet).Own)

/-- The packet functions, called in any order, with the MAC at work all the time. -/
def ethSystem : System EthState EthCall EthResult := ⟨EthHw, EthCall.body⟩

/-- A moment of a run in which the note of each call says what the call found. -/
abbrev NotedConfig := Config EthState (EthCall × Bool) EthResult

/-- The finished calls of such a run. -/
abbrev NotedCalls := List ((EthCall × Bool) × EthResult)

end Eth
