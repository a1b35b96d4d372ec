import McuDrivers.Lwip.Output
import McuDrivers.Library.Run

set_option autoImplicit false

/-! # lwIP port: the packet functions and the size of a buffer

The buffer of a descriptor has `ETH_MAX_PACKET_SIZE` bytes. A transmit function stores as many bytes there
as its caller says, and a receive function takes the length that the DMA reports, less four for the CRC.
Neither looks at the length first. -/

namespace Lwip

open Eth Relation

/-! ## The calls, and what goes on beside them -/

/-- The functions of `at32f4xx_eth.c` and `ethernetif.c` that move a packet. -/
inductive PktCall where
  | handleTxPkt (ppkt : Nat → Byte) (frameLength : BitVec 16)
  | handlePtpTxPkt (ppkt : Nat → Byte) (frameLength : BitVec 16)
  | handleRxPkt
  | handlePtpRxPkt
  | rxPktChainMode

/-- Of the frame that `ETH_RxPkt_ChainMode` returns, the length is the result. -/
def PktCall.body : PktCall → EthProg EthResult
  | handleTxPkt ppkt frameLength => ethHandleTxPkt ppkt frameLength
  | handlePtpTxPkt ppkt frameLength => ethHandlePtpTxPkt ppkt frameLength
  | handleRxPkt => ethHandleRxPkt
  | handlePtpRxPkt => ethHandlePtpRxPkt
  | rxPktChainMode => do
      let frame ← ethRxPktChainMode
      return .code frame.length

/-- What may happen between two accesses: anything, but to the cursors and the records of the processor,
    to a free descriptor, and to the shadow of the current transmit descriptor while that is free. -/
structure HandsOff (s s' : EthState) : Prop where
  txCursor : s'.dmaTxDescToSet = s.dmaTxDescToSet
  rxCursor : s'.dmaRxDescToGet = s.dmaRxDescToGet
  ptpTxCursor : s'.dmaPtpTxDescToSet = s.dmaPtpTxDescToSet
  stored : s'.stored = s.stored
  loaded : s'.loaded = s.loaded
  free : ∀ a, ¬ (s.desc a).Own → s'.desc a = s.desc a
  shadow : ¬ (s.desc s.dmaTxDescToSet).Own →
    (s'.desc s.dmaPtpTxDescToSet).buffer1Addr = (s.desc s.dmaPtpTxDescToSet).buffer1Addr

/-- The steps of the MAC are of this kind, as its engines are not in the shadow tables. -/
theorem HandsOff.of_hw {s s' : EthState} (h : EthHw s s') (htx : s.dmaPtpTxDescToSet ≠ s.txCur)
    (hrx : s.dmaPtpTxDescToSet ≠ s.rxCur) : HandsOff s s' := by
  have hfree : ∀ a, ¬ (s.desc a).Own → s'.desc a = s.desc a := fun a => h.desc_free
  cases h with
  | send wb stamp hown =>
      refine ⟨rfl, rfl, rfl, rfl, rfl, hfree, fun _ => ?_⟩
      exact congrArg _ (Function.update_of_ne htx _ _)
  | txUnavailable hown => exact ⟨rfl, rfl, rfl, rfl, rfl, hfree, fun _ => rfl⟩
  | fill a stamp hown hawake hfits =>
      refine ⟨rfl, rfl, rfl, rfl, rfl, hfree, fun _ => ?_⟩
      exact congrArg _ (Function.update_of_ne hrx _ _)
  | rxUnavailable hown hawake => exact ⟨rfl, rfl, rfl, rfl, rfl, hfree, fun _ => rfl⟩

variable {s t : EthState} {r : EthResult} {own : Word}

/-! ## What a call moves -/

/-- A call stays within the buffer at `own`, and in reading, copying and reporting within a frame without
    its CRC. -/
structure Confined (own : Word) (s : EthState) (r : EthResult) (t : EthState) : Prop where
  written : ∀ a ∈ t.stored.drop s.stored.length, (a - own).toNat < ethMaxPacketSize
  read : t.loaded.length ≤ s.loaded.length + (ethMaxPacketSize - 4)
  copied : r.bytes.length ≤ ethMaxPacketSize - 4
  reported : r.ret.toNat ≤ ethMaxPacketSize - 4

/-- A call stores to the addresses `written`, and reads and copies no more than the `ret` that it returns. -/
structure Moved (written : List Word) (ret : Nat) (s : EthState) (r : EthResult) (t : EthState) :
    Prop where
  stored : t.stored = s.stored ++ written
  reported : r.ret.toNat = ret
  loaded : t.loaded.length ≤ s.loaded.length + ret
  copied : r.bytes.length ≤ ret

variable {written : List Word} {ret : Nat}

theorem Moved.stable (r : EthResult) : Prog.Stable HandsOff (Moved written ret s r) :=
  fun _ _ h hs => ⟨hs.stored.trans h.stored, h.reported, by rw [hs.loaded]; exact h.loaded, h.copied⟩

theorem Moved.confined_iff (h : Moved written ret s r t) : Confined own s r t ↔
    (∀ a ∈ written, (a - own).toNat < ethMaxPacketSize) ∧ ret ≤ ethMaxPacketSize - 4 := by
  have hdrop : t.stored.drop s.stored.length = written := by rw [h.stored, List.drop_left]
  constructor
  · intro hc
    exact ⟨hdrop ▸ hc.written, h.reported ▸ hc.reported⟩
  · rintro ⟨hin, hle⟩
    have hread := h.loaded
    have hcopied := h.copied
    exact ⟨hdrop.symm ▸ hin, by omega, by omega, h.reported.symm ▸ hle⟩

/-- The records are as they were at the beginning, but for `written` and for `loads` loads. -/
structure Noted (s : EthState) (written : List Word) (loads : Nat) (t : EthState) : Prop where
  stored : t.stored = s.stored ++ written
  loaded : t.loaded.length = s.loaded.length + loads

variable {loads : Nat}

theorem Noted.refl (s : EthState) : Noted s [] 0 s := ⟨(List.append_nil _).symm, rfl⟩

theorem Noted.stable : Prog.Stable HandsOff (Noted s written loads) :=
  fun _ _ h hs => ⟨hs.stored.trans h.stored, by rw [hs.loaded]; exact h.loaded⟩

/-- An access that touches no buffer. -/
def SameNotes (s s' : EthState) : Prop := s'.stored = s.stored ∧ s'.loaded = s.loaded

theorem SameNotes.pollRx (s : EthState) : SameNotes s s.pollRx := by
  obtain ⟨sleep, sts, heq⟩ := s.pollRx_eq
  rw [heq]
  exact ⟨rfl, rfl⟩

/-- The rest of a call that touches no buffer any more, and returns `ret` and no more than `ret` bytes. -/
theorem Noted.wp_rest {A : EthState → EthState → Prop} {u : EthState} {p : EthProg EthResult}
    (h : Noted s written loads u) (hp : p.Accesses SameNotes)
    (hret : p.Returns fun r => r.ret.toNat = ret ∧ r.bytes.length ≤ ret) (hloads : loads ≤ ret) :
    p.wp HandsOff A (fun _ _ => True) (Moved written ret s) u := by
  have hkeep : p.Accesses fun v v' => Noted s written loads v → Noted s written loads v' :=
    Prog.accesses_mono hp fun v v' hv hn => ⟨hv.1.trans hn.stored, by rw [hv.2]; exact hn.loaded⟩
  have hwp := Prog.wp_of_accesses (A := A) (G := fun _ _ => True) hkeep Noted.stable
    (fun _ _ _ _ => trivial) h
  refine Prog.wp_mono (Prog.wp_and_returns hwp hret) ?_
  rintro r t ⟨hn, hr, hbytes⟩
  refine ⟨hn.stored, hr, ?_, hbytes⟩
  rw [hn.loaded]
  exact Nat.add_le_add_left hloads _

/-! ## The test of OWN -/

/-- A call first loads a status word, and goes on with `p` or with `q` as OWN is set in it or not. -/
theorem moved_of_ownTest {ptr : EthState → Word} {p q : EthProg EthResult} {tr : List (EthState × EthState)}
    (h : Prog.Run HandsOff (do
      let status ← loadDesc ptr (·.status)
      if status &&& ethDmaTxDescOwn ≠ 0 then p else q) s tr r t)
    (hp : ∀ u, ReflTransGen HandsOff s u →
      p.wp HandsOff (fun _ _ => True) (fun _ _ => True) (Moved [] 0 s) u)
    (hq : ¬ (s.desc (ptr s)).Own → ∀ u, ReflTransGen HandsOff s u →
      q.wp HandsOff (fun _ _ => True) (fun _ _ => True) (Moved written ret s) u)
    {all : List Word} (hall : all = if (s.desc (ptr s)).Own then [] else written) :
    Moved all (if (s.desc (ptr s)).Own then 0 else ret) s r t := by
  subst hall
  obtain ⟨tr₁, status, u, tr₂, -, hload, hrest⟩ := Prog.run_bind.mp h
  obtain ⟨-, rfl, henv⟩ := Prog.run_get.mp hload
  by_cases hown : (s.desc (ptr s)).Own
  · rw [if_pos (show (s.desc (ptr s)).status &&& ethDmaTxDescOwn ≠ 0 from hown)] at hrest
    rw [if_pos hown, if_pos hown]
    exact hrest.of_wp Moved.stable (hp u henv)
  · rw [if_neg (show ¬ (s.desc (ptr s)).status &&& ethDmaTxDescOwn ≠ 0 from hown)] at hrest
    rw [if_neg hown, if_neg hown]
    exact hrest.of_wp Moved.stable (hq hown u henv)

/-- A call that finds OWN set returns at once. -/
theorem wp_taken {A : EthState → EthState → Prop} {u : EthState} (henv : ReflTransGen HandsOff s u) :
    (pure (.code ethError) : EthProg EthResult).wp HandsOff A (fun _ _ => True) (Moved [] 0 s) u :=
  (Noted.stable.star (Noted.refl s) henv).wp_rest trivial ⟨rfl, Nat.le_refl _⟩ (Nat.le_refl _)

/-! ## Sending -/

/-- The two pointers whose `Buffer1Addr` is the buffer to fill. -/
inductive TxPointer : (EthState → Word) → Prop where
  | plain : TxPointer (·.dmaTxDescToSet)
  | shadow : TxPointer (·.dmaPtpTxDescToSet)

/-- The current transmit descriptor is free, and `offset` bytes of its buffer, which is at `addr`, have
    been stored. -/
structure TxFilling (ptr : EthState → Word) (s₀ : EthState) (addr : Word) (offset : Nat) (s : EthState) :
    Prop where
  free : ¬ (s.desc s.dmaTxDescToSet).Own
  buffer : (s.desc (ptr s)).buffer1Addr = addr
  noted : Noted s₀ (byteAddrs addr offset) 0 s

section Sending

variable {A : EthState → EthState → Prop} {ptr : EthState → Word} {s₀ : EthState} {addr : Word}
  {offset : Nat} {ppkt : Nat → Byte} {frameLength : BitVec 16}

theorem TxPointer.handsOff {s' : EthState} (hptr : TxPointer ptr) (hs : HandsOff s s')
    (hfree : ¬ (s.desc s.dmaTxDescToSet).Own) :
    (s'.desc (ptr s')).buffer1Addr = (s.desc (ptr s)).buffer1Addr := by
  cases hptr with
  | plain =>
      show (s'.desc s'.dmaTxDescToSet).buffer1Addr = _
      rw [hs.txCursor, hs.free _ hfree]
  | shadow =>
      show (s'.desc s'.dmaPtpTxDescToSet).buffer1Addr = _
      rw [hs.ptpTxCursor, hs.shadow hfree]

theorem TxPointer.putByte (hptr : TxPointer ptr) (s : EthState) (a : Word) (b : Byte) :
    ptr (s.putByte a b) = ptr s := by
  cases hptr <;> rfl

theorem TxFilling.stable (hptr : TxPointer ptr) : Prog.Stable HandsOff (TxFilling ptr s₀ addr offset) := by
  intro s s' h hs
  -- a free descriptor stays free, so that the address is the same in every round of the copy
  refine ⟨?_, (hptr.handsOff hs h.free).trans h.buffer, Noted.stable s s' h.noted hs⟩
  rw [hs.txCursor, hs.free _ h.free]
  exact h.free

theorem TxFilling.putByte (hptr : TxPointer ptr) (h : TxFilling ptr s₀ addr offset s) (b : Byte) :
    TxFilling ptr s₀ addr (offset + 1) (s.putByte (addr + BitVec.ofNat 32 offset) b) := by
  refine ⟨h.free, ?_, ?_, h.noted.loaded⟩
  · rw [hptr.putByte]
    exact h.buffer
  · rw [byteAddrs_succ, ← List.append_assoc, ← h.noted.stored]
    rfl

theorem TxFilling.wp_copyToBuffer (hptr : TxPointer ptr) (left : Nat)
    (h : TxFilling ptr s₀ addr offset s) :
    (copyToBuffer ptr ppkt left offset).wp HandsOff A (fun _ _ => True)
      (fun _ => TxFilling ptr s₀ addr (offset + left)) s := by
  induction left generalizing offset s with
  | zero => exact h
  | succ left ih =>
      rw [copyToBuffer, Prog.wp_bind]
      refine wp_loadDesc (TxFilling.stable hptr) h fun s h => ⟨trivial, ?_⟩
      rw [h.buffer, Prog.wp_bind]
      refine Prog.wp_put (TxFilling.stable hptr) h fun s h _ => ⟨trivial, ?_⟩
      have hsum : offset + (left + 1) = offset + 1 + left := by omega
      rw [hsum]
      exact ih (h.putByte hptr _)

theorem TxFilling.open (hptr : TxPointer ptr) (hfree : ¬ (s.desc s.dmaTxDescToSet).Own) {u : EthState}
    (henv : ReflTransGen HandsOff s u) : TxFilling ptr s (s.desc (ptr s)).buffer1Addr 0 u :=
  (TxFilling.stable hptr).star ⟨hfree, rfl, Noted.refl s⟩ henv

/-- What a transmit call with `len` bytes stores through `ptr`. -/
def txWritten (ptr : EthState → Word) (len : Nat) (s : EthState) : List Word :=
  if (s.desc s.dmaTxDescToSet).Own then [] else byteAddrs (s.desc (ptr s)).buffer1Addr len

def txReturned (s : EthState) : Nat := if (s.desc s.dmaTxDescToSet).Own then 0 else 1

theorem ethHandleTxPkt_moved {tr : List (EthState × EthState)}
    (h : Prog.Run HandsOff (ethHandleTxPkt ppkt frameLength) s tr r t) :
    Moved (txWritten (·.dmaTxDescToSet) frameLength.toNat s) (txReturned s) s r t := by
  refine moved_of_ownTest h (fun u henv => wp_taken henv) (fun hfree u henv => ?_) rfl
  refine Prog.wp_seq ((TxFilling.open .plain hfree henv).wp_copyToBuffer .plain _) ?_
  intro _ v hv
  rw [Nat.zero_add] at hv
  have hread : ∀ s, SameNotes s s := fun _ => ⟨rfl, rfl⟩
  refine hv.noted.wp_rest ?_ ?_ (Nat.zero_le _)
  · refine giveTx_accesses hread (fun _ => ⟨rfl, rfl⟩) (fun _ _ => ⟨rfl, rfl⟩) (fun _ _ => ⟨rfl, rfl⟩) ?_
    exact Prog.accesses_bind (advanceTx_accesses hread fun _ _ => ⟨rfl, rfl⟩) fun _ => trivial
  · iterate 5
      refine Prog.returns_bind fun _ => ?_
    exact ⟨rfl, Nat.zero_le _⟩

theorem ethHandlePtpTxPkt_moved {tr : List (EthState × EthState)}
    (h : Prog.Run HandsOff (ethHandlePtpTxPkt ppkt frameLength) s tr r t) :
    Moved (txWritten (·.dmaPtpTxDescToSet) frameLength.toNat s) (txReturned s) s r t := by
  refine moved_of_ownTest h (fun u henv => wp_taken henv) (fun hfree u henv => ?_) rfl
  refine Prog.wp_seq ((TxFilling.open .shadow hfree henv).wp_copyToBuffer .shadow _) ?_
  intro _ v hv
  rw [Nat.zero_add] at hv
  have hread : ∀ s, SameNotes s s := fun _ => ⟨rfl, rfl⟩
  refine hv.noted.wp_rest ?_ ?_ (Nat.zero_le _)
  · refine giveTx_accesses hread (fun _ => ⟨rfl, rfl⟩) (fun _ _ => ⟨rfl, rfl⟩) (fun _ _ => ⟨rfl, rfl⟩) ?_
    refine Prog.accesses_bind (waitTtss_accesses hread _ _) fun timeout => ?_
    split
    · trivial
    · refine Prog.accesses_bind (andStatus_accesses hread fun _ _ => ⟨rfl, rfl⟩) fun _ => ?_
      refine Prog.accesses_bind (loadStamp_accesses hread _) fun _ => ?_
      exact Prog.accesses_bind (advancePtpTx_accesses hread (fun _ _ => ⟨rfl, rfl⟩)
        fun _ _ => ⟨rfl, rfl⟩) fun _ => trivial
  · iterate 4
      refine Prog.returns_bind fun _ => ?_
    -- the count does not come to the limit that it is compared with
    refine Prog.returns_seq (waitTtss_returns 0xFFFF 0) fun timeout hle => ?_
    have hbound : timeout ≠ phyReadTo := by
      unfold phyReadTo
      omega
    rw [if_neg hbound]
    iterate 3
      refine Prog.returns_bind fun _ => ?_
    exact ⟨rfl, Nat.zero_le _⟩

end Sending

/-! ## Receiving -/

/-- The length that a receive function works with, and returns. -/
def rxLength (status : Word) : Word :=
  if RxGood status then rxFrameLength status - 4 else ethError

/-- The current receive descriptor is free, with the status word `status`. -/
structure RxHolding (status : Word) (s₀ : EthState) (loads : Nat) (s : EthState) : Prop where
  free : ¬ (s.desc s.dmaRxDescToGet).Own
  status : (s.desc s.dmaRxDescToGet).status = status
  noted : Noted s₀ [] loads s

section Receiving

variable {A : EthState → EthState → Prop} {s₀ : EthState} {status : Word} {tr : List (EthState × EthState)}

theorem RxHolding.stable : Prog.Stable HandsOff (RxHolding status s₀ loads) := by
  intro s s' h hs
  have hdesc : s'.desc s'.dmaRxDescToGet = s.desc s.dmaRxDescToGet := by
    rw [hs.rxCursor, hs.free _ h.free]
  exact ⟨hdesc ▸ h.free, hdesc ▸ h.status, Noted.stable s s' h.noted hs⟩

theorem RxHolding.open (hfree : ¬ (s.desc s.dmaRxDescToGet).Own) {u : EthState}
    (henv : ReflTransGen HandsOff s u) : RxHolding (s.desc s.dmaRxDescToGet).status s 0 u :=
  RxHolding.stable.star ⟨hfree, rfl, Noted.refl s⟩ henv

/-- The tests of a good frame. -/
theorem RxHolding.wp_rxGoodTest (h : RxHolding status s₀ loads s) :
    rxGoodTest.wp HandsOff A (fun _ _ => True)
      (fun good s => good = decide (RxGood status) ∧ RxHolding status s₀ loads s) s :=
  Eth.wp_rxGoodTest RxHolding.stable (fun _ h => h.status) (fun _ => trivial) h

/-- The copy loop loads every byte once. -/
theorem Noted.wp_copyFromBuffer {ptr : EthState → Word} (left offset : Nat) (h : Noted s₀ [] loads s) :
    (copyFromBuffer ptr left offset).wp HandsOff A (fun _ _ => True)
      (fun bytes s => bytes.length = left ∧ Noted s₀ [] (loads + left) s) s := by
  induction left generalizing loads offset s with
  | zero => exact ⟨rfl, h⟩
  | succ left ih =>
      rw [copyFromBuffer, Prog.wp_bind]
      refine wp_loadDesc Noted.stable h fun s h => ⟨trivial, ?_⟩
      rw [Prog.wp_bind]
      refine wp_loadByte Noted.stable h fun s h _ => ⟨trivial, ?_⟩
      have hnoted : ∀ a, Noted s₀ [] (loads + 1) (s.noteLoad a) := fun a =>
        ⟨h.stored, by simp [EthState.noteLoad, h.loaded, Nat.add_assoc]⟩
      refine Prog.wp_seq (ih (offset + 1) (hnoted _)) ?_
      rintro rest s ⟨hlen, h⟩
      have hsum : loads + (left + 1) = loads + 1 + left := by omega
      exact ⟨congrArg (· + 1) hlen, hsum ▸ h⟩

theorem RxHolding.wp_rxFrame {ptr : EthState → Word} (h : RxHolding status s₀ 0 s) :
    (rxFrame ptr).wp HandsOff A (fun _ _ => True) (fun frame s =>
      frame.1 = rxLength status ∧ frame.2.length = (rxLength status).toNat ∧
        Noted s₀ [] (rxLength status).toNat s) s := by
  refine Prog.wp_seq h.wp_rxGoodTest ?_
  rintro good s ⟨rfl, h⟩
  by_cases hgood : RxGood status
  · rw [if_pos (decide_eq_true hgood), rxLength, if_pos hgood, copyFrame, Prog.wp_bind]
    refine wp_loadDesc RxHolding.stable h fun s h => ⟨trivial, ?_⟩
    rw [h.status]
    refine Prog.wp_seq (h.noted.wp_copyFromBuffer _ 0) ?_
    rintro bytes s ⟨hlen, hn⟩
    rw [Nat.zero_add] at hn
    exact ⟨rfl, hlen, hn⟩
  · rw [if_neg (by simpa using hgood), rxLength, if_neg hgood]
    exact ⟨rfl, rfl, h.noted⟩

/-- The same tests and the same length, without the copy. -/
theorem RxHolding.wp_frameBuffer (h : RxHolding status s₀ 0 s) :
    frameBuffer.wp HandsOff A (fun _ _ => True)
      (fun frame s => frame.1 = rxLength status ∧ Noted s₀ [] 0 s) s := by
  refine Prog.wp_seq h.wp_rxGoodTest ?_
  rintro good s ⟨rfl, h⟩
  by_cases hgood : RxGood status
  · rw [if_pos (decide_eq_true hgood), rxLength, if_pos hgood, Prog.wp_bind]
    refine wp_loadDesc RxHolding.stable h fun s h => ⟨trivial, ?_⟩
    rw [h.status, Prog.wp_bind]
    exact wp_loadDesc RxHolding.stable h fun s h => ⟨trivial, rfl, h.noted⟩
  · rw [if_neg (by simpa using hgood), rxLength, if_neg hgood]
    exact ⟨rfl, h.noted⟩

def rxReturned (s : EthState) : Nat :=
  if (s.desc s.dmaRxDescToGet).Own then 0 else (rxLength (s.desc s.dmaRxDescToGet).status).toNat

theorem ethHandleRxPkt_moved (h : Prog.Run HandsOff ethHandleRxPkt s tr r t) :
    Moved [] (rxReturned s) s r t := by
  refine moved_of_ownTest h (fun u henv => wp_taken henv) (fun hfree u henv => ?_) (ite_self _).symm
  refine Prog.wp_seq (RxHolding.open hfree henv).wp_rxFrame ?_
  rintro frame v ⟨hret, hlen, hn⟩
  have hread : ∀ s, SameNotes s s := fun _ => ⟨rfl, rfl⟩
  refine hn.wp_rest ?_ ?_ (Nat.le_refl _)
  · refine Prog.accesses_bind (storeStatus_accesses _ fun _ _ => ⟨rfl, rfl⟩) fun _ => ?_
    refine Prog.accesses_bind (resumeRx_accesses hread (fun _ _ => ⟨rfl, rfl⟩) .pollRx) fun _ => ?_
    exact Prog.accesses_bind (advanceRx_accesses hread fun _ _ => ⟨rfl, rfl⟩) fun _ => trivial
  · iterate 3
      refine Prog.returns_bind fun _ => ?_
    exact ⟨congrArg BitVec.toNat hret, Nat.le_of_eq hlen⟩

theorem ethHandlePtpRxPkt_moved (h : Prog.Run HandsOff ethHandlePtpRxPkt s tr r t) :
    Moved [] (rxReturned s) s r t := by
  refine moved_of_ownTest h (fun u henv => wp_taken henv) (fun hfree u henv => ?_) (ite_self _).symm
  refine Prog.wp_seq (RxHolding.open hfree henv).wp_rxFrame ?_
  rintro frame v ⟨hret, hlen, hn⟩
  have hread : ∀ s, SameNotes s s := fun _ => ⟨rfl, rfl⟩
  refine hn.wp_rest ?_ ?_ (Nat.le_refl _)
  · refine Prog.accesses_bind (resumeRx_accesses hread (fun _ _ => ⟨rfl, rfl⟩) .pollRx) fun _ => ?_
    refine Prog.accesses_bind (loadStamp_accesses hread _) fun _ => ?_
    refine Prog.accesses_bind (orStatus_accesses hread fun _ _ => ⟨rfl, rfl⟩) fun _ => ?_
    exact Prog.accesses_bind (advancePtpRx_accesses hread (fun _ _ => ⟨rfl, rfl⟩)
      fun _ _ => ⟨rfl, rfl⟩) fun _ => trivial
  · iterate 4
      refine Prog.returns_bind fun _ => ?_
    exact ⟨congrArg BitVec.toNat hret, Nat.le_of_eq hlen⟩

theorem rxPktChainMode_eq : PktCall.rxPktChainMode.body = (do
    let status ← loadDesc (·.dmaRxDescToGet) (·.status)
    if status &&& ethDmaRxDescOwn ≠ 0 then do
      resumeRx
      return .code ethError
    else do
      let frame ← frameBuffer
      let _ ← Prog.get (·.dmaRxDescToGet)
      setRxCursor fun s => (s.desc s.dmaRxDescToGet).buffer2NextDescAddr
      return .code frame.1) := by
  simp only [PktCall.body, ethRxPktChainMode, Prog.bind_assoc]
  congr 1
  funext status
  split
  · simp only [Prog.bind_assoc]
    rfl
  · simp only [Prog.bind_assoc]
    rfl

theorem rxPktChainMode_moved (h : Prog.Run HandsOff PktCall.rxPktChainMode.body s tr r t) :
    Moved [] (rxReturned s) s r t := by
  rw [rxPktChainMode_eq] at h
  have hread : ∀ s, SameNotes s s := fun _ => ⟨rfl, rfl⟩
  refine moved_of_ownTest h (fun u henv => ?_) (fun hfree u henv => ?_) (ite_self _).symm
  · refine (Noted.stable.star (Noted.refl s) henv).wp_rest ?_ ?_ (Nat.le_refl _)
    · exact Prog.accesses_bind (resumeRx_accesses hread (fun _ _ => ⟨rfl, rfl⟩) .pollRx) fun _ => trivial
    · exact Prog.returns_bind fun _ => ⟨rfl, Nat.le_refl _⟩
  · refine Prog.wp_seq (RxHolding.open hfree henv).wp_frameBuffer ?_
    rintro frame v ⟨hret, hn⟩
    refine hn.wp_rest ?_ ?_ (Nat.zero_le _)
    · refine Prog.accesses_bind ((Prog.accesses_get _ _).mpr hread) fun _ => ?_
      exact Prog.accesses_bind ((Prog.accesses_put _ _).mpr fun _ => ⟨rfl, rfl⟩) fun _ => trivial
    · iterate 2
        refine Prog.returns_bind fun _ => ?_
      exact ⟨congrArg BitVec.toNat hret, Nat.zero_le _⟩

end Receiving

/-! ## Confinement -/

/-- `len` bytes from `addr` on are in the buffer at `own`. -/
def FrameFits (own addr : Word) (len : Nat) : Prop :=
  len = 0 ∨ (addr - own).toNat + len ≤ ethMaxPacketSize

/-- A reported frame has a CRC. -/
def CrcReported (status : Word) : Prop := RxGood status → 4 ≤ (rxFrameLength status).toNat

/-- Of a frame that begins and ends in one descriptor, the DMA reports a length that its buffer can have. -/
def LengthReported (status : Word) : Prop :=
  status &&& ethDmaRxDescFs ≠ 0 → status &&& ethDmaRxDescLs ≠ 0 →
    (rxFrameLength status).toNat ≤ ethMaxPacketSize

instance (status : Word) : Decidable (CrcReported status) := inferInstanceAs (Decidable (_ → _))

instance (status : Word) : Decidable (LengthReported status) := inferInstanceAs (Decidable (_ → _ → _))

/-- What is assumed of the DMA when a call begins. -/
def PktCall.Reported (s : EthState) : PktCall → Prop
  | handleTxPkt _ _ => True
  | handlePtpTxPkt _ _ => True
  | handleRxPkt => LengthReported (s.desc s.dmaRxDescToGet).status
  | handlePtpRxPkt => LengthReported (s.desc s.dmaRxDescToGet).status
  | rxPktChainMode => LengthReported (s.desc s.dmaRxDescToGet).status

/-- The length that a call finds suits the buffer at `own`, unless it finds OWN set. -/
def PktCall.Fits (own : Word) (s : EthState) : PktCall → Prop
  | handleTxPkt _ frameLength => ¬ (s.desc s.dmaTxDescToSet).Own →
      FrameFits own (s.desc s.dmaTxDescToSet).buffer1Addr frameLength.toNat
  | handlePtpTxPkt _ frameLength => ¬ (s.desc s.dmaTxDescToSet).Own →
      FrameFits own (s.desc s.dmaPtpTxDescToSet).buffer1Addr frameLength.toNat
  | handleRxPkt => ¬ (s.desc s.dmaRxDescToGet).Own → CrcReported (s.desc s.dmaRxDescToGet).status
  | handlePtpRxPkt => ¬ (s.desc s.dmaRxDescToGet).Own → CrcReported (s.desc s.dmaRxDescToGet).status
  | rxPktChainMode => ¬ (s.desc s.dmaRxDescToGet).Own → CrcReported (s.desc s.dmaRxDescToGet).status

/-- Four off the length of a frame without a CRC is a huge length. -/
theorem rxLength_le_iff {status : Word} (h : LengthReported status) :
    (rxLength status).toNat ≤ ethMaxPacketSize - 4 ↔ CrcReported status := by
  by_cases hgood : RxGood status
  · have hle := h hgood.2.2 hgood.2.1
    have hsub : (rxFrameLength status - 4).toNat = (2 ^ 32 - 4 + (rxFrameLength status).toNat) % 2 ^ 32 :=
      BitVec.toNat_sub _ _
    rw [rxLength, if_pos hgood, hsub, CrcReported]
    unfold ethMaxPacketSize at hle ⊢
    constructor
    · -- below 4 the difference is `2 ^ 32 - 4` or more
      intro hret _
      omega
    · intro hcrc
      have := hcrc hgood
      omega
  · rw [rxLength, if_neg hgood]
    exact ⟨fun _ hgood' => absurd hgood' hgood, fun _ => Nat.zero_le _⟩

/-- What is sent stays in the buffer exactly if it fits. -/
theorem txWritten_confined_iff (ptr : EthState → Word) (frameLength : BitVec 16) :
    ((∀ a ∈ txWritten ptr frameLength.toNat s, (a - own).toNat < ethMaxPacketSize) ∧
      txReturned s ≤ ethMaxPacketSize - 4) ↔
    (¬ (s.desc s.dmaTxDescToSet).Own → FrameFits own (s.desc (ptr s)).buffer1Addr frameLength.toNat) := by
  have hlt := frameLength.isLt
  unfold txWritten txReturned
  split
  case isTrue hown => simp [hown]
  case isFalse hfree =>
    rw [byteAddrs_within (by unfold ethMaxPacketSize; omega)]
    simp [hfree, FrameFits, ethMaxPacketSize]

/-- What is received stays within a frame exactly if there is a CRC. -/
theorem rxReturned_confined_iff (h : LengthReported (s.desc s.dmaRxDescToGet).status) :
    ((∀ a ∈ ([] : List Word), (a - own).toNat < ethMaxPacketSize) ∧
      rxReturned s ≤ ethMaxPacketSize - 4) ↔
    (¬ (s.desc s.dmaRxDescToGet).Own → CrcReported (s.desc s.dmaRxDescToGet).status) := by
  unfold rxReturned
  split
  case isTrue hown => simp [hown]
  case isFalse hfree => simp [hfree, rxLength_le_iff h]

/-- **A call is confined if and only if it finds OWN set, or a length that suits the buffer**: at most its
    size to send, at least a CRC received. -/
theorem packet_confined_iff {c : PktCall} {tr : List (EthState × EthState)} (hreported : c.Reported s)
    (h : Prog.Run HandsOff c.body s tr r t) : Confined own s r t ↔ c.Fits own s := by
  cases c with
  | handleTxPkt ppkt frameLength =>
      exact (ethHandleTxPkt_moved h).confined_iff.trans (txWritten_confined_iff _ _)
  | handlePtpTxPkt ppkt frameLength =>
      exact (ethHandlePtpTxPkt_moved h).confined_iff.trans (txWritten_confined_iff _ _)
  | handleRxPkt =>
      exact (ethHandleRxPkt_moved h).confined_iff.trans (rxReturned_confined_iff hreported)
  | handlePtpRxPkt =>
      exact (ethHandlePtpRxPkt_moved h).confined_iff.trans (rxReturned_confined_iff hreported)
  | rxPktChainMode =>
      exact (rxPktChainMode_moved h).confined_iff.trans (rxReturned_confined_iff hreported)

/-- The MAC has stored a frame of one byte and a CRC into the first receive descriptor. -/
def arrivedStart : EthState := zeroStart.rxFill goodArrival (0, 0)

/-- One byte is read, copied and reported. -/
theorem confined_one_byte :
    Confined 0x20000060 arrivedStart (PktCall.handleRxPkt.body.exec arrivedStart).1
      (PktCall.handleRxPkt.body.exec arrivedStart).2 := by
  have hreported : LengthReported (arrivedStart.desc arrivedStart.dmaRxDescToGet).status := by decide
  have hcrc : CrcReported (arrivedStart.desc arrivedStart.dmaRxDescToGet).status := by decide
  exact (packet_confined_iff (c := PktCall.handleRxPkt) hreported (Prog.run_exec _ _)).mpr fun _ => hcrc

/-- A good frame of three bytes, which is shorter than a CRC. -/
def runtStart : EthState :=
  zeroStart.setDesc zeroStart.dmaRxDescToGet fun d => { d with status := 0x00030300 }

/-- One byte more than the buffer has is stored behind it, and three bytes received are reported as
    4294967295. -/
theorem confined_fails :
    (¬ ∀ (ppkt : Nat → Byte) (frameLength : BitVec 16) (s t : EthState)
      (tr : List (EthState × EthState)) (r : EthResult),
      Prog.Run HandsOff (ethHandleTxPkt ppkt frameLength) s tr r t →
        Confined (s.desc s.dmaTxDescToSet).buffer1Addr s r t) ∧
    ¬ ∀ (s t : EthState) (tr : List (EthState × EthState)) (r : EthResult),
      LengthReported (s.desc s.dmaRxDescToGet).status → Prog.Run HandsOff ethHandleRxPkt s tr r t →
        Confined (s.desc s.dmaTxDescToSet).buffer1Addr s r t := by
  constructor
  · intro h
    have hrun : Prog.Run HandsOff (ethHandleTxPkt (fun _ => 0) 1521) zeroStart _ _ _ :=
      Prog.run_exec _ _
    have hfits := (txWritten_confined_iff _ _).mp
      ((ethHandleTxPkt_moved hrun).confined_iff.mp (h _ _ _ _ _ _ hrun)) (by decide)
    rcases hfits with hzero | hle
    · exact absurd hzero (by decide)
    · exact absurd hle (by decide)
  · intro h
    have hlen : LengthReported (runtStart.desc runtStart.dmaRxDescToGet).status := by decide
    have hrun : Prog.Run HandsOff ethHandleRxPkt runtStart _ _ _ := Prog.run_exec _ _
    have hcrc := (rxReturned_confined_iff hlen).mp
      ((ethHandleRxPkt_moved hrun).confined_iff.mp (h _ _ _ _ hlen hrun)) (by decide)
    exact absurd hcrc (by decide)

end Lwip
