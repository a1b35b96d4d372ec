import McuDrivers.Eth.ChainRx
import McuDrivers.Eth.ChainTx
import McuDrivers.Eth.Init

set_option autoImplicit false

/-! # Ethernet: the chains are queues

After `ETH_DMATxDescChainInit` and `ETH_DMARxDescChainInit` both tables are empty queues, whatever
the memory held before. From there the calls `ETH_HandleTxPkt` and `ETH_HandleRxPkt` are the queue
operations, in every run, against an engine that consumes the one and fills the other. Only of a good
frame that is nothing but its CRC `ETH_HandleRxPkt` does not say that it came: the length it returns is
0, which is `ETH_ERROR`. -/

namespace Eth

variable {n m : Nat}

/-! ## Initialisation -/

/-- Both tables, initialised in chain mode. -/
def chainInit (L : Layout n m) (s : EthState) : EthState :=
  dmaRxDescChainInit L.rx.base L.rxBuf.base m (dmaTxDescChainInit L.tx.base L.txBuf.base n s)

/-- The start of a run: anything in memory and registers, then the initialisation. Time stamping is
    off in the MAC, as it is after reset. -/
def chainStart (L : Layout n m) (desc : Word → EthDmaDesc) (ram : Word → Byte)
    (dmaSts dmaBm : Word) : EthState :=
  chainInit L (EthState.boot desc ram dmaSts dmaBm false)

/-- What the two initialisations leave, of any prior state. -/
theorem chainInit_spec (L : Layout n m) (s : EthState) :
    ∃ D, chainInit L s =
        { s with
          desc := D
          dmaTxDescToSet := L.tx.base, dmaTdlAddr := L.tx.base, txCur := L.tx.base
          dmaRxDescToGet := L.rx.base, dmaRdlAddr := L.rx.base, rxCur := L.rx.base } ∧
      (∀ i, i < n → TxWired L i (D (L.tx.slot i)) ∧ ¬ (D (L.tx.slot i)).Own) ∧
      ∀ i, i < m → RxWired L i (D (L.rx.slot i)) ∧ (D (L.rx.slot i)).Own := by
  obtain ⟨T, hT, hTin, -⟩ := dmaTxDescChainInit_spec L.tx L.txBuf.base s
  obtain ⟨R, hR, hRin, hRout⟩ := dmaRxDescChainInit_spec L.rx L.rxBuf.base
    { s with desc := T, dmaTxDescToSet := L.tx.base, dmaTdlAddr := L.tx.base, txCur := L.tx.base }
  refine ⟨R, ?_, fun i hi => ?_, fun i hi => ?_⟩
  · rw [chainInit, hT, hR]
  · have hkeep : R (L.tx.slot i) = T (L.tx.slot i) := hRout _ fun j hj => L.tx_ne_rx hi hj
    have htch : ethDmaTxDescTch &&& ethDmaTxDescTch ≠ 0 := by decide
    have hter : ethDmaTxDescTch &&& ethDmaTxDescTer = 0 := by decide
    have hfree : ¬ ethDmaTxDescTch &&& ethDmaTxDescOwn ≠ 0 := by decide
    rw [hkeep, hTin i hi]
    exact ⟨⟨htch, hter, rfl, rfl⟩, hfree⟩
  · have hrch : (ethDmaRxDescRch ||| BitVec.ofNat 32 ethMaxPacketSize) &&& ethDmaRxDescRch ≠ 0 := by
      decide
    have hrer : (ethDmaRxDescRch ||| BitVec.ofNat 32 ethMaxPacketSize) &&& ethDmaRxDescRer = 0 := by
      decide
    have hsize : ((ethDmaRxDescRch ||| BitVec.ofNat 32 ethMaxPacketSize) &&&
        ethDmaRxDescRbs1).toNat = ethMaxPacketSize := by decide
    have hown : ethDmaRxDescOwn &&& ethDmaTxDescOwn ≠ 0 := by decide
    rw [hRin i hi]
    exact ⟨⟨hrch, hrer, hsize, rfl, rfl⟩, hown⟩

section Start

variable (L : Layout n m) (desc : Word → EthDmaDesc) (ram : Word → Byte) (dmaSts dmaBm : Word)

theorem chainStart_wired : Wired L (chainStart L desc ram dmaSts dmaBm) := by
  obtain ⟨D, heq, htx, hrx⟩ := chainInit_spec L (EthState.boot desc ram dmaSts dmaBm false)
  rw [chainStart, heq]
  refine ⟨fun i hi => (htx i hi).1, fun i hi => (hrx i hi).1, ?_, ?_, ?_, ?_, rfl⟩
  all_goals exact (by simp [EthState.boot])

theorem chainStart_txRing : TxRing L [] 0 (chainStart L desc ram dmaSts dmaBm) := by
  have hw := chainStart_wired L desc ram dmaSts dmaBm
  obtain ⟨D, heq, htx, hrx⟩ := chainInit_spec L (EthState.boot desc ram dmaSts dmaBm false)
  rw [chainStart, heq] at hw ⊢
  exact ⟨hw, rfl, Ring.Holds.empty fun i hi => (htx i hi).2, List.prefix_refl _⟩

theorem chainStart_rxRing : RxRing L [] 0 (chainStart L desc ram dmaSts dmaBm) := by
  have hw := chainStart_wired L desc ram dmaSts dmaBm
  obtain ⟨D, heq, htx, hrx⟩ := chainInit_spec L (EthState.boot desc ram dmaSts dmaBm false)
  rw [chainStart, heq] at hw ⊢
  exact ⟨hw, rfl, Ring.Holds.empty fun i hi => (hrx i hi).2, List.prefix_refl _⟩

end Start

/-! ## Runs

What a receive call returns does not tell whether anything had arrived, so the runs are noted: the note
of a call says whether it found OWN clear at its cursor. -/

/-- The calls of the chain-mode driver: packets that fit a buffer, and receptions. -/
def chainCalls : Discipline EthState EthCall :=
  .onEntry fun k _ => match k with
    | .handleTxPkt _ frameLength => frameLength.toNat ≤ ethMaxPacketSize
    | .handleRxPkt => True
    | _ => False

/-- The noted runs from `s₀`. -/
abbrev ChainReach (s₀ : EthState) (c : NotedConfig) : Prop :=
  (ethSystem.noting Bool).Reach (chainCalls.noting EthCall.finds) (.start s₀) c

/-- The frames accepted by the calls so far, in call order. -/
def txAccepted (done : NotedCalls) : List (List Byte) :=
  done.flatMap fun kr => match kr.1.1 with
    | .handleTxPkt ppkt frameLength => txEnqueued ppkt frameLength kr.2
    | _ => []

/-- What the receive calls that found something have returned, in call order. -/
def rxTaken (done : NotedCalls) : List EthResult :=
  done.flatMap fun kr => match kr.1 with
    | (.handleRxPkt, true) => [kr.2]
    | _ => []

/-- The frames returned by the calls so far, in call order: `ETH_HandleRxPkt` has returned a frame
    when it has not returned 0. -/
def rxReturned (done : NotedCalls) : List (List Byte) :=
  done.flatMap fun kr => match kr.1.1 with
    | .handleRxPkt => if kr.2.ret ≠ 0 then [kr.2.bytes] else []
    | _ => []

/-- The good frames among what arrived. One of no bytes but its CRC is left out: it cannot be told
    from an error, as its length is `ETH_ERROR`. -/
def goodFrames (arrived : List Arrival) : List (List Byte) :=
  (arrived.filterMap Arrival.payload).filter fun bytes => bytes ≠ []

/-- What a single access of a call can be. -/
def ChainAccess (L : Layout n m) : EthCall → EthState → EthState → Prop
  | .handleTxPkt _ _ => TxAccess L
  | .handleRxPkt => RxAccess L
  | _ => fun _ _ => False

/-- What the receive calls so far have returned of the arrivals `past`. -/
structure RxReturns (done : NotedCalls) (past : List Arrival) : Prop where
  /-- a call that finds something returns the next arrival -/
  taken : rxTaken done = past.map fun a => rxResult a none
  /-- one that finds nothing returns an error -/
  refused : ∀ r, ((.handleRxPkt, false), r) ∈ done → r = .code ethError
  frames : rxReturned done = goodFrames past
  /-- the value returned is the length -/
  lengths : ∀ note r, ((.handleRxPkt, note), r) ∈ done → r.ret.toNat = r.bytes.length

/-- What holds between calls. -/
structure ChainIdle (L : Layout n m) (done : NotedCalls) (s : EthState) : Prop where
  tx : TxRing L (txAccepted done) (txAccepted done).length s
  rx : ∃ past, RxRing L past past.length s ∧ RxReturns done past

variable {L : Layout n m}

/-- The result for one arrival says what the arrival was. -/
theorem rxResult_returned (a : Arrival) :
    (if (rxResult a none).ret ≠ 0 then [(rxResult a none).bytes] else []) = goodFrames [a] ∧
      (rxResult a none).ret.toNat = (rxResult a none).bytes.length := by
  by_cases hgood : RxGood a.status
  · have hlen := a.rxFrameLength_sub hgood
    have hbytes : (a.bytes.take (a.bytes.length - 4)).length = a.bytes.length - 4 := by simp
    have hpay : goodFrames [a] = [a.bytes.take (a.bytes.length - 4)].filter fun b => b ≠ [] := by
      simp [goodFrames, Arrival.payload, hgood]
    rw [hpay, rxResult, if_pos hgood]
    refine ⟨?_, by rw [hlen, hbytes]⟩
    by_cases hempty : a.bytes.length - 4 = 0
    · rw [if_neg (not_not_intro (BitVec.eq_of_toNat_eq (by rw [hlen, hempty]; rfl)))]
      simp [hempty]
    · have hret : rxFrameLength a.status - 4 ≠ 0 := by
        intro h
        rw [h] at hlen
        exact hempty hlen.symm
      have hne : a.bytes.take (a.bytes.length - 4) ≠ [] := by
        intro h
        rw [h] at hbytes
        exact hempty hbytes.symm
      rw [if_pos hret, List.filter_cons_of_pos (by simpa using hne), List.filter_nil]
  · simp [rxResult, hgood, goodFrames, Arrival.payload, ethError]

theorem goodFrames_append (as bs : List Arrival) :
    goodFrames (as ++ bs) = goodFrames as ++ goodFrames bs := by
  simp [goodFrames]

section Returns

variable {done : NotedCalls} {past : List Arrival}

/-- A call of another function returns nothing of what arrived. -/
theorem RxReturns.other (h : RxReturns done past) {k : EthCall} (hk : k ≠ .handleRxPkt) (note : Bool)
    (r : EthResult) : RxReturns (done ++ [((k, note), r)]) past where
  taken := by
    have hskip : rxTaken [((k, note), r)] = [] := by
      cases k <;> first | rfl | exact absurd rfl hk
    rw [← h.taken, rxTaken, List.flatMap_append]
    exact (congrArg (rxTaken done ++ ·) hskip).trans (List.append_nil _)
  refused r' hmem := h.refused r' (by simpa [Ne.symm hk] using hmem)
  frames := by
    have hskip : rxReturned [((k, note), r)] = [] := by
      cases k <;> first | rfl | exact absurd rfl hk
    rw [← h.frames, rxReturned, List.flatMap_append]
    exact (congrArg (rxReturned done ++ ·) hskip).trans (List.append_nil _)
  lengths note' r' hmem := h.lengths note' r' (by simpa [Ne.symm hk] using hmem)

/-- A receive call that finds nothing. -/
theorem RxReturns.refuse (h : RxReturns done past) :
    RxReturns (done ++ [((.handleRxPkt, false), .code ethError)]) past where
  taken := by simpa [rxTaken] using h.taken
  refused r hmem := by
    rcases List.mem_append.mp hmem with hmem | hmem
    · exact h.refused r hmem
    · simpa using hmem
  frames := by simpa [rxReturned, EthResult.code, ethError] using h.frames
  lengths note r hmem := by
    rcases List.mem_append.mp hmem with hmem | hmem
    · exact h.lengths note r hmem
    · simp only [List.mem_singleton, Prod.mk.injEq, true_and] at hmem
      obtain ⟨-, rfl⟩ := hmem
      rfl

/-- A receive call that finds the arrival `a`. -/
theorem RxReturns.take (h : RxReturns done past) (a : Arrival) :
    RxReturns (done ++ [((.handleRxPkt, true), rxResult a none)]) (past ++ [a]) where
  taken := by simp [← h.taken, rxTaken]
  refused r hmem := h.refused r (by simpa using hmem)
  frames := by
    rw [goodFrames_append, ← h.frames, ← (rxResult_returned a).1]
    simp [rxReturned]
  lengths note r hmem := by
    rcases List.mem_append.mp hmem with hmem | hmem
    · exact h.lengths note r hmem
    · simp only [List.mem_singleton, Prod.mk.injEq, true_and] at hmem
      obtain ⟨-, rfl⟩ := hmem
      exact (rxResult_returned a).2

end Returns

theorem chain_sound (L : Layout n m) :
    (ethSystem.noting Bool).SoundFirst (chainCalls.noting EthCall.finds) (ChainIdle L)
      (fun k => ChainAccess L k.1) where
  hw := by
    rintro done s s' ⟨htx, past, hrx, hret⟩ hs
    exact ⟨htx.hw hs, past, hrx.hw hs, hret⟩
  body := by
    rintro ⟨k, note⟩ done s upd next hbody ⟨htx, past, hrx, hret⟩ ⟨hentry, hnote⟩ -
    cases k with
    | handleTxPkt ppkt frameLength =>
        have hwp := Prog.wp_frame (htx.wp_ethHandleTxPkt (A := fun _ _ => True) ppkt hentry)
          RxRing.stable (fun _ _ hacc h => hacc.rxRing h) hrx
        obtain ⟨hacc, hrest⟩ := Prog.wp_first hbody hwp trivial
        refine ⟨hacc, Prog.wp_mono hrest ?_⟩
        rintro r s ⟨htx, hrx⟩
        exact ⟨by simpa [txAccepted] using htx, past, hrx, hret.other (by simp) note r⟩
    | handleRxPkt =>
        cases hbody
        have hfound : note = EthCall.handleRxPkt.finds s := hnote
        have hwp := Prog.wp_frame (hrx.wp_loaded (A := fun _ _ => True))
          TxRing.stable (fun _ _ hacc h => hacc.txRing h) htx
        refine ⟨.read, Prog.wp_mono hwp ?_⟩
        rintro r s' ⟨hres, htx⟩
        refine ⟨by simpa [txAccepted] using htx, ?_⟩
        by_cases hown : (s.desc s.dmaRxDescToGet).Own
        · rw [if_pos hown] at hres
          obtain ⟨rfl, hrx⟩ := hres
          obtain rfl : note = false := by simp [hfound, EthCall.finds, hown]
          exact ⟨past, hrx, hret.refuse⟩
        · rw [if_neg hown] at hres
          obtain ⟨a, rfl, hrx⟩ := hres
          obtain rfl : note = true := by simp [hfound, EthCall.finds, hown]
          exact ⟨past ++ [a], hrx, hret.take a⟩
    | dropRxPkt => exact absurd hentry id
    | handlePtpTxPkt ppkt frameLength => exact absurd hentry id
    | handlePtpRxPkt => exact absurd hentry id

/-! ## The queues -/

/-- The two tables as queues, at any moment of a noted run. -/
structure ChainFifo (L : Layout n m) (c : NotedConfig) : Prop where
  /-- the cursors stay in the tables and go round them in order, one step at a time -/
  txCursor : c.st.dmaTxDescToSet = L.tx.slot (c.st.txMoves % n)
  rxCursor : c.st.dmaRxDescToGet = L.rx.slot (c.st.rxMoves % m)
  /-- a transmit call touches one free descriptor, at the cursor, and the buffer of that -/
  access : ∀ k c', (ethSystem.noting Bool).Access (chainCalls.noting EthCall.finds) k c c' →
    ChainAccess L k.1 c.st c'.st
  /-- a transmit call that begins now succeeds exactly if any descriptor is free -/
  success : ∀ ppkt frameLength note c' c'' k r, c.running = none →
    (ethSystem.noting Bool).Access (chainCalls.noting EthCall.finds)
      (.handleTxPkt ppkt frameLength, note) c c' →
    (ethSystem.noting Bool).Reach (chainCalls.noting EthCall.finds) c' c'' →
    c''.done[c.done.length]? = some (k, r) →
      k = (.handleTxPkt ppkt frameLength, note) ∧ (r.ret = ethSuccess ∨ r.ret = ethError) ∧
        (r.ret = ethSuccess ↔ ∃ i, i < n ∧ ¬ (c.st.desc (L.tx.slot i)).Own)
  /-- what was sent is the beginning of what was accepted; the rest is in the table, in order -/
  sent : c.running = none → c.st.sent <+: txAccepted c.done ∧
    c.st.txMoves = (txAccepted c.done).length ∧
    Ring.Holds n (TxHolds L c.st) (fun i => ¬ (c.st.desc (L.tx.slot i)).Own) (txAccepted c.done)
      c.st.sent.length
  /-- a receive call that begins now finds something exactly if there is an arrival it was not
      called for yet -/
  ready : c.running = none →
    (EthCall.handleRxPkt.finds c.st = true ↔ (rxTaken c.done).length < c.st.arrived.length)
  /-- the calls that found something have returned the beginning of what arrived, one arrival each;
      the rest is in the table, in order -/
  returned : c.running = none → ∃ past, past <+: c.st.arrived ∧ c.st.rxMoves = past.length ∧
    RxReturns c.done past ∧
    Ring.Holds m (RxHolds L c.st) (fun i => (c.st.desc (L.rx.slot i)).Own) c.st.arrived
      past.length

section Fifo

variable (desc : Word → EthDmaDesc) (ram : Word → Byte) (dmaSts dmaBm : Word)

theorem chainStart_idle (L : Layout n m) : ChainIdle L [] (chainStart L desc ram dmaSts dmaBm) :=
  ⟨chainStart_txRing L desc ram dmaSts dmaBm, [], chainStart_rxRing L desc ram dmaSts dmaBm,
    ⟨rfl, by simp, rfl, by simp⟩⟩

/-- What a transmit call returns is decided where it begins. -/
theorem ChainIdle.success {c c' c'' : NotedConfig} (h : ChainIdle L c.done c.st)
    {ppkt : Nat → Byte} {frameLength : BitVec 16} {note : Bool} {k : EthCall × Bool} {r : EthResult}
    (hidle : c.running = none)
    (hacc : (ethSystem.noting Bool).Access (chainCalls.noting EthCall.finds)
      (.handleTxPkt ppkt frameLength, note) c c')
    (hreach : (ethSystem.noting Bool).Reach (chainCalls.noting EthCall.finds) c' c'')
    (hr : c''.done[c.done.length]? = some (k, r)) :
    k = (.handleTxPkt ppkt frameLength, note) ∧ (r.ret = ethSuccess ∨ r.ret = ethError) ∧
      (r.ret = ethSuccess ↔ ∃ i, i < n ∧ ¬ (c.st.desc (L.tx.slot i)).Own) := by
  have htx := h.tx
  cases hacc with
  | later => exact absurd hidle (by simp)
  | @first s d upd next hbody he ha =>
      cases hbody
      obtain ⟨hk, hret⟩ := System.Reach.result rfl
        (Prog.wp_of_returns (ethHandleTxPkt_returns ppkt frameLength
          (s.desc s.dmaTxDescToSet).status) _) hreach hr
      have hfree : ¬ (s.desc s.dmaTxDescToSet).Own ↔ ∃ i, i < n ∧ ¬ (s.desc (L.tx.slot i)).Own := by
        rw [htx.cursor]
        exact htx.queue.free_tail_iff_exists (fun i x hx hi => hi hx.own) L.tx_pos
      refine ⟨hk, ?_, ?_⟩
      · rw [hret]
        split
        · exact .inr rfl
        · exact .inl rfl
      · rw [← hfree, hret]
        unfold EthDmaDesc.Own
        split <;> simp_all [ethError, ethSuccess]

/-- There is something to find exactly if not every arrival was taken. -/
theorem RxRing.finds_iff {past : List Arrival} {s : EthState} (h : RxRing L past past.length s) :
    EthCall.handleRxPkt.finds s = true ↔ past.length < s.arrived.length := by
  rw [EthCall.finds, decide_eq_true_eq, h.own_iff]
  constructor
  · intro hne
    refine lt_of_le_of_ne h.past.length_le fun hlen => hne ?_
    exact (h.past.eq_of_length hlen).symm
  · intro hlt heq
    rw [heq] at hlt
    exact absurd hlt (Nat.lt_irrefl _)

/-- **The chain-mode driver is a pair of queues**, for tables of any size, from any prior memory, and
    in every interleaving with the DMA: every run has notes, and with any that it has, what the calls
    returned is what two queues would have. -/
theorem chain_fifo (L : Layout n m) (c : Config EthState EthCall EthResult)
    (h : ethSystem.Reach chainCalls (.start (chainStart L desc ram dmaSts dmaBm)) c) :
    (∃ c', ChainReach (chainStart L desc ram dmaSts dmaBm) c' ∧ c'.erase = c) ∧
      ∀ c', ChainReach (chainStart L desc ram dmaSts dmaBm) c' → c'.erase = c → ChainFifo L c' := by
  refine ⟨h.noted EthCall.finds, fun c' hreach _ => ?_⟩
  have hsound := chain_sound L
  have h₀ := chainStart_idle desc ram dmaSts dmaBm L
  have hwired : Wired L c'.st := by
    refine hsound.always h₀ (chainStart_wired L desc ram dmaSts dmaBm) (fun _ _ h hs => h.hw hs)
      ?_ hreach
    rintro ⟨k, note⟩ s s' hacc hw
    cases k with
    | handleTxPkt => exact TxAccess.wired hacc hw
    | handleRxPkt => exact RxAccess.wired hacc hw
    | dropRxPkt => exact absurd hacc id
    | handlePtpTxPkt => exact absurd hacc id
    | handlePtpRxPkt => exact absurd hacc id
  constructor
  case txCursor => exact hwired.txCursor
  case rxCursor => exact hwired.rxCursor
  case access => exact fun k c'' hacc => hsound.guarantee h₀ hreach hacc
  case success =>
    intro ppkt frameLength note c₁ c₂ k r hidle hacc hrun hr
    exact (hsound.idle h₀ hreach hidle).success hidle hacc hrun hr
  case sent =>
    intro hidle
    have htx := (hsound.idle h₀ hreach hidle).tx
    exact ⟨htx.sent, htx.moves, htx.queue⟩
  case ready =>
    intro hidle
    obtain ⟨past, hrx, hret⟩ := (hsound.idle h₀ hreach hidle).rx
    rw [hret.taken, List.length_map]
    exact hrx.finds_iff
  case returned =>
    intro hidle
    obtain ⟨past, hrx, hret⟩ := (hsound.idle h₀ hreach hidle).rx
    exact ⟨past, hrx.past, hrx.moves, hret, hrx.queue⟩

end Fifo

/-- The tables of the port, in memory that was all zero. -/
def zeroChains : EthState := chainStart sramLayout (fun _ => ⟨0, 0, 0, 0⟩) (fun _ => 0) 0 0

/-- A packet of one byte is sent, a good frame and an error frame arrive, and three calls look for
    them. -/
theorem chain_fifo_packets : ∃ c, ethSystem.Reach chainCalls (.start zeroChains) c ∧
    c.done.map (fun kr => (kr.2.ret, kr.2.bytes)) =
      [(ethSuccess, []), (1, [1]), (ethError, []), (ethError, [])] ∧
    ∃ c', ChainReach zeroChains c' ∧ c'.erase = c ∧ ChainFifo sramLayout c' := by
  let s₁ := ((ethHandleTxPkt (fun _ => 7) 1).exec zeroChains).2
  let s₂ := s₁.rxFill goodArrival (0, 0)
  have hfirst : EthHw s₁ s₂ := .fill goodArrival (0, 0) (by decide +kernel) rfl (by decide +kernel)
  have hsecond : EthHw s₂ (s₂.rxFill badArrival (0, 0)) :=
    .fill badArrival (0, 0) (by decide +kernel) rfl (by decide +kernel)
  have hsend := System.Reach.call ethSystem (D := chainCalls) (k := .handleTxPkt (fun _ => 7) 1)
    (s := zeroChains) (show (1 : BitVec 16).toNat ≤ ethMaxPacketSize by decide) (fun _ _ => trivial)
    (fun _ h => by cases h) []
  have hlook (s : EthState) (d : List (EthCall × EthResult)) :=
    System.Reach.call ethSystem (D := chainCalls) (k := .handleRxPkt) (s := s) trivial
      (fun _ _ => trivial) (fun _ h => by cases h) d
  have harrive (d : List (EthCall × EthResult)) : ethSystem.Reach chainCalls ⟨_, none, d⟩ ⟨_, none, d⟩ :=
    .hwStar ((Relation.ReflTransGen.single hfirst).tail hsecond) none d
  have hreach := (((hsend.trans (harrive _)).trans (hlook _ _)).trans (hlook _ _)).trans (hlook _ _)
  obtain ⟨⟨c', hnoted, herase⟩, hfifo⟩ := chain_fifo _ _ _ _ sramLayout _ hreach
  exact ⟨_, hreach, by decide +kernel, c', hnoted, herase, hfifo c' hnoted herase⟩

/-- A good frame of no bytes but its CRC is taken, and reported as an error. -/
theorem chain_crc_frame : ∃ c, ChainReach zeroChains c ∧
    c.running = none ∧ c.st.arrived = [crcArrival] ∧ RxGood crcArrival.status ∧
    (c.done.map fun kr => (kr.2.ret, kr.2.bytes)) = [(ethError, [])] ∧
    ¬ ∃ past, past <+: c.st.arrived ∧ c.st.rxMoves = past.length ∧
      rxReturned c.done = past.filterMap Arrival.payload := by
  have hfill : EthHw zeroChains (zeroChains.rxFill crcArrival (0, 0)) :=
    .fill crcArrival (0, 0) (by decide) rfl (by decide)
  have hentry : (chainCalls.noting EthCall.finds).entry (.handleRxPkt, true)
      (zeroChains.rxFill crcArrival (0, 0)) := ⟨trivial, by decide⟩
  have hreach := (System.Reach.hwStar (.single hfill) none []).trans
    (System.Reach.call (ethSystem.noting Bool) hentry (fun _ _ => trivial) (fun _ h => by cases h) [])
  refine ⟨_, hreach, rfl, rfl, by decide, by decide, ?_⟩
  rintro ⟨past, hpast, hmoves, hret⟩
  have htaken : past = [crcArrival] := hpast.eq_of_length hmoves.symm
  rw [htaken] at hret
  revert hret
  decide

end Eth
