import McuDrivers.Eth.ChainRx
import McuDrivers.Lwip.Output

set_option autoImplicit false

/-! # lwIP port: `ethernetif_input`

`ETH_RxPkt_ChainMode` says "nothing" with a NULL descriptor and "error" with a length of 0, and
`low_level_input` looks at neither: it allocates and fills a chain of whatever length, and writes to
the descriptor. The call is right when something has arrived and, if that is an error frame, the pool
has no pbuf left, so that the chain of length 0 is not allocated. -/

namespace Lwip

open Eth

variable {n m : Nat} {L : Layout n m}

/-- The `len` fields of an allocated chain add up to the length asked for. -/
theorem pbufAlloc_sum {free length : Nat} {lens : List Nat}
    (h : pbufAlloc free length = some lens) : lens.sum = length := by
  induction free generalizing length lens with
  | zero => exact absurd h (by simp [pbufAlloc])
  | succ free ih =>
      rw [pbufAlloc] at h
      split at h
      · simp only [Option.some.injEq] at h
        simp [← h]
      · obtain ⟨rest, hrest, rfl⟩ := Option.map_eq_some_iff.mp h
        rw [List.sum_cons, ih hrest]
        omega

/-- A chain of length 0 is one pbuf of no bytes. -/
theorem pbufAlloc_zero (free : Nat) :
    pbufAlloc free 0 = if free = 0 then none else some [0] := by
  cases free <;> simp [pbufAlloc]

/-! ## The call, when something has arrived -/

section Calls

variable {A : EthState → EthState → Prop} {past : List Arrival} {a : Arrival} {k : Nat}

theorem wp_memcpyFrom {s : EthState} (len offset : Nat) (h : RxOpen L past a k s)
    (hfits : offset + len ≤ a.bytes.length) :
    (memcpyFrom (L.rxBuf.byte (past.length % m) offset) len).wp EthHw A (RxAccess L)
      (fun bytes s => bytes = (a.bytes.drop offset).take len ∧ RxOpen L past a k s) s := by
  induction len generalizing offset s with
  | zero => exact ⟨by simp, h⟩
  | succ len ih =>
      have hlt : offset < a.bytes.length := by omega
      rw [memcpyFrom, Prog.wp_bind]
      apply wp_loadByte RxOpen.stable h
      intro s h _
      rw [Region.byte, h.holds.ram hlt]
      refine ⟨.load _, ?_⟩
      have hrest := ih (offset + 1) (h.noteLoad (L.rxBuf.byte (past.length % m) offset)) (by omega)
      rw [Region.byte, BitVec.ofNat_add, ← BitVec.add_assoc] at hrest
      apply Prog.wp_seq hrest
      rintro rest s ⟨rfl, h⟩
      refine ⟨?_, h⟩
      rw [List.drop_eq_getElem_cons hlt, List.take_succ_cons]

theorem wp_fillChain {s : EthState} (lens : List Nat) (l : Nat) (h : RxOpen L past a k s)
    (hfits : l + lens.sum ≤ a.bytes.length) :
    (fillChain (L.rxBuf.slot (past.length % m)) lens l).wp EthHw A (RxAccess L)
      (fun p s => p.flatten = (a.bytes.drop l).take lens.sum ∧ RxOpen L past a k s) s := by
  induction lens generalizing l s with
  | nil => exact ⟨by simp, h⟩
  | cons len lens ih =>
      rw [List.sum_cons] at hfits
      apply Prog.wp_seq (wp_memcpyFrom len l h (by omega))
      rintro payload s ⟨rfl, h⟩
      apply Prog.wp_seq (ih (l + len) h (by omega))
      rintro q s ⟨hq, h⟩
      refine ⟨?_, h⟩
      rw [List.flatten_cons, hq, List.sum_cons, List.take_add, List.drop_drop]

theorem wp_frameBuffer {s : EthState} (h : RxOpen L past a past.length s) :
    frameBuffer.wp EthHw A (RxAccess L)
      (fun r s => r = (if RxGood a.status then
          (rxFrameLength a.status - 4, L.rxBuf.slot (past.length % m)) else (ethError, 0)) ∧
        RxOpen L past a past.length s) s := by
  apply Prog.wp_seq h.wp_rxGoodTest
  rintro good s ⟨rfl, h⟩
  by_cases hgood : RxGood a.status
  · rw [if_pos (decide_eq_true hgood)]
    apply Prog.wp_seq h.wp_loadStatus
    rintro status s ⟨rfl, h⟩
    rw [Prog.wp_bind]
    apply wp_loadDesc RxOpen.stable h
    intro s h
    rw [h.ring.cursor, (h.ring.wired.rx _ (L.rx_mod _)).buffer]
    exact ⟨.read, by rw [if_pos hgood], h⟩
  · rw [if_neg (by simpa using hgood)]
    exact ⟨by rw [if_neg hgood], h⟩

theorem wp_moveOpen {s : EthState} (h : RxOpen L past a k s) :
    (setRxCursor fun s => (s.desc s.dmaRxDescToGet).buffer2NextDescAddr).wp EthHw A (RxAccess L)
      (fun _ => RxOpen L past a (k + 1)) s := by
  have hwp := Prog.wp_frame (I := fun s => past ++ [a] <+: s.arrived)
    (h.ring.wp_move (A := A)) (fun _ _ ha hs => ha.trans hs.arrived_prefix)
    (fun _ _ hacc ha => hacc.arrived ▸ ha) h.arrival
  exact Prog.wp_mono hwp fun _ _ h => ⟨h.1, h.2⟩

/-- What `ETH_RxPkt_ChainMode` returns of an arrival. -/
def arrivalFrame (L : Layout n m) (a : Arrival) (i : Nat) : FrameTypeDef :=
  if RxGood a.status then ⟨rxFrameLength a.status - 4, L.rxBuf.slot i, L.rx.slot i⟩
  else ⟨ethError, 0, L.rx.slot i⟩

theorem wp_ethRxPktChainMode {s : EthState} (h : RxOpen L past a past.length s) :
    ethRxPktChainMode.wp EthHw A (RxAccess L)
      (fun frame s => frame = arrivalFrame L a (past.length % m) ∧
        RxOpen L past a (past.length + 1) s) s := by
  apply Prog.wp_seq h.wp_loadStatus
  rintro status s ⟨rfl, h⟩
  rw [if_neg (not_not_intro a.notOwn)]
  apply Prog.wp_seq (wp_frameBuffer h)
  rintro frame s ⟨rfl, h⟩
  rw [Prog.wp_bind]
  apply Prog.wp_get RxOpen.stable h
  intro s h
  refine ⟨.read, ?_⟩
  rw [h.ring.cursor]
  apply Prog.wp_seq (wp_moveOpen h)
  intro _ s h
  refine ⟨?_, h⟩
  unfold arrivalFrame
  split <;> rfl

/-- The length of a frame, as a `u16_t`. -/
theorem arrivalFrame_len (hgood : RxGood a.status) (hshort : a.bytes.length ≤ ethMaxPacketSize)
    (i : Nat) :
    ((arrivalFrame L a i).length.setWidth 16).toNat = a.bytes.length - 4 := by
  have hlen := a.rxFrameLength_sub hgood
  have hle : ethMaxPacketSize < 2 ^ 16 := by decide
  rw [arrivalFrame, if_pos hgood, BitVec.toNat_setWidth, hlen, Nat.mod_eq_of_lt (by omega)]

/-- The chain that a call makes of an arrival: of an error frame, one of no bytes, if it can. -/
def ArrivalChain (free : Nat) (a : Arrival) (p : Option Pbuf) : Prop :=
  if RxGood a.status then
    (pbufAlloc free (a.bytes.length - 4)).isSome → p.map List.flatten = a.payload
  else p = if free = 0 then none else some [[]]

theorem wp_allocAndFill {s : EthState} (free : Nat) (h : RxOpen L past a k s) :
    (allocAndFill free (arrivalFrame L a (past.length % m))).wp EthHw A (RxAccess L)
      (fun p s => ArrivalChain free a p ∧ RxOpen L past a k s) s := by
  by_cases hgood : RxGood a.status
  · rw [allocAndFill, arrivalFrame_len hgood h.holds.short]
    cases hlens : pbufAlloc free (a.bytes.length - 4) with
    | none => exact ⟨by simp [ArrivalChain, hgood, hlens], h⟩
    | some lens =>
        have hsum := pbufAlloc_sum hlens
        have hbuf : (arrivalFrame L a (past.length % m)).buffer =
            L.rxBuf.slot (past.length % m) := by
          rw [arrivalFrame, if_pos hgood]
        rw [hbuf]
        apply Prog.wp_seq (wp_fillChain lens 0 h (by omega))
        rintro p s ⟨hp, h⟩
        refine ⟨?_, h⟩
        rw [ArrivalChain, if_pos hgood]
        intro _
        rw [Option.map_some, hp, hsum, List.drop_zero, Arrival.payload, if_pos hgood]
  · have hlen : ((arrivalFrame L a (past.length % m)).length.setWidth 16).toNat = 0 := by
      rw [arrivalFrame, if_neg hgood]
      rfl
    rw [allocAndFill, hlen, pbufAlloc_zero]
    by_cases hfree : free = 0
    · rw [if_pos hfree]
      exact ⟨by simp [ArrivalChain, hgood, hfree], h⟩
    · rw [if_neg hfree]
      exact ⟨by simp [ArrivalChain, hgood, hfree], h⟩

/-- **`ethernetif_input`** of an arrival gives its descriptor back, and passes on what was made of
    it. -/
theorem wp_ethernetifInput {s : EthState} (h : RxOpen L past a past.length s) (free : Nat)
    (err : Int) :
    (ethernetifInput free err).wp EthHw A (RxAccess L)
      (fun r s => ArrivalChain free a r.input ∧
        RxRing L (past ++ [a]) (past ++ [a]).length s) s := by
  have hinput : (lowLevelInput free).wp EthHw A (RxAccess L)
      (fun p s => ArrivalChain free a p ∧ RxRing L (past ++ [a]) (past ++ [a]).length s) s := by
    apply Prog.wp_seq (wp_ethRxPktChainMode h)
    rintro frame s ⟨rfl, h⟩
    apply Prog.wp_seq (wp_allocAndFill free h)
    rintro p s ⟨hp, h⟩
    have hdesc : (arrivalFrame L a (past.length % m)).descriptor = L.rx.slot (past.length % m) := by
      unfold arrivalFrame
      split <;> rfl
    rw [Prog.wp_bind]
    apply wp_storeDesc RxOpen.stable h
    intro s h _
    rw [hdesc]
    obtain ⟨hacc, hring⟩ := h.give ethDmaRxDescOwn (by decide)
    refine ⟨hacc, ?_⟩
    apply Prog.wp_seq hring.wp_resumeRx
    intro _ s hring
    exact ⟨hp, by simpa using hring⟩
  apply Prog.wp_seq hinput
  rintro p s ⟨hp, hring⟩
  cases p with
  | none => exact ⟨hp, hring⟩
  | some p => exact ⟨hp, hring⟩

end Calls

/-! ## Runs -/

/-- `pbuf_alloc` succeeds for the frame at the cursor, if that is a good one. -/
def AllocGood (free : Nat) (s : EthState) : Prop :=
  let status := (s.desc s.dmaRxDescToGet).status
  RxGood status → (pbufAlloc free ((rxFrameLength status - 4).setWidth 16).toNat).isSome

/-- Calls of `ethernetif_input`, with pbufs for good frames. -/
def inputCalls : Discipline EthState PortCall :=
  .onEntry fun k s => ∃ free err, k = .input free err ∧ AllocGood free s

/-- Such calls that begin when something has arrived: a good frame, or an error frame when the pool
    is empty. -/
def inputCallsReady : Discipline EthState PortCall :=
  .onEntry fun k s => ∃ free err, k = .input free err ∧ AllocGood free s ∧
    ¬ (s.desc s.dmaRxDescToGet).Own ∧ (RxGood (s.desc s.dmaRxDescToGet).status ∨ free = 0)

/-- What was passed to `netif->input`, in call order. -/
def netifInput (done : List (PortCall × PortResult)) : List (List Byte) :=
  done.flatMap fun kr => (kr.2.input.map List.flatten).toList

/-- The receive ring as the stack sees it, at any moment of a run. -/
structure InputFifo (L : Layout n m) (c : Config EthState PortCall PortResult) : Prop where
  /-- no store through a NULL descriptor -/
  notNull : 0 ∉ c.st.descStored
  /-- each call has taken the next of what arrived, and `netif->input` was called for the good frames
      among them, once each and in order; the rest is in the table, in order -/
  delivered : c.running = none → ∃ past, past <+: c.st.arrived ∧ c.st.rxMoves = past.length ∧
    past.length = c.done.length ∧ netifInput c.done = past.filterMap Arrival.payload ∧
    Ring.Holds m (RxHolds L c.st) (fun i => (c.st.desc (L.rx.slot i)).Own) c.st.arrived
      past.length

/-- What holds between calls. -/
def InputIdle (L : Layout n m) (done : List (PortCall × PortResult)) (s : EthState) : Prop :=
  ∃ past, RxRing L past past.length s ∧ past.length = done.length ∧
    netifInput done = past.filterMap Arrival.payload

theorem input_sound (L : Layout n m) :
    portSystem.Sound inputCallsReady (InputIdle L) (fun _ => RxAccess L) where
  hw := by
    rintro done s s' ⟨past, hrx, hcalls, hin⟩ hs
    exact ⟨past, hrx.hw hs, hcalls, hin⟩
  body := by
    rintro k done s ⟨past, hrx, hcalls, hin⟩ ⟨free, err, rfl, halloc, hheld, hready⟩
    obtain ⟨a, hopen⟩ := hrx.open hheld
    have hstatus : (s.desc s.dmaRxDescToGet).status = a.status := by
      rw [hrx.cursor]
      exact hopen.holds.status
    apply Prog.wp_mono (wp_ethernetifInput hopen free err)
    rintro r s ⟨hchain, hring⟩
    refine ⟨past ++ [a], hring, by simp [hcalls], ?_⟩
    have hlast : (r.input.map List.flatten).toList = [a].filterMap Arrival.payload := by
      simp only [AllocGood, hstatus] at halloc hready
      by_cases hgood : RxGood a.status
      · have hlen := arrivalFrame_len (L := L) hgood hopen.holds.short 0
        rw [arrivalFrame, if_pos hgood] at hlen
        rw [ArrivalChain, if_pos hgood] at hchain
        rw [hchain (hlen ▸ halloc hgood)]
        simp [Arrival.payload, hgood]
      · have hfree := hready.resolve_left hgood
        rw [ArrivalChain, if_neg hgood, if_pos hfree] at hchain
        simp [hchain, Arrival.payload, hgood]
    rw [List.filterMap_append, ← hin, ← hlast]
    simp [netifInput]

/-! ## Nothing to read, and error frames -/

/-- What was stored through a pointer stays in the record. -/
def KeepsStored (s s' : EthState) : Prop := (0 : Word) ∈ s.descStored → (0 : Word) ∈ s'.descStored

theorem resumeRx_keepsStored : resumeRx.Accesses KeepsStored := by
  apply resumeRx_accesses (fun _ h => h) (fun _ _ h => h)
  intro s h
  obtain ⟨r, v, heq⟩ := s.pollRx_eq
  rw [heq]
  exact h

/-- A call that finds OWN set stores to address 0. -/
theorem ethernetifInput_null (free : Nat) (err : Int) {s : EthState}
    (hown : (s.desc s.dmaRxDescToGet).Own) :
    (0 : Word) ∈ ((ethernetifInput free err).exec s).2.descStored := by
  have hown' : (s.desc s.dmaRxDescToGet).status &&& ethDmaRxDescOwn ≠ 0 := hown
  have hframe : ethRxPktChainMode.exec s =
      (do resumeRx; return ⟨ethError, 0, 0⟩ : EthProg FrameTypeDef).exec s := by
    change (if (s.desc s.dmaRxDescToGet).status &&& ethDmaRxDescOwn ≠ 0 then _ else _ :
      EthProg FrameTypeDef).exec s = _
    rw [if_pos hown']
  have hstore : ∀ s', (0 : Word) ∈
      ((storeStatus (fun _ => 0) ethDmaRxDescOwn).exec s').2.descStored :=
    fun s' => List.mem_append_right _ (List.mem_singleton.mpr rfl)
  have hinput : (0 : Word) ∈ ((lowLevelInput free).exec s).2.descStored := by
    simp only [lowLevelInput, Prog.exec_bind, hframe]
    exact Prog.exec_of_accesses resumeRx_keepsStored (fun _ h => h) (fun h h' hs => h' (h hs)) _
      (hstore _)
  simp only [ethernetifInput, Prog.exec_bind]
  split <;> exact hinput

/-- A call that is not ready for its input fails at once. -/
theorem input_unready (L : Layout n m) {c : Config EthState PortCall PortResult}
    (hidle : c.running = none) (hJ : InputIdle L c.done c.st) {free : Nat} (err : Int)
    (halloc : AllocGood free c.st)
    (hunready : ¬ (¬ (c.st.desc c.st.dmaRxDescToGet).Own ∧
      (RxGood (c.st.desc c.st.dmaRxDescToGet).status ∨ free = 0))) :
    ∃ c', portSystem.Reach inputCalls c c' ∧ ¬ InputFifo L c' := by
  obtain ⟨s, running, done⟩ := c
  subst hidle
  have hentry : inputCalls.entry (.input free err) s := ⟨free, err, rfl, halloc⟩
  refine ⟨_, System.Reach.call portSystem hentry (fun _ _ => trivial) (fun _ h => by cases h) done, ?_⟩
  intro hfifo
  by_cases hown : (s.desc s.dmaRxDescToGet).Own
  · exact hfifo.notNull (ethernetifInput_null free err hown)
  · obtain ⟨past, hrx, -, hin⟩ := hJ
    obtain ⟨a, hopen⟩ := hrx.open hown
    have hstatus : (s.desc s.dmaRxDescToGet).status = a.status := by
      rw [hrx.cursor]
      exact hopen.holds.status
    have hbad : ¬ RxGood a.status ∧ free ≠ 0 := by
      simp only [hown, hstatus, not_false_iff, true_and, not_or] at hunready
      exact hunready
    -- one more chain has been passed on than there are good frames
    obtain ⟨hchain, hring⟩ := Prog.exec_of_wp
      (wp_ethernetifInput (A := fun _ _ => True) hopen free err) fun _ _ => trivial
    rw [ArrivalChain, if_neg hbad.1, if_neg hbad.2] at hchain
    obtain ⟨past', hpast', hmoves, -, hdel, -⟩ := hfifo.delivered rfl
    have hlen : past'.length = (past ++ [a]).length := hmoves.symm.trans hring.moves
    have heq : past' = past ++ [a] :=
      (List.prefix_of_prefix_length_le hpast' hring.past hlen.le).eq_of_length hlen
    rw [heq, List.filterMap_append, ← hin] at hdel
    have hcount := congrArg List.length hdel
    simp [netifInput, PortCall.body, portSystem, hchain, Arrival.payload, hbad.1] at hcount

theorem portStart_inputIdle (L : Layout n m) (desc : Word → EthDmaDesc) (ram : Word → Byte)
    (dmaSts dmaBm : Word) : InputIdle L [] (portStart L desc ram dmaSts dmaBm) :=
  ⟨[], (portStart_rings L desc ram dmaSts dmaBm).2.1, rfl, rfl⟩

/-- **`ethernetif_input` delivers every good frame once, as long as each call finds one, or an error
    frame and an empty pool**; any other call fails at once. -/
theorem input_fifo (L : Layout n m) (desc : Word → EthDmaDesc) (ram : Word → Byte)
    (dmaSts dmaBm : Word) (c : Config EthState PortCall PortResult)
    (h : portSystem.Reach inputCallsReady (.start (portStart L desc ram dmaSts dmaBm)) c) :
    InputFifo L c ∧
      (c.running = none → ∀ free err, AllocGood free c.st →
        ¬ inputCallsReady.entry (.input free err) c.st →
          ∃ c', portSystem.Reach inputCalls c c' ∧ ¬ InputFifo L c') := by
  have hsound := input_sound L
  have h₀ := portStart_inputIdle L desc ram dmaSts dmaBm
  refine ⟨⟨?_, ?_⟩, ?_⟩
  · refine hsound.always (I := fun s => 0 ∉ s.descStored) h₀ ?_ ?_ ?_ h
    · rw [(portStart_rings L desc ram dmaSts dmaBm).2.2]
      simp
    · intro s s' hs hstep
      cases hstep <;> exact hs
    · intro k s s' hacc hs
      cases hacc with
      | give i status hi hheld =>
          intro hmem
          rcases List.mem_append.mp hmem with hmem | hmem
          · exact hs hmem
          · exact L.rx.slot_ne_zero L.rx_base (by decide) hi (List.mem_singleton.mp hmem).symm
      | poll =>
          obtain ⟨r, v, heq⟩ := s.pollRx_eq
          rw [heq]
          exact hs
      | _ => exact hs
  · intro hidle
    obtain ⟨past, hrx, hcalls, hin⟩ := hsound.idle h₀ h hidle
    exact ⟨past, hrx.past, hrx.moves, hcalls, hin, hrx.queue⟩
  · intro hidle free err halloc hnot
    refine input_unready L hidle (hsound.idle h₀ h hidle) err halloc ?_
    rintro ⟨hown, hready⟩
    exact hnot ⟨free, err, rfl, halloc, hown, hready⟩

/-- A good frame on the tables of the port, which is delivered. -/
theorem input_fifo_frame : ∃ c,
    portSystem.Reach inputCallsReady (.start zeroStart) c ∧
      netifInput c.done = [[1]] ∧ InputFifo sramLayout c := by
  have hown : (zeroStart.desc zeroStart.rxCur).Own := by decide
  have hfill : EthHw zeroStart (zeroStart.rxFill goodArrival (0, 0)) :=
    .fill goodArrival (0, 0) hown rfl (by decide)
  have hready : inputCallsReady.entry (.input 10 errOk) (zeroStart.rxFill goodArrival (0, 0)) :=
    ⟨10, errOk, rfl, by unfold AllocGood; decide, by decide, .inl (by decide)⟩
  have hreach := (System.Reach.hwStar (.single hfill) none []).trans
    (System.Reach.call portSystem hready (fun _ _ => trivial) (fun _ h => by cases h) [])
  exact ⟨_, hreach, by decide, (input_fifo _ _ _ _ _ _ hreach).1⟩

/-- An error frame is passed on as a chain of no bytes, and without any frame the call stores to
    address 0. -/
theorem input_error_and_nothing :
    (∃ c, portSystem.Reach inputCalls (.start zeroStart) c ∧ c.st.arrived = [badArrival] ∧
      netifInput c.done = [[]] ∧ ¬ InputFifo sramLayout c) ∧
    ∃ c, portSystem.Reach inputCalls (.start zeroStart) c ∧ c.st.arrived = [] ∧
      netifInput c.done = [[]] ∧ 0 ∈ c.st.descStored ∧ ¬ InputFifo sramLayout c := by
  constructor
  · have hfill : EthHw zeroStart (zeroStart.rxFill badArrival (0, 0)) :=
      .fill badArrival (0, 0) (by decide) rfl (by decide)
    have hentry : inputCalls.entry (.input 10 errOk) (zeroStart.rxFill badArrival (0, 0)) :=
      ⟨10, errOk, rfl, by unfold AllocGood; decide⟩
    have hreach := (System.Reach.hwStar (.single hfill) none []).trans
      (System.Reach.call portSystem hentry (fun _ _ => trivial) (fun _ h => by cases h) [])
    refine ⟨_, hreach, rfl, by decide, ?_⟩
    intro hfifo
    obtain ⟨past, hpast, hmoves, -, hdel, -⟩ := hfifo.delivered rfl
    have hlen : past = [badArrival] := hpast.eq_of_length hmoves.symm
    rw [hlen] at hdel
    revert hdel
    decide
  · have hentry : inputCalls.entry (.input 10 errOk) zeroStart :=
      ⟨10, errOk, rfl, by unfold AllocGood; decide⟩
    have hreach := System.Reach.call portSystem hentry (fun _ _ => trivial)
      (fun _ h => by cases h) []
    refine ⟨_, hreach, rfl, by decide, by decide, ?_⟩
    intro hfifo
    exact hfifo.notNull (by decide)

end Lwip
