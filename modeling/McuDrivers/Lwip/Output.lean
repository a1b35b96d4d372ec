import McuDrivers.Eth.ChainFifo
import McuDrivers.Lwip.Port

set_option autoImplicit false

/-! # lwIP port: `low_level_output`

The function copies into the buffer at the cursor before anything has looked at OWN, and reports
success whatever `ETH_TxPkt_ChainMode` reports. So it is a queue operation only while the ring is not
full: then every chain is sent, once and in order. On a full ring it overwrites a frame that the DMA
has yet to send, and drops the new one. -/

namespace Lwip

open Eth

variable {n m : Nat} {L : Layout n m}

/-! ## Initialisation -/

/-- The start of a run of the port: anything in memory and registers, then `low_level_init`. -/
def portStart (L : Layout n m) (desc : Word → EthDmaDesc) (ram : Word → Byte)
    (dmaSts dmaBm : Word) : EthState :=
  lowLevelInit L.tx.base L.txBuf.base n L.rx.base L.rxBuf.base m
    (EthState.boot desc ram dmaSts dmaBm false)

/-- Clearing DIC leaves a receive descriptor as it was in all that the chain rests on. -/
theorem rxWired_dic {i : Nat} {d : EthDmaDesc} (h : RxWired L i d) :
    RxWired L i { d with controlBufferSize := d.controlBufferSize &&& ~~~ethDmaRxDescDic } where
  rch := by
    have hkeep := Mask.and_and_of_subset (b := ~~~ethDmaRxDescDic) (m := ethDmaRxDescRch)
      d.controlBufferSize (by decide)
    rw [hkeep]
    exact h.rch
  rer := (Mask.and_and_of_subset d.controlBufferSize (by decide)).trans h.rer
  size := by
    have hkeep := Mask.and_and_of_subset (b := ~~~ethDmaRxDescDic) (m := ethDmaRxDescRbs1)
      d.controlBufferSize (by decide)
    rw [hkeep]
    exact h.size
  buffer := h.buffer
  link := h.link

theorem portStart_rings (L : Layout n m) (desc : Word → EthDmaDesc) (ram : Word → Byte)
    (dmaSts dmaBm : Word) :
    TxRing L [] 0 (portStart L desc ram dmaSts dmaBm) ∧
      RxRing L [] 0 (portStart L desc ram dmaSts dmaBm) ∧
      (portStart L desc ram dmaSts dmaBm).descStored = [] := by
  obtain ⟨D, hD, htx, hrx⟩ := chainInit_spec L (EthState.boot desc ram dmaSts dmaBm false)
  obtain ⟨D', hD', hin, hout⟩ := forLoop_setDesc L.rx
    (fun _ d => { d with controlBufferSize := d.controlBufferSize &&& ~~~ethDmaRxDescDic })
    (chainInit L (EthState.boot desc ram dmaSts dmaBm false))
  have hstart : portStart L desc ram dmaSts dmaBm =
      { chainInit L (EthState.boot desc ram dmaSts dmaBm false) with desc := D' } := hD'
  rw [hD] at hstart hin hout
  have htx' : ∀ i, i < n → D' (L.tx.slot i) = D (L.tx.slot i) :=
    fun i hi => hout _ fun j hj => L.tx_ne_rx hi hj
  have hw : Wired L (portStart L desc ram dmaSts dmaBm) := by
    rw [hstart]
    refine ⟨fun i hi => ?_, fun i hi => ?_, ?_, ?_, ?_, ?_, rfl⟩
    · simp only [htx' i hi]
      exact (htx i hi).1
    · simp only [hin i hi]
      exact rxWired_dic (hrx i hi).1
    all_goals exact (by simp [EthState.boot])
  rw [hstart] at hw ⊢
  refine ⟨?_, ?_, rfl⟩
  · refine ⟨hw, rfl, Ring.Holds.empty fun i hi => ?_, List.prefix_refl _⟩
    simp only [htx' i hi]
    exact (htx i hi).2
  · refine ⟨hw, rfl, Ring.Holds.empty fun i hi => ?_, List.prefix_refl _⟩
    simp only [hin i hi]
    exact (hrx i hi).2

/-! ## The call, on a ring that is not full -/

section Calls

variable {A : EthState → EthState → Prop} {accepted : List (List Byte)} {d : EthDmaDesc}
  {pre : List Byte}

/-- `memcpy` to the place behind the bytes `pre`. -/
theorem wp_memcpyTo {s : EthState} (src : List Byte) (h : TxOpen L accepted d pre s)
    (hfits : pre.length + src.length ≤ ethMaxPacketSize) :
    (memcpyTo (L.txBuf.byte (accepted.length % n) pre.length) src).wp EthHw A (TxAccess L)
      (fun _ => TxOpen L accepted d (pre ++ src)) s := by
  induction src generalizing pre s with
  | nil => simpa [memcpyTo] using h
  | cons b src ih =>
      rw [List.length_cons] at hfits
      rw [memcpyTo, Prog.wp_bind]
      apply Prog.wp_put TxOpen.stable h
      intro s h _
      obtain ⟨hacc, hnext⟩ := h.byte (by omega) b
      refine ⟨hacc, ?_⟩
      have hlen : (pre ++ [b]).length = pre.length + 1 := by simp
      have hrest := ih hnext (by omega)
      rw [hlen, List.append_assoc, Region.byte, BitVec.ofNat_add, ← BitVec.add_assoc] at hrest
      exact hrest

/-- The loop over the pbufs. -/
theorem wp_copyChain {s : EthState} (q : Pbuf) (h : TxOpen L accepted d pre s)
    (hfits : pre.length + q.flatten.length ≤ ethMaxPacketSize) :
    (copyChain (L.txBuf.slot (accepted.length % n)) q pre.length).wp EthHw A (TxAccess L)
      (fun l s => l = pre.length + q.flatten.length ∧ TxOpen L accepted d (pre ++ q.flatten) s)
      s := by
  induction q generalizing pre s with
  | nil => simpa [copyChain] using h
  | cons payload q ih =>
      rw [List.flatten_cons, List.length_append] at hfits
      apply Prog.wp_seq (wp_memcpyTo payload h (by omega))
      intro _ s h
      have hrest := ih h (by rw [List.length_append]; omega)
      rw [List.length_append] at hrest
      apply Prog.wp_mono hrest
      rintro l s ⟨rfl, h⟩
      rw [List.flatten_cons, List.length_append, ← List.append_assoc]
      exact ⟨by omega, h⟩

theorem wp_ethTxPktChainMode {s : EthState} {frameLength : BitVec 16}
    (h : TxOpen L accepted d pre s) (hlen : frameLength.toNat = pre.length) :
    (ethTxPktChainMode frameLength).wp EthHw A (TxAccess L)
      (fun _ => TxRing L (accepted ++ [pre]) (accepted ++ [pre]).length) s := by
  apply Prog.wp_seq (h.wp_load (·.status))
  rintro v s ⟨rfl, h⟩
  have hfree : ¬ d.status &&& ethDmaTxDescOwn ≠ 0 := h.free
  rw [if_neg hfree]
  have hd := h.wiredDesc
  have hshort : frameLength.toNat ≤ ethMaxPacketSize := hlen ▸ h.short
  have htbs := tbs1_toNat hshort
  rw [hlen] at htbs
  apply Prog.wp_seq (h.wp_storeDesc { hd with } h.free)
  intro _ s h
  apply Prog.wp_seq (h.wp_orStatus (by decide) (by decide))
  intro _ s h
  apply Prog.wp_seq (h.wp_give htbs)
  intro _ s h
  apply Prog.wp_seq h.wp_resumeTx
  intro _ s h
  apply Prog.wp_seq h.wp_move
  intro _ s h
  simpa using h

/-- **`low_level_output`** enqueues the bytes of the chain, if the ring is not full. -/
theorem wp_lowLevelOutput {s : EthState} (h : TxRing L accepted accepted.length s)
    (hfree : ¬ (s.desc s.dmaTxDescToSet).Own) (p : Pbuf)
    (hfits : p.flatten.length ≤ ethMaxPacketSize) :
    (lowLevelOutput p).wp EthHw A (TxAccess L)
      (fun r s => r = ⟨errOk, none⟩ ∧
        TxRing L (accepted ++ [p.flatten]) (accepted ++ [p.flatten]).length s) s := by
  have hopen := h.open hfree
  generalize s.desc s.dmaTxDescToSet = d at hopen
  apply Prog.wp_seq (hopen.wp_load (·.buffer1Addr))
  rintro buffer s ⟨rfl, h⟩
  rw [h.wiredDesc.buffer]
  apply Prog.wp_seq (wp_copyChain p h (by simpa using hfits))
  rintro l s ⟨rfl, h⟩
  rw [List.nil_append] at h
  have hlen : (BitVec.ofNat 16 (([] : List Byte).length + p.flatten.length)).toNat =
      p.flatten.length := by
    have hle : ethMaxPacketSize < 2 ^ 16 := by decide
    rw [List.length_nil, Nat.zero_add, BitVec.toNat_ofNat, Nat.mod_eq_of_lt (by omega)]
  apply Prog.wp_seq (wp_ethTxPktChainMode h hlen)
  intro _ s h
  exact ⟨rfl, h⟩

end Calls

/-! ## Runs -/

/-- Calls of `low_level_output` with chains that fit a buffer. -/
def outputCalls : Discipline EthState PortCall :=
  .onEntry fun k _ => ∃ p, k = .output p ∧ p.flatten.length ≤ ethMaxPacketSize

/-- Such calls that begin while the descriptor at the cursor is free: the ring is not full. -/
def outputCallsNotFull : Discipline EthState PortCall :=
  .onEntry fun k s => outputCalls.entry k s ∧ ¬ (s.desc s.dmaTxDescToSet).Own

/-- The chains for which `ERR_OK` was returned, in call order. -/
def outputOk (done : List (PortCall × PortResult)) : List (List Byte) :=
  done.flatMap fun kr => match kr.1 with
    | .output p => if kr.2.err = errOk then [p.flatten] else []
    | .input _ _ => []

/-- What holds between calls. -/
structure OutputIdle (L : Layout n m) (done : List (PortCall × PortResult)) (s : EthState) :
    Prop where
  tx : TxRing L (outputOk done) (outputOk done).length s
  ok : ∀ kr ∈ done, kr.2.err = errOk

theorem output_sound (L : Layout n m) :
    portSystem.Sound outputCallsNotFull (OutputIdle L) (fun _ => TxAccess L) where
  hw := by
    rintro done s s' ⟨htx, hok⟩ hs
    exact ⟨htx.hw hs, hok⟩
  body := by
    rintro k done s ⟨htx, hok⟩ ⟨⟨p, rfl, hfits⟩, hfree⟩
    apply Prog.wp_mono (wp_lowLevelOutput htx hfree p hfits)
    rintro r s ⟨rfl, htx⟩
    constructor
    · simpa [outputOk] using htx
    · intro kr hmem
      rcases List.mem_append.mp hmem with hmem | hmem
      · exact hok kr hmem
      · simp only [List.mem_singleton] at hmem
        rw [hmem]

/-- The transmit ring as the stack sees it, at any moment of a run of calls restricted by `D`. -/
structure OutputFifo (L : Layout n m) (D : Discipline EthState PortCall)
    (c : Config EthState PortCall PortResult) : Prop where
  /-- an access stores into no buffer but that of a descriptor whose OWN bit is clear -/
  store : ∀ k c' a, portSystem.Access D k c c' → c'.st.stored = c.st.stored ++ [a] →
    ∃ i j, i < n ∧ j < ethMaxPacketSize ∧ a = L.txBuf.byte i j ∧ ¬ (c.st.desc (L.tx.slot i)).Own
  /-- every call returned `ERR_OK`, and the chains of these calls are what was enqueued: those that
      were not sent yet are in the table, in order -/
  enqueued : c.running = none → (∀ kr ∈ c.done, kr.2.err = errOk) ∧
    Ring.Holds n (TxHolds L c.st) (fun i => ¬ (c.st.desc (L.tx.slot i)).Own) (outputOk c.done)
      c.st.sent.length
  /-- those that were sent are the beginning -/
  sent : c.running = none → c.st.sent <+: outputOk c.done

/-- A call returns `ERR_OK` whatever happens. -/
theorem lowLevelOutput_returns (p : Pbuf) :
    (lowLevelOutput p).Returns fun r => r = ⟨errOk, none⟩ :=
  Prog.returns_bind fun _ => Prog.returns_bind fun _ => Prog.returns_bind fun _ => rfl

def KeepsSent (s s' : EthState) : Prop := s'.sent = s.sent

/-- No access of a call sends anything. -/
theorem lowLevelOutput_sent (p : Pbuf) : (lowLevelOutput p).Accesses KeepsSent := by
  have hread : ∀ s, KeepsSent s s := fun _ => rfl
  have hstatus : ∀ (s : EthState) a v, KeepsSent s (s.putDesc a { s.desc a with status := v }) :=
    fun _ _ _ => rfl
  have hput : ∀ f : EthState → EthState, (∀ s, (f s).sent = s.sent) →
      (Prog.put f).Accesses KeepsSent :=
    fun f hf => (Prog.accesses_put _ _).mpr hf
  have hmemcpy : ∀ src dst, (memcpyTo dst src).Accesses KeepsSent := by
    intro src
    induction src with
    | nil => exact fun _ => trivial
    | cons b src ih => exact fun dst => Prog.accesses_bind (hput _ fun _ => rfl) fun _ => ih _
  have hcopy : ∀ q l buffer, (copyChain buffer q l).Accesses KeepsSent := by
    intro q
    induction q with
    | nil => exact fun _ _ => trivial
    | cons payload q ih =>
        exact fun l buffer => Prog.accesses_bind (hmemcpy _ _) fun _ => ih _ _
  have htx : ∀ len, (ethTxPktChainMode len).Accesses KeepsSent := by
    intro len
    refine Prog.accesses_bind (loadDesc_accesses hread _ _) fun status => ?_
    split
    · trivial
    · apply Prog.accesses_bind (hput _ fun _ => rfl)
      intro _
      apply Prog.accesses_bind (orStatus_accesses hread fun s v => hstatus s _ v)
      intro _
      apply Prog.accesses_bind (orStatus_accesses hread fun s v => hstatus s _ v)
      intro _
      apply Prog.accesses_bind (resumeTx_accesses hread fun _ _ => rfl)
      intro _
      exact Prog.accesses_bind (hput _ fun _ => rfl) fun _ => trivial
  apply Prog.accesses_bind (loadDesc_accesses hread _ _)
  intro buffer
  apply Prog.accesses_bind (hcopy _ _ _)
  intro l
  exact Prog.accesses_bind (htx _) fun _ => trivial

/-- A call that begins on a full ring returns `ERR_OK` for a chain that is not enqueued. -/
theorem output_full (L : Layout n m) {c : Config EthState PortCall PortResult}
    (hidle : c.running = none) (hJ : OutputIdle L c.done c.st)
    (hfull : (c.st.desc c.st.dmaTxDescToSet).Own) {p : Pbuf}
    (hfits : p.flatten.length ≤ ethMaxPacketSize) :
    ∃ c', portSystem.Reach outputCalls c c' ∧ ¬ OutputFifo L outputCalls c' := by
  obtain ⟨s, running, done⟩ := c
  subst hidle
  have hentry : outputCalls.entry (.output p) s := ⟨p, rfl, hfits⟩
  refine ⟨_, System.Reach.call portSystem hentry (fun _ _ => trivial) (fun _ h => by cases h) done, ?_⟩
  intro hfifo
  have hret := Prog.exec_of_returns (lowLevelOutput_returns p) s
  have hsent := Prog.exec_of_accesses (lowLevelOutput_sent p) (fun _ => rfl)
    (fun h h' => h'.trans h) s
  -- the ring would hold one frame too many
  have hqueue := (hfifo.enqueued rfl).2.length_le
  have hok : outputOk (done ++ [(.output p, ((lowLevelOutput p).exec s).1)]) =
      outputOk done ++ [p.flatten] := by
    rw [hret]
    simp [outputOk]
  have htail := hJ.tx.queue.free_tail_iff (fun i x hx hi => hi hx.own) L.tx_pos
  have hlen : ¬ (outputOk done).length < s.sent.length + n := by
    rw [← htail, not_not, ← hJ.tx.cursor]
    exact hfull
  change (outputOk (done ++ [(.output p, ((lowLevelOutput p).exec s).1)])).length ≤
    ((lowLevelOutput p).exec s).2.sent.length + n at hqueue
  rw [hok, hsent, List.length_append, List.length_singleton] at hqueue
  omega

/-- **`low_level_output` is a queue operation as long as no call begins on a full ring**, and on a
    full ring it fails at once. -/
theorem output_fifo (L : Layout n m) (desc : Word → EthDmaDesc) (ram : Word → Byte)
    (dmaSts dmaBm : Word) (c : Config EthState PortCall PortResult)
    (h : portSystem.Reach outputCallsNotFull (.start (portStart L desc ram dmaSts dmaBm)) c) :
    OutputFifo L outputCallsNotFull c ∧
      (c.running = none → (c.st.desc c.st.dmaTxDescToSet).Own →
        ∀ p : Pbuf, p.flatten.length ≤ ethMaxPacketSize →
          ∃ c', portSystem.Reach outputCalls c c' ∧ ¬ OutputFifo L outputCalls c') := by
  have hsound := output_sound L
  have h₀ : OutputIdle L [] (portStart L desc ram dmaSts dmaBm) :=
    ⟨(portStart_rings L desc ram dmaSts dmaBm).1, by simp⟩
  refine ⟨⟨?_, ?_, ?_⟩, ?_⟩
  · intro k c' a hacc ha
    exact (hsound.guarantee h₀ h hacc).stored ha
  · intro hidle
    have hJ := hsound.idle h₀ h hidle
    exact ⟨hJ.ok, hJ.tx.queue⟩
  · intro hidle
    exact (hsound.idle h₀ h hidle).tx.sent
  · intro hidle hfull p hfits
    exact output_full L hidle (hsound.idle h₀ h hidle) hfull hfits

/-- A chain of two pbufs on the tables of the port. -/
theorem output_fifo_chain : ∃ c,
    portSystem.Reach outputCallsNotFull
      (.start (portStart sramLayout (fun _ => ⟨0, 0, 0, 0⟩) (fun _ => 0) 0 0)) c ∧
    c.done.length = 1 ∧ OutputFifo sramLayout outputCallsNotFull c := by
  have hreach := System.Reach.call portSystem (D := outputCallsNotFull)
    (k := .output [[1], [2]])
    (s := portStart sramLayout (fun _ => ⟨0, 0, 0, 0⟩) (fun _ => 0) 0 0)
    ⟨⟨_, rfl, by decide⟩, by decide⟩ (fun _ _ => trivial) (fun _ h => by cases h) []
  exact ⟨_, hreach, rfl, (output_fifo _ _ _ _ _ _ hreach).1⟩

/-! ## A full ring -/

/-- The start with all memory zero. -/
def zeroStart : EthState := portStart sramLayout (fun _ => ⟨0, 0, 0, 0⟩) (fun _ => 0) 0 0

/-- Three calls that the DMA does not keep up with. -/
def threeOutputs : EthState :=
  ((lowLevelOutput [[3]]).exec ((lowLevelOutput [[2]]).exec
    ((lowLevelOutput [[1]]).exec zeroStart).2).2).2

theorem threeOutputs_reach : portSystem.Reach outputCalls (.start zeroStart)
    ⟨threeOutputs, none,
      [(.output [[1]], ⟨errOk, none⟩), (.output [[2]], ⟨errOk, none⟩),
        (.output [[3]], ⟨errOk, none⟩)]⟩ := by
  have hcall : ∀ (b : Byte) (s : EthState) (d : List (PortCall × PortResult)),
      portSystem.Reach outputCalls ⟨s, none, d⟩
        ⟨((lowLevelOutput [[b]]).exec s).2, none, d ++ [(.output [[b]], ⟨errOk, none⟩)]⟩ := by
    intro b s d
    have hentry : outputCalls.entry (.output [[b]]) s := ⟨_, rfl, by simp [ethMaxPacketSize]⟩
    have hresult : ((lowLevelOutput [[b]]).exec s).1 = ⟨errOk, none⟩ :=
      Prog.exec_of_returns (lowLevelOutput_returns [[b]]) s
    rw [← hresult]
    exact System.Reach.call portSystem hentry (fun _ _ => trivial) (fun _ h => by cases h) d
  exact ((hcall 1 zeroStart []).trans (hcall 2 _ _)).trans (hcall 3 _ _)

/-- On a full ring of two the third call returns `ERR_OK` all the same, and the DMA then sends its
    byte in the place of the first one. -/
theorem output_full_ring : ∃ c,
    portSystem.Reach outputCalls (.start zeroStart) c ∧ c.running = none ∧
      outputOk c.done = [[1], [2], [3]] ∧ c.st.sent = [[3]] ∧
      ¬ OutputFifo sramLayout outputCalls c := by
  have hown : (threeOutputs.desc threeOutputs.txCur).Own := by decide +kernel
  refine ⟨_, threeOutputs_reach.tail (.hw (.send 0 (0, 0) hown)), rfl, rfl, by decide +kernel, ?_⟩
  intro h
  have hsent := h.sent rfl
  revert hsent
  decide +kernel

end Lwip
