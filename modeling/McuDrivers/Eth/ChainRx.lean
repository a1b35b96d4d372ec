import McuDrivers.Eth.Chain
import McuDrivers.Eth.Driver

set_option autoImplicit false

/-! # Ethernet: `ETH_HandleRxPkt` on a chain

While OWN is clear in the descriptor at the head of the queue, the processor holds what arrived in
it: `RxOpen` names that arrival, and the hardware, which may append to the list of arrivals, cannot
change it. Setting OWN gives the descriptor back, and takes the arrival off the queue. -/

namespace Eth

variable {n m : Nat}

/-- What a single access of a receive call can be. -/
inductive RxAccess (L : Layout n m) : EthState → EthState → Prop
  /-- a load of a register or of a descriptor -/
  | read {s : EthState} : RxAccess L s s
  /-- a load from a buffer -/
  | load {s : EthState} (a : Word) : RxAccess L s (s.noteLoad a)
  /-- the status word of a descriptor that the processor holds, with OWN set -/
  | give {s : EthState} (i : Nat) (status : Word) (hi : i < m)
      (hheld : ¬ (s.desc (L.rx.slot i)).Own) :
      RxAccess L s (s.putDesc (L.rx.slot i) { s.desc (L.rx.slot i) with status := status })
  /-- the status register -/
  | sts {s : EthState} (v : Word) : RxAccess L s { s with dmaSts := v }
  /-- the poll demand -/
  | poll {s : EthState} : RxAccess L s s.pollRx
  /-- the cursor, to the neighbour -/
  | move {s : EthState} :
      RxAccess L s
        { s with
          dmaRxDescToGet := L.rx.slot ((s.rxMoves + 1) % m)
          rxMoves := s.rxMoves + 1 }

variable {L : Layout n m}

theorem RxAccess.wired {s s' : EthState} (h : RxAccess L s s') (hw : Wired L s) : Wired L s' := by
  cases h with
  | read => exact hw
  | load a => exact { hw with }
  | give i status hi hheld =>
      refine { hw with tx := fun j hj => ?_, rx := fun i' hi' => ?_ }
      · rw [s.putDesc_other _ (L.tx_ne_rx hj hi)]
        exact hw.tx j hj
      · by_cases heq : i' = i
        · subst heq
          rw [s.putDesc_self]
          exact { hw.rx i' hi with }
        · rw [s.putDesc_other _ (L.rx_ne_rx hi' hi heq)]
          exact hw.rx i' hi'
  | sts v => exact { hw with }
  | poll =>
      obtain ⟨r, v, heq⟩ := s.pollRx_eq
      rw [heq]
      exact { hw with }
  | move => exact { hw with rxCursor := rfl }

/-- A receive call does nothing to the transmit table. -/
theorem RxAccess.txRing {accepted : List (List Byte)} {k : Nat} {s s' : EthState}
    (h : RxAccess L s s') (ht : TxRing L accepted k s) : TxRing L accepted k s' := by
  have hw := h.wired ht.wired
  cases h with
  | read => exact ht
  | load a => exact ht.frame hw rfl rfl (fun _ _ => rfl) fun _ _ _ _ => rfl
  | give i status hi hheld =>
      apply ht.frame hw rfl rfl
      · intro j hj
        exact s.putDesc_other _ (L.tx_ne_rx hj hi)
      · exact fun _ _ _ _ => rfl
  | sts v => exact ht.frame hw rfl rfl (fun _ _ => rfl) fun _ _ _ _ => rfl
  | poll =>
      obtain ⟨r, v, heq⟩ := s.pollRx_eq
      rw [heq] at hw ⊢
      exact ht.frame hw rfl rfl (fun _ _ => rfl) fun _ _ _ _ => rfl
  | move => exact ht.frame hw rfl rfl (fun _ _ => rfl) fun _ _ _ _ => rfl

theorem RxAccess.arrived {s s' : EthState} (h : RxAccess L s s') : s'.arrived = s.arrived := by
  cases h with
  | poll =>
      obtain ⟨r, v, heq⟩ := s.pollRx_eq
      rw [heq]
  | _ => rfl

/-! ## The arrival in hand -/

/-- What arrived stays in the record. -/
theorem EthHw.arrived_prefix {s s' : EthState} (h : EthHw s s') : s.arrived <+: s'.arrived := by
  cases h with
  | send => exact List.prefix_refl _
  | txUnavailable => exact List.prefix_refl _
  | fill a => exact List.prefix_append _ _
  | rxUnavailable => exact List.prefix_refl _

/-- The processor holds the arrival `a`, the oldest that was not given back. -/
structure RxOpen (L : Layout n m) (past : List Arrival) (a : Arrival) (k : Nat) (s : EthState) :
    Prop where
  ring : RxRing L past k s
  arrival : past ++ [a] <+: s.arrived

variable {past : List Arrival} {a : Arrival} {k : Nat}

theorem RxRing.stable : Prog.Stable EthHw (RxRing L past k) := fun _ _ h hs => h.hw hs

theorem RxOpen.stable : Prog.Stable EthHw (RxOpen L past a k) :=
  fun _ _ h hs => ⟨h.ring.hw hs, h.arrival.trans hs.arrived_prefix⟩

theorem RxRing.cursor {s : EthState} (h : RxRing L past k s) :
    s.dmaRxDescToGet = L.rx.slot (k % m) := by
  rw [h.wired.rxCursor, h.moves]

theorem RxOpen.getElem {s : EthState} (h : RxOpen L past a k s) :
    s.arrived[past.length]? = some a := by
  obtain ⟨t, ht⟩ := h.arrival
  simp [← ht]

theorem RxOpen.holds {s : EthState} (h : RxOpen L past a k s) :
    RxHolds L s (past.length % m) a :=
  h.ring.queue.cell past.length a (Nat.le_refl _) h.getElem

/-- OWN is set in the descriptor of the head exactly if there is nothing to read. -/
theorem RxRing.own_iff {s : EthState} (h : RxRing L past past.length s) :
    (s.desc s.dmaRxDescToGet).Own ↔ s.arrived = past := by
  rw [h.cursor]
  have hempty := h.queue.free_head_iff (fun i x hx => hx.not_own) L.rx_pos
  rw [hempty]
  constructor
  · intro hlen
    exact (h.past.eq_of_length hlen.symm).symm
  · intro heq
    rw [heq]

theorem RxRing.open {s : EthState} (h : RxRing L past past.length s)
    (hheld : ¬ (s.desc s.dmaRxDescToGet).Own) : ∃ a, RxOpen L past a past.length s := by
  obtain ⟨t, ht⟩ := h.past
  cases t with
  | nil =>
      rw [List.append_nil] at ht
      exact absurd (h.own_iff.mpr ht.symm) hheld
  | cons a t =>
      refine ⟨a, h, t, ?_⟩
      rw [← ht, List.append_assoc, List.singleton_append]

/-- Setting OWN in the descriptor of the head. -/
theorem RxOpen.give {s : EthState} (h : RxOpen L past a k s) (status : Word)
    (hown : status &&& ethDmaRxDescOwn ≠ 0) :
    RxAccess L s (s.putDesc (L.rx.slot (past.length % m))
        { s.desc (L.rx.slot (past.length % m)) with status := status }) ∧
      RxRing L (past ++ [a]) k (s.putDesc (L.rx.slot (past.length % m))
        { s.desc (L.rx.slot (past.length % m)) with status := status }) := by
  have hlt := L.rx_mod past.length
  have hacc : RxAccess L s _ := .give (past.length % m) status hlt h.holds.not_own
  have hother : ∀ i, i < m → i ≠ past.length % m →
      (s.putDesc (L.rx.slot (past.length % m))
        { s.desc (L.rx.slot (past.length % m)) with status := status }).desc (L.rx.slot i) =
        s.desc (L.rx.slot i) := by
    intro i hi hne
    exact s.putDesc_other _ (L.rx_ne_rx hi hlt hne)
  refine ⟨hacc, hacc.wired h.ring.wired, h.ring.moves, ?_, h.arrival⟩
  rw [List.length_append, List.length_singleton]
  apply h.ring.queue.pop (List.getElem?_eq_some_iff.mp h.getElem).1
  · rw [s.putDesc_self]
    exact hown
  · intro i x hi hne hx
    exact hx.congr (hother i hi hne) fun _ _ => rfl
  · intro i hi hne hx
    rwa [hother i hi hne]

/-- Byte `j` of the arrival is byte `j` of the buffer. -/
theorem RxHolds.ram {s : EthState} {i : Nat} (h : RxHolds L s i a) {j : Nat}
    (hj : j < a.bytes.length) : s.ram (L.rxBuf.slot i + BitVec.ofNat 32 j) = a.bytes[j] := by
  have hget := congrArg (fun bytes => bytes[j]?) h.bytes
  simp only [readBytes, List.getElem?_map, List.getElem?_range hj, Option.map_some,
    List.getElem?_eq_getElem hj, Option.some.injEq] at hget
  exact hget

theorem RxOpen.noteLoad {s : EthState} (h : RxOpen L past a k s) (addr : Word) :
    RxOpen L past a k (s.noteLoad addr) :=
  ⟨h.ring.frame { h.ring.wired with } rfl rfl (fun _ _ => rfl) fun _ _ _ _ => rfl, h.arrival⟩

/-- The length of a good frame without its CRC. -/
theorem Arrival.rxFrameLength_sub (a : Arrival) (hgood : RxGood a.status) :
    (rxFrameLength a.status - 4).toNat = a.bytes.length - 4 := by
  obtain ⟨hlen, hcrc⟩ := a.goodLength hgood
  have hlt := (rxFrameLength a.status).isLt
  rw [BitVec.toNat_sub, hlen]
  simp only [BitVec.ofNat_eq_ofNat, BitVec.toNat_ofNat]
  omega

/-- What the receive functions return of an arrival: length and bytes of the frame without its CRC,
    or `ETH_ERROR`. -/
def rxResult (a : Arrival) (stamp : Option (Word × Word)) : EthResult :=
  if RxGood a.status then
    ⟨rxFrameLength a.status - 4, a.bytes.take (a.bytes.length - 4), stamp⟩
  else ⟨ethError, [], stamp⟩

/-! ## The pieces of the call -/

section Calls

variable {A : EthState → EthState → Prop}

theorem RxOpen.wp_loadStatus {s : EthState} (h : RxOpen L past a past.length s) :
    (loadDesc (·.dmaRxDescToGet) (·.status)).wp EthHw A (RxAccess L)
      (fun v s => v = a.status ∧ RxOpen L past a past.length s) s := by
  apply wp_loadDesc RxOpen.stable h
  intro s h
  rw [h.ring.cursor]
  exact ⟨.read, h.holds.status, h⟩

theorem RxOpen.wp_rxGoodTest {s : EthState} (h : RxOpen L past a past.length s) :
    rxGoodTest.wp EthHw A (RxAccess L)
      (fun good s => good = decide (RxGood a.status) ∧ RxOpen L past a past.length s) s := by
  refine Eth.wp_rxGoodTest RxOpen.stable (fun s h => ?_) (fun _ => .read) h
  rw [h.ring.cursor]
  exact h.holds.status

/-- The copy loop from offset `offset` on. -/
theorem RxOpen.wp_copyFromBuffer {s : EthState} (h : RxOpen L past a past.length s)
    (left offset : Nat) (hfits : offset + left ≤ a.bytes.length) :
    (copyFromBuffer (·.dmaRxDescToGet) left offset).wp EthHw A (RxAccess L)
      (fun bytes s => bytes = (a.bytes.drop offset).take left ∧ RxOpen L past a past.length s)
      s := by
  induction left generalizing offset s with
  | zero => exact ⟨by simp, h⟩
  | succ left ih =>
      have hlt : offset < a.bytes.length := by omega
      rw [copyFromBuffer, Prog.wp_bind]
      apply wp_loadDesc RxOpen.stable h
      intro s h
      rw [h.ring.cursor, (h.ring.wired.rx _ (L.rx_mod _)).buffer, Prog.wp_bind]
      refine ⟨.read, ?_⟩
      apply wp_loadByte RxOpen.stable h
      intro s h _
      rw [h.holds.ram hlt]
      refine ⟨.load _, ?_⟩
      apply Prog.wp_seq (ih (h.noteLoad _) (offset + 1) (by omega))
      rintro rest s ⟨rfl, h⟩
      refine ⟨?_, h⟩
      rw [List.drop_eq_getElem_cons hlt, List.take_succ_cons]

theorem RxOpen.wp_copyFrame {s : EthState} (h : RxOpen L past a past.length s)
    (hgood : RxGood a.status) :
    (copyFrame (·.dmaRxDescToGet)).wp EthHw A (RxAccess L)
      (fun r s => r = (rxFrameLength a.status - 4, a.bytes.take (a.bytes.length - 4)) ∧
        RxOpen L past a past.length s) s := by
  apply Prog.wp_seq h.wp_loadStatus
  rintro status s ⟨rfl, h⟩
  have hlen := a.rxFrameLength_sub hgood
  apply Prog.wp_seq (h.wp_copyFromBuffer (rxFrameLength a.status - 4).toNat 0 (by omega))
  rintro bytes s ⟨rfl, h⟩
  rw [hlen, List.drop_zero]
  exact ⟨rfl, h⟩

theorem RxOpen.wp_rxFrame {s : EthState} (h : RxOpen L past a past.length s) :
    (rxFrame (·.dmaRxDescToGet)).wp EthHw A (RxAccess L)
      (fun r s => rxResult a none = ⟨r.1, r.2, none⟩ ∧ RxOpen L past a past.length s) s := by
  apply Prog.wp_seq h.wp_rxGoodTest
  rintro good s ⟨rfl, h⟩
  by_cases hgood : RxGood a.status
  · rw [if_pos (decide_eq_true hgood)]
    apply Prog.wp_mono (h.wp_copyFrame hgood)
    rintro r s ⟨rfl, h⟩
    exact ⟨by rw [rxResult, if_pos hgood], h⟩
  · rw [if_neg (by simpa using hgood)]
    exact ⟨by rw [rxResult, if_neg hgood], h⟩

theorem RxRing.wp_resumeRx {s : EthState} (h : RxRing L past k s) :
    resumeRx.wp EthHw A (RxAccess L) (fun _ => RxRing L past k) s := by
  rw [resumeRx, Prog.wp_bind]
  apply Prog.wp_get RxRing.stable h
  intro s h
  refine ⟨.read, ?_⟩
  split
  · rw [Prog.wp_bind]
    apply Prog.wp_put RxRing.stable h
    intro s h _
    have hclear : RxRing L past k { s with dmaSts := s.dmaSts &&& ~~~ethDmaStsRbu } :=
      h.frame { h.wired with } rfl rfl (fun _ _ => rfl) fun _ _ _ _ => rfl
    refine ⟨.sts _, ?_⟩
    apply Prog.wp_put RxRing.stable hclear
    intro s h _
    have hacc : RxAccess L s s.pollRx := .poll
    have hw := hacc.wired h.wired
    refine ⟨hacc, ?_⟩
    obtain ⟨r, v, heq⟩ := s.pollRx_eq
    rw [heq] at hw ⊢
    exact h.frame hw rfl rfl (fun _ _ => rfl) fun _ _ _ _ => rfl
  · exact h

theorem RxRing.wp_move {s : EthState} (h : RxRing L past k s) :
    (setRxCursor fun s => (s.desc s.dmaRxDescToGet).buffer2NextDescAddr).wp EthHw A (RxAccess L)
      (fun _ => RxRing L past (k + 1)) s := by
  apply Prog.wp_put RxRing.stable h
  intro s h _
  have hlink : (s.desc s.dmaRxDescToGet).buffer2NextDescAddr = L.rx.slot ((s.rxMoves + 1) % m) := by
    rw [h.cursor, (h.wired.rx _ (L.rx_mod k)).link, h.moves, Nat.mod_add_mod]
  simp only [hlink]
  have hacc : RxAccess L s _ := .move
  refine ⟨hacc, hacc.wired h.wired, congrArg (· + 1) h.moves, ?_, h.past⟩
  apply h.queue.transfer L.rx_pos
  · intro i x hi hx
    exact hx.congr rfl fun _ _ => rfl
  · intro i _ hfree
    exact hfree

theorem RxRing.wp_advanceRx {s : EthState} (h : RxRing L past k s) :
    advanceRx.wp EthHw A (RxAccess L) (fun _ => RxRing L past (k + 1)) s := by
  rw [advanceRx, Prog.wp_bind]
  apply wp_loadDesc RxRing.stable h
  intro s h
  have hrch := (h.wired.rx _ (L.rx_mod k)).rch
  rw [h.cursor, if_pos hrch]
  exact ⟨.read, h.wp_move⟩

theorem RxOpen.wp_give {s : EthState} (h : RxOpen L past a past.length s) :
    (storeStatus (·.dmaRxDescToGet) ethDmaRxDescOwn).wp EthHw A (RxAccess L)
      (fun _ => RxRing L (past ++ [a]) past.length) s := by
  apply Eth.wp_storeDesc RxOpen.stable h
  intro s h _
  rw [h.ring.cursor]
  exact h.give ethDmaRxDescOwn (by decide)

/-- What `ETH_HandleRxPkt` does after it has loaded the status word: if this says that nothing has
    arrived, nothing; otherwise it returns the oldest arrival and gives its descriptor back. -/
theorem RxRing.wp_loaded {s : EthState} (h : RxRing L past past.length s) :
    (if (s.desc s.dmaRxDescToGet).status &&& ethDmaRxDescOwn ≠ 0 then pure (.code ethError) else do
        let frame ← rxFrame (·.dmaRxDescToGet)
        storeStatus (·.dmaRxDescToGet) ethDmaRxDescOwn
        resumeRx
        advanceRx
        return ⟨frame.1, frame.2, none⟩ : EthProg EthResult).wp EthHw A (RxAccess L)
      (fun r s' => if (s.desc s.dmaRxDescToGet).Own then
          r = .code ethError ∧ RxRing L past past.length s'
        else ∃ a, r = rxResult a none ∧ RxRing L (past ++ [a]) (past ++ [a]).length s') s := by
  by_cases hown : (s.desc s.dmaRxDescToGet).Own
  · have hset : (s.desc s.dmaRxDescToGet).status &&& ethDmaRxDescOwn ≠ 0 := hown
    simp only [if_pos hset, if_pos hown]
    exact ⟨rfl, h⟩
  · have hclear : ¬ (s.desc s.dmaRxDescToGet).status &&& ethDmaRxDescOwn ≠ 0 := hown
    simp only [if_neg hclear, if_neg hown]
    obtain ⟨a, hopen⟩ := h.open hown
    apply Prog.wp_seq hopen.wp_rxFrame
    rintro r s ⟨hr, h⟩
    apply Prog.wp_seq h.wp_give
    intro _ s h
    apply Prog.wp_seq h.wp_resumeRx
    intro _ s h
    apply Prog.wp_seq h.wp_advanceRx
    intro _ s h
    exact ⟨a, hr.symm, by simpa using h⟩

end Calls

end Eth
