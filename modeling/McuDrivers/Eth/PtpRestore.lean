import McuDrivers.Eth.Ptp

set_option autoImplicit false

/-! # Ethernet: time stamps in place of addresses

When the DMA closes a descriptor with a time stamp it stores the stamp over the two addresses. The
driver has these addresses in the shadow table and moves its own cursor by them, but it does not
store them back before it sets OWN again. So the addresses in the descriptors that the DMA owns are
good as long as no descriptor is handed over a second time after it was stamped, and no packet is
copied beside its buffer. -/

namespace Eth

variable {n m : Nat}

/-- The calls of a driver that takes time stamps: packets that fit a buffer, and receptions. -/
def ptpCalls : Discipline EthState EthCall :=
  .onEntry fun k _ => match k with
    | .handlePtpTxPkt _ frameLength => frameLength.toNat ≤ ethMaxPacketSize
    | .handlePtpRxPkt => True
    | _ => False

/-- An access that stores, if it stores at all, into a packet buffer or a descriptor of the tables. In
    the state these are apart from each other and from everything else, so what a stray store does to
    them is not to be seen there. -/
def StoresInTables (L : PtpLayout n m) (s s' : EthState) : Prop :=
  (∀ a ∈ s'.stored, a ∈ s.stored ∨ ∃ i j, i < n ∧ j < ethMaxPacketSize ∧ a = L.txBuf.byte i j) ∧
    ∀ a ∈ s'.descStored, a ∈ s.descStored ∨
      (∃ i, i < n ∧ a = L.tx.slot i) ∨ ∃ i, i < m ∧ a = L.rx.slot i

/-- Calls whose stores set OWN only in descriptors that the DMA has never closed with a time stamp,
    and do not go astray. -/
def ptpCallsUnstamped (L : PtpLayout n m) : Discipline EthState EthCall where
  entry := ptpCalls.entry
  access := fun _ s s' => StoresInTables L s s' ∧
    ∀ a, ¬ (s.desc a).Own → (s'.desc a).Own → a ∉ s.stamped

/-- A descriptor that the DMA owns holds the addresses that its initialisation stored; in particular
    neither engine takes a time stamp for an address. -/
structure PtpRestored (L : PtpLayout n m) (s : EthState) : Prop where
  tx : ∀ i, i < n → (s.desc (L.tx.slot i)).Own →
    (s.desc (L.tx.slot i)).buffer1Addr = L.txBuf.slot i ∧
      (s.desc (L.tx.slot i)).buffer2NextDescAddr = L.tx.slot ((i + 1) % n)
  rx : ∀ i, i < m → (s.desc (L.rx.slot i)).Own →
    (s.desc (L.rx.slot i)).buffer1Addr = L.rxBuf.slot i ∧
      (s.desc (L.rx.slot i)).buffer2NextDescAddr = L.rx.slot ((i + 1) % m)
  txEngine : (s.desc s.txCur).Own → s.txCur ∉ s.stamped
  rxEngine : (s.desc s.rxCur).Own → s.rxCur ∉ s.stamped

/-! ## Stamped descriptors -/

def SameAddrs (d d' : EthDmaDesc) : Prop :=
  d.buffer1Addr = d'.buffer1Addr ∧ d.buffer2NextDescAddr = d'.buffer2NextDescAddr

/-- Descriptors without a stamp are as they were at the start `s₀`, and only they are owned. -/
structure Unstamped (s₀ s : EthState) : Prop where
  addrs : ∀ a, a ∉ s.stamped → SameAddrs (s.desc a) (s₀.desc a)
  own : ∀ a, (s.desc a).Own → a ∉ s.stamped

section Invariant

variable {s₀ s s' : EthState}

/-- An engine closes the descriptor at `a`, with a stamp or without. -/
theorem Unstamped.close (h : Unstamped s₀ s) {a : Word} {d : EthDmaDesc} {P : Prop} [Decidable P]
    (hdesc : s'.desc = Function.update s.desc a d)
    (hstamped : s'.stamped = if P then s.stamped ++ [a] else s.stamped) (hown : ¬ d.Own)
    (haddrs : ¬ P → SameAddrs d (s.desc a)) : Unstamped s₀ s' := by
  refine ⟨fun b hb => ?_, fun b hb => ?_⟩
  · by_cases hba : b = a
    · subst hba
      have hP : ¬ P := by
        intro hP
        rw [hstamped, if_pos hP] at hb
        exact hb (by simp)
      rw [hstamped, if_neg hP] at hb
      rw [hdesc, Function.update_self]
      obtain ⟨h1, h2⟩ := haddrs hP
      obtain ⟨h3, h4⟩ := h.addrs b hb
      exact ⟨h1.trans h3, h2.trans h4⟩
    · rw [hdesc, Function.update_of_ne hba]
      refine h.addrs b fun hmem => hb ?_
      rw [hstamped]
      split
      · exact List.mem_append_left _ hmem
      · exact hmem
  · by_cases hba : b = a
    · subst hba
      rw [hdesc, Function.update_self] at hb
      exact absurd hb hown
    · rw [hdesc, Function.update_of_ne hba] at hb
      have hold := h.own b hb
      rw [hstamped]
      split
      · simp [hold, hba]
      · exact hold

theorem Unstamped.hw (h : Unstamped s₀ s) (hs : EthHw s s') : Unstamped s₀ s' := by
  cases hs with
  | send wb stamp hown =>
      refine h.close (P := s.TxStamps s.txCur) rfl rfl (txClosed_not_own s _ wb stamp) fun hno => ?_
      rw [EthState.txClosed, if_neg hno]
      exact ⟨rfl, rfl⟩
  | txUnavailable hown => exact ⟨h.addrs, h.own⟩
  | fill a stamp hown hawake hfits =>
      refine h.close (P := s.RxStamps a.status) rfl rfl ?_ fun hno => ?_
      · have hclosed : (s.rxClosed s.rxCur a.status stamp).status = a.status := by
          unfold EthState.rxClosed
          split <;> rfl
        rw [EthDmaDesc.Own, hclosed, not_not]
        exact a.notOwn
      · rw [EthState.rxClosed, if_neg hno]
        exact ⟨rfl, rfl⟩
  | rxUnavailable hown hawake => exact ⟨h.addrs, h.own⟩

/-- What the driver's accesses leave alone. -/
def AddrsKept (s s' : EthState) : Prop :=
  s'.stamped = s.stamped ∧ ∀ a, SameAddrs (s'.desc a) (s.desc a)

theorem AddrsKept.refl (s : EthState) : AddrsKept s s := ⟨rfl, fun _ => ⟨rfl, rfl⟩⟩

theorem AddrsKept.putDesc (s : EthState) {a : Word} {d : EthDmaDesc} (h : SameAddrs d (s.desc a)) :
    AddrsKept s (s.putDesc a d) := by
  refine ⟨rfl, fun b => ?_⟩
  by_cases hba : b = a
  · subst hba
    rwa [s.putDesc_self]
  · rw [s.putDesc_other d hba]
    exact ⟨rfl, rfl⟩

theorem Unstamped.access (h : Unstamped s₀ s) (hkept : AddrsKept s s')
    (hfresh : ∀ a, ¬ (s.desc a).Own → (s'.desc a).Own → a ∉ s.stamped) : Unstamped s₀ s' := by
  obtain ⟨hstamped, haddrs⟩ := hkept
  refine ⟨fun a ha => ?_, fun a ha => ?_⟩
  · rw [hstamped] at ha
    obtain ⟨h1, h2⟩ := haddrs a
    obtain ⟨h3, h4⟩ := h.addrs a ha
    exact ⟨h1.trans h3, h2.trans h4⟩
  · rw [hstamped]
    by_cases hold : (s.desc a).Own
    · exact h.own a hold
    · exact hfresh a hold ha

end Invariant

theorem ethHandlePtpTxPkt_addrs (ppkt : Nat → Byte) (frameLength : BitVec 16) :
    (ethHandlePtpTxPkt ppkt frameLength).Accesses AddrsKept :=
  ethHandlePtpTxPkt_accesses AddrsKept.refl (fun s _ _ => .refl s)
    (fun s _ _ => .putDesc s ⟨rfl, rfl⟩) (fun s _ => .refl s) (fun s _ => .refl s)
    (fun s _ => .refl s) ppkt frameLength

theorem ethHandlePtpRxPkt_addrs : ethHandlePtpRxPkt.Accesses AddrsKept := by
  refine ethHandlePtpRxPkt_accesses AddrsKept.refl (fun s _ => .refl s)
    (fun s _ => .putDesc s ⟨rfl, rfl⟩) (fun s _ => .refl s) (fun s => ?_) (fun s _ => .refl s)
    (fun s _ => .refl s)
  obtain ⟨r, v, heq⟩ := s.pollRx_eq
  rw [heq]
  exact .refl s

theorem ptpRestore_sound (L : PtpLayout n m) (s₀ : EthState) :
    ethSystem.Sound (ptpCallsUnstamped L) (fun _ => Unstamped s₀) (fun _ _ => Unstamped s₀) where
  hw := fun _ _ _ h hs => h.hw hs
  body := by
    intro k _ s h hentry
    have hstep : ∀ s s', Unstamped s₀ s → (ptpCallsUnstamped L).access k s s' → AddrsKept s s' →
        Unstamped s₀ s' ∧ Unstamped s₀ s' :=
      fun _ _ h ha hkept => ⟨h.access hkept ha.2, h.access hkept ha.2⟩
    cases k with
    | handlePtpTxPkt ppkt frameLength =>
        exact Prog.wp_of_admitted (ethHandlePtpTxPkt_addrs ppkt frameLength)
          (fun _ _ h hs => h.hw hs) hstep h
    | handlePtpRxPkt =>
        exact Prog.wp_of_admitted ethHandlePtpRxPkt_addrs (fun _ _ h hs => h.hw hs) hstep h
    | handleTxPkt => exact absurd hentry id
    | handleRxPkt => exact absurd hentry id
    | dropRxPkt => exact absurd hentry id

/-! ## Handing a descriptor over -/

theorem AddrsKept.trans {s t u : EthState} (h : AddrsKept s t) (h' : AddrsKept t u) :
    AddrsKept s u := by
  refine ⟨h'.1.trans h.1, fun a => ?_⟩
  obtain ⟨h1, h2⟩ := h.2 a
  obtain ⟨h3, h4⟩ := h'.2 a
  exact ⟨h3.trans h1, h4.trans h2⟩

section Alone

/-- Nobody interferes. -/
theorem stable_alone (P : EthState → Prop) : Prog.Stable (fun _ _ => False) P :=
  fun _ _ _ h => h.elim

variable {A : EthState → EthState → Prop} {s : EthState} {ptr : EthState → Word} {a : Word}

/-- `ptr->Status |= OWN` -/
theorem wp_setOwn (h : ptr s = a) (hput : ∀ s d, ptr (s.putDesc a d) = ptr s) :
    (orStatus ptr ethDmaTxDescOwn).wp (fun _ _ => False) A (fun _ _ => True)
      (fun _ s => ptr s = a ∧ (s.desc a).Own) s := by
  rw [orStatus, Prog.wp_bind]
  apply wp_loadDesc (stable_alone fun s => ptr s = a) h
  intro s h
  refine ⟨trivial, ?_⟩
  generalize (s.desc (ptr s)).status = status
  apply wp_storeDesc (stable_alone fun s => ptr s = a) h
  intro s h _
  rw [h]
  refine ⟨trivial, (hput s _).trans h, ?_⟩
  have hown : (status ||| ethDmaTxDescOwn) &&& ethDmaTxDescOwn ≠ 0 := by
    rw [Mask.or_and_of_subset _ (by decide)]
    decide
  rwa [s.putDesc_self]

/-- `ptr->Status &= mask`, where `mask` keeps OWN. -/
theorem wp_keepOwn {mask : Word} (hmask : mask &&& ethDmaTxDescOwn = ethDmaTxDescOwn)
    (h : ptr s = a ∧ (s.desc a).Own) (hput : ∀ s d, ptr (s.putDesc a d) = ptr s) :
    (andStatus ptr mask).wp (fun _ _ => False) A (fun _ _ => True)
      (fun _ s => ptr s = a ∧ (s.desc a).Own) s := by
  rw [andStatus, Prog.wp_bind]
  apply wp_loadDesc (stable_alone fun s => ptr s = a ∧ (s.desc a).Own) h
  intro s ⟨hptr, hown⟩
  refine ⟨trivial, ?_⟩
  rw [hptr]
  apply wp_storeDesc (stable_alone fun t => ptr t = a) hptr
  intro t h _
  rw [h]
  refine ⟨trivial, (hput t _).trans h, ?_⟩
  have hkept : ((s.desc a).status &&& mask) &&& ethDmaTxDescOwn ≠ 0 := by
    rw [Mask.and_and_of_subset _ hmask]
    exact hown
  rwa [t.putDesc_self]

/-- What does not touch the cursor and no status word. -/
theorem wp_heldOwn {α : Type} {p : EthProg α} (hp : p.Accesses fun s s' => s'.desc = s.desc)
    (h : (s.desc a).Own) :
    p.wp (fun _ _ => False) A (fun _ _ => True) (fun _ s => (s.desc a).Own) s :=
  Prog.wp_of_admitted hp (stable_alone fun s => (s.desc a).Own)
    (fun _ _ h _ heq => ⟨trivial, heq ▸ h⟩) h

end Alone

/-- A transmit call that finds its descriptor free hands it over. -/
theorem ethHandlePtpTxPkt_own {s : EthState} {a : Word} (hcursor : s.dmaTxDescToSet = a)
    (hfree : ¬ (s.desc a).Own) (ppkt : Nat → Byte) (frameLength : BitVec 16) :
    (((ethHandlePtpTxPkt ppkt frameLength).exec s).2.desc a).Own := by
  let P : EthState → Prop := fun t => t.dmaTxDescToSet = a
  let P' : EthState → Prop := fun t => t.dmaTxDescToSet = a ∧ (t.desc a).Own
  have hwp : (ethHandlePtpTxPkt ppkt frameLength).wp (fun _ _ => False) (fun _ _ => True)
      (fun _ _ => True) (fun _ t => (t.desc a).Own) s := by
    rw [ethHandlePtpTxPkt, Prog.wp_bind]
    apply wp_loadDesc (stable_alone fun t => P t ∧ ¬ (t.desc a).Own) ⟨hcursor, hfree⟩
    intro s ⟨h, hfree⟩
    refine ⟨trivial, ?_⟩
    have hclear : ¬ (s.desc s.dmaTxDescToSet).status &&& ethDmaTxDescOwn ≠ 0 := by
      rw [h]
      exact hfree
    rw [if_neg hclear]
    apply Prog.wp_seq (Prog.wp_of_accesses (copyToBuffer_accesses (fun _ h => h) (fun _ _ _ h => h)
      _ _ _ _) (stable_alone P) (fun _ _ _ _ => trivial) h)
    intro _ s h
    rw [Prog.wp_bind]
    apply wp_storeDesc (stable_alone P) h
    intro s h _
    have hlen : P (s.putDesc s.dmaTxDescToSet { s.desc s.dmaTxDescToSet with
      controlBufferSize := frameLength.setWidth 32 &&& 0x1FFF }) := h
    refine ⟨trivial, ?_⟩
    apply Prog.wp_seq (Prog.wp_of_accesses (orStatus_accesses (fun _ h => h) (fun _ _ h => h))
      (stable_alone P) (fun _ _ _ _ => trivial) hlen)
    intro _ s h
    apply Prog.wp_seq (wp_setOwn h (fun _ _ => rfl))
    intro _ s h
    apply Prog.wp_seq (Prog.wp_of_accesses (resumeTx_accesses (fun _ h => h) (fun _ _ h => h))
      (stable_alone P') (fun _ _ _ _ => trivial) h)
    intro _ s h
    apply Prog.wp_seq (Prog.wp_of_accesses (waitTtss_accesses (fun _ h => h) _ _)
      (stable_alone P') (fun _ _ _ _ => trivial) h)
    intro timeout s h
    split
    · exact h.2
    · apply Prog.wp_seq (wp_keepOwn (by decide) h (fun _ _ => rfl))
      intro _ s h
      apply Prog.wp_seq (Prog.wp_of_accesses (loadStamp_accesses (fun _ h => h) _)
        (stable_alone P') (fun _ _ _ _ => trivial) h)
      intro stamp s h
      apply Prog.wp_seq (wp_heldOwn (advancePtpTx_accesses (fun _ => rfl) (fun _ _ => rfl)
        (fun _ _ => rfl)) h.2)
      intro _ s h
      exact h
  exact Prog.exec_of_wp hwp fun _ _ => trivial

theorem ethHandlePtpRxPkt_own {s : EthState} {a : Word} (hcursor : s.dmaRxDescToGet = a)
    (hfree : ¬ (s.desc a).Own) : ((ethHandlePtpRxPkt.exec s).2.desc a).Own := by
  let P : EthState → Prop := fun t => t.dmaRxDescToGet = a
  have hwp : ethHandlePtpRxPkt.wp (fun _ _ => False) (fun _ _ => True) (fun _ _ => True)
      (fun _ t => (t.desc a).Own) s := by
    rw [ethHandlePtpRxPkt, Prog.wp_bind]
    apply wp_loadDesc (stable_alone fun t => P t ∧ ¬ (t.desc a).Own) ⟨hcursor, hfree⟩
    intro s ⟨h, hfree⟩
    refine ⟨trivial, ?_⟩
    have hclear : ¬ (s.desc s.dmaRxDescToGet).status &&& ethDmaRxDescOwn ≠ 0 := by
      rw [h]
      exact hfree
    rw [if_neg hclear]
    apply Prog.wp_seq (Prog.wp_of_accesses (rxFrame_accesses (fun _ h => h) (fun _ _ h => h) _)
      (stable_alone P) (fun _ _ _ _ => trivial) h)
    intro frame s h
    have hpoll : ∀ t, P t → P t.pollRx := by
      intro t h
      obtain ⟨r, v, heq⟩ := t.pollRx_eq
      rw [heq]
      exact h
    apply Prog.wp_seq (Prog.wp_of_accesses (resumeRx_accesses (fun _ h => h) (fun _ _ h => h) hpoll)
      (stable_alone P) (fun _ _ _ _ => trivial) h)
    intro _ s h
    apply Prog.wp_seq (Prog.wp_of_accesses (loadStamp_accesses (fun _ h => h) _)
      (stable_alone P) (fun _ _ _ _ => trivial) h)
    intro stamp s h
    apply Prog.wp_seq (wp_setOwn h (fun _ _ => rfl))
    intro _ s h
    apply Prog.wp_seq (wp_heldOwn (advancePtpRx_accesses (fun _ => rfl) (fun _ _ => rfl)
      (fun _ _ => rfl)) h.2)
    intro _ s h
    exact h
  exact Prog.exec_of_wp hwp fun _ _ => trivial

/-! ## The addresses of owned descriptors -/

section Start

variable (L : PtpLayout n m) (desc : Word → EthDmaDesc) (ram : Word → Byte) (dmaSts dmaBm : Word)
  (timeStamping : Bool)

theorem ptpStart_unstamped :
    Unstamped (ptpStart L desc ram dmaSts dmaBm timeStamping)
      (ptpStart L desc ram dmaSts dmaBm timeStamping) := by
  obtain ⟨D, hstart, -⟩ := ptpStart_spec L desc ram dmaSts dmaBm timeStamping
  refine ⟨fun _ _ => ⟨rfl, rfl⟩, fun a _ => ?_⟩
  rw [hstart]
  exact List.not_mem_nil

variable {L desc ram dmaSts dmaBm timeStamping}

theorem Unstamped.restored {s : EthState}
    (h : Unstamped (ptpStart L desc ram dmaSts dmaBm timeStamping) s) : PtpRestored L s := by
  obtain ⟨D, hstart, htab⟩ := ptpStart_spec L desc ram dmaSts dmaBm timeStamping
  refine ⟨fun i hi hown => ?_, fun i hi hown => ?_, h.own _, h.own _⟩
  · obtain ⟨hbuf, hnext⟩ := h.addrs _ (h.own _ hown)
    rw [hbuf, hnext, hstart]
    simp only [htab.tx i hi, and_self]
  · obtain ⟨hbuf, hnext⟩ := h.addrs _ (h.own _ hown)
    rw [hbuf, hnext, hstart]
    simp only [htab.rx i hi, and_self]

end Start

/-- A run of one call alone from an idle state. -/
theorem ptpCall_reach {c : Config EthState EthCall EthResult} (hidle : c.running = none)
    {k : EthCall} (hk : ptpCalls.entry k c.st) (hact : ∀ r, k.body ≠ .ret r) :
    ∃ c', ethSystem.Reach ptpCalls c c' ∧ c'.running = none ∧ c'.st = (k.body.exec c.st).2 := by
  obtain ⟨s, running, done⟩ := c
  cases hidle
  exact ⟨_, System.Reach.call ethSystem (D := ptpCalls) hk (fun _ _ => trivial) hact done, rfl, rfl⟩

/-- A call that begins at a free descriptor whose addresses have changed hands these over. -/
theorem ethHandlePtpTxPkt_changed {L : PtpLayout n m} {s : EthState} {i : Nat} (hi : i < n)
    (hcursor : s.dmaTxDescToSet = L.tx.slot i) (hfree : ¬ (s.desc (L.tx.slot i)).Own)
    (hchanged : ¬ ((s.desc (L.tx.slot i)).buffer1Addr = L.txBuf.slot i ∧
      (s.desc (L.tx.slot i)).buffer2NextDescAddr = L.tx.slot ((i + 1) % n)))
    (ppkt : Nat → Byte) (frameLength : BitVec 16) :
    ¬ PtpRestored L ((ethHandlePtpTxPkt ppkt frameLength).exec s).2 := by
  intro hrestored
  obtain ⟨hbuf, hnext⟩ := (Prog.exec_of_accesses (ethHandlePtpTxPkt_addrs ppkt frameLength)
    AddrsKept.refl AddrsKept.trans s).2 (L.tx.slot i)
  obtain ⟨hbuf', hnext'⟩ :=
    hrestored.tx i hi (ethHandlePtpTxPkt_own hcursor hfree ppkt frameLength)
  exact hchanged ⟨hbuf.symm.trans hbuf', hnext.symm.trans hnext'⟩

theorem ethHandlePtpRxPkt_changed {L : PtpLayout n m} {s : EthState} {i : Nat} (hi : i < m)
    (hcursor : s.dmaRxDescToGet = L.rx.slot i) (hfree : ¬ (s.desc (L.rx.slot i)).Own)
    (hchanged : ¬ ((s.desc (L.rx.slot i)).buffer1Addr = L.rxBuf.slot i ∧
      (s.desc (L.rx.slot i)).buffer2NextDescAddr = L.rx.slot ((i + 1) % m))) :
    ¬ PtpRestored L (ethHandlePtpRxPkt.exec s).2 := by
  intro hrestored
  obtain ⟨hbuf, hnext⟩ := (Prog.exec_of_accesses ethHandlePtpRxPkt_addrs
    AddrsKept.refl AddrsKept.trans s).2 (L.rx.slot i)
  obtain ⟨hbuf', hnext'⟩ := hrestored.rx i hi (ethHandlePtpRxPkt_own hcursor hfree)
  exact hchanged ⟨hbuf.symm.trans hbuf', hnext.symm.trans hnext'⟩

/-- **Owned descriptors hold their addresses as long as none is handed over after it was stamped**;
    a call that begins at a free descriptor whose addresses a stamp has changed hands these over. -/
theorem ptp_restored (L : PtpLayout n m) (desc : Word → EthDmaDesc) (ram : Word → Byte)
    (dmaSts dmaBm : Word) (timeStamping : Bool) (c : Config EthState EthCall EthResult)
    (h : ethSystem.Reach (ptpCallsUnstamped L)
      (.start (ptpStart L desc ram dmaSts dmaBm timeStamping)) c) :
    PtpRestored L c.st ∧
      (c.running = none → ∀ i, i < n → c.st.dmaTxDescToSet = L.tx.slot i →
        ¬ (c.st.desc (L.tx.slot i)).Own →
        ¬ ((c.st.desc (L.tx.slot i)).buffer1Addr = L.txBuf.slot i ∧
          (c.st.desc (L.tx.slot i)).buffer2NextDescAddr = L.tx.slot ((i + 1) % n)) →
        ∀ ppkt frameLength, frameLength.toNat ≤ ethMaxPacketSize →
          ∃ c', ethSystem.Reach ptpCalls c c' ∧ c'.running = none ∧
            c'.st = ((ethHandlePtpTxPkt ppkt frameLength).exec c.st).2 ∧ ¬ PtpRestored L c'.st) ∧
      (c.running = none → ∀ i, i < m → c.st.dmaRxDescToGet = L.rx.slot i →
        ¬ (c.st.desc (L.rx.slot i)).Own →
        ¬ ((c.st.desc (L.rx.slot i)).buffer1Addr = L.rxBuf.slot i ∧
          (c.st.desc (L.rx.slot i)).buffer2NextDescAddr = L.rx.slot ((i + 1) % m)) →
        ∃ c', ethSystem.Reach ptpCalls c c' ∧ c'.running = none ∧
          c'.st = (ethHandlePtpRxPkt.exec c.st).2 ∧ ¬ PtpRestored L c'.st) := by
  have h₀ := ptpStart_unstamped L desc ram dmaSts dmaBm timeStamping
  have hinv := (ptpRestore_sound L (ptpStart L desc ram dmaSts dmaBm timeStamping)).always
    (I := Unstamped (ptpStart L desc ram dmaSts dmaBm timeStamping)) h₀ h₀
    (fun _ _ h hs => h.hw hs) (fun _ _ _ h _ => h) h
  refine ⟨hinv.restored, ?_, ?_⟩
  · intro hidle i hi hcursor hfree hchanged ppkt frameLength hlen
    obtain ⟨c', hreach, hidle', hst⟩ := ptpCall_reach (k := .handlePtpTxPkt ppkt frameLength) hidle
      hlen (fun _ h => by cases h)
    refine ⟨c', hreach, hidle', hst, ?_⟩
    rw [hst]
    exact ethHandlePtpTxPkt_changed hi hcursor hfree hchanged ppkt frameLength
  · intro hidle i hi hcursor hfree hchanged
    obtain ⟨c', hreach, hidle', hst⟩ := ptpCall_reach (k := .handlePtpRxPkt) hidle trivial
      (fun _ h => by cases h)
    refine ⟨c', hreach, hidle', hst, ?_⟩
    rw [hst]
    exact ethHandlePtpRxPkt_changed hi hcursor hfree hchanged

/-- Zeroed memory, and time stamps. -/
def ptpZeroStart : EthState :=
  ptpStart sramPtpLayout (fun _ => ⟨0, 0, 0, 0⟩) (fun _ => 0) 0 0 true

/-- The first part of a frame that goes on in the next descriptor: it has no time stamp. -/
def partArrival : Arrival where
  status := 0x00050200
  bytes := [1, 2, 3, 4, 5]
  notOwn := by decide
  goodLength := by decide

/-- The descriptor of such a part goes back to the DMA with its addresses. -/
theorem ptp_restored_part : ∃ c,
    ethSystem.Reach (ptpCallsUnstamped sramPtpLayout) (.start ptpZeroStart) c ∧
      c.st.arrived = [partArrival] ∧ c.st.rxMoves = 1 ∧
      (c.st.desc (sramPtpLayout.rx.slot 0)).Own ∧ PtpRestored sramPtpLayout c.st := by
  have hfill : EthHw ptpZeroStart (ptpZeroStart.rxFill partArrival (0x11, 0x22)) :=
    .fill partArrival (0x11, 0x22) (by decide) rfl (by decide)
  -- the call makes one store, into the first descriptor, and nothing is stamped
  have htrace : ∀ a ∈ ethHandlePtpRxPkt.trace (ptpZeroStart.rxFill partArrival (0x11, 0x22)),
      a.2.stored = [] ∧ (a.2.descStored = [] ∨ a.2.descStored = [sramPtpLayout.rx.slot 0]) ∧
        a.1.stamped = [] := by
    decide +kernel
  have hacc : ∀ a ∈ (ethSystem.body .handlePtpRxPkt).trace
      (ptpZeroStart.rxFill partArrival (0x11, 0x22)),
      (ptpCallsUnstamped sramPtpLayout).access .handlePtpRxPkt a.1 a.2 := by
    intro a ha
    obtain ⟨hstored, hdesc, hstamped⟩ := htrace a ha
    refine ⟨⟨by simp [hstored], fun b hb => .inr (.inr ⟨0, by decide, ?_⟩)⟩, by simp [hstamped]⟩
    rcases hdesc with hnone | hone
    · simp [hnone] at hb
    · simpa [hone] using hb
  have hreach := Relation.ReflTransGen.head (.hw hfill) (System.Reach.callTrace ethSystem
    (D := ptpCallsUnstamped sramPtpLayout) (k := .handlePtpRxPkt) trivial hacc (fun _ h => by cases h) [])
  exact ⟨_, hreach, rfl, by decide, by decide,
    (ptp_restored sramPtpLayout (fun _ => ⟨0, 0, 0, 0⟩) (fun _ => 0) 0 0 true _ hreach).1⟩

/-- A frame arrives with the time stamp 0x11, 0x22, and its descriptor goes back to the DMA with these
    two words for addresses. -/
theorem ptp_not_restored : ∃ c,
    ethSystem.Reach ptpCalls (.start ptpZeroStart) c ∧ c.running = none ∧
      ¬ PtpRestored sramPtpLayout c.st := by
  have hfill : EthHw ptpZeroStart (ptpZeroStart.rxFill goodArrival (0x11, 0x22)) :=
    .fill goodArrival (0x11, 0x22) (by decide) rfl (by decide)
  obtain ⟨c, hreach, hidle, hst⟩ := ptpCall_reach (k := .handlePtpRxPkt)
    (c := .start (ptpZeroStart.rxFill goodArrival (0x11, 0x22))) rfl trivial (fun _ h => by cases h)
  refine ⟨c, .head (.hw hfill) hreach, hidle, ?_⟩
  rw [hst]
  exact ethHandlePtpRxPkt_changed (i := 0) (by decide) (by decide) (by decide) (by decide)

end Eth
