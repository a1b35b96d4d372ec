import McuDrivers.Eth.Chain
import McuDrivers.Eth.Driver
import McuDrivers.Eth.Init

set_option autoImplicit false

/-! # Ethernet: the receive engine does not stay asleep

A receive engine that finds its descriptor taken sleeps, and only a poll demand makes it look again.
The three functions that hand descriptors back differ in when they issue one: `ETH_HandleRxPkt` after
it has set OWN, `ETH_HandlePTPRxPkt` before, `ETH_DropRxPkt` never. So the engine always wakes up if
the latter two never hand back the very descriptor on which it sleeps. Nothing here depends on the
shape of the descriptor lists. -/

namespace Eth

/-- The initialisations of a receive table, with the addresses they are given. -/
inductive RxInit where
  | chain (tab rxBuff : Word)
  | ring (tab rxBuff1 rxBuff2 : Word)
  | ptpChain (tab ptpTab rxBuff : Word)

def RxInit.run : RxInit → Nat → EthState → EthState
  | chain tab rxBuff => dmaRxDescChainInit tab rxBuff
  | ring tab rxBuff1 rxBuff2 => dmaRxDescRingInit tab rxBuff1 rxBuff2
  | ptpChain tab ptpTab rxBuff => dmaPtpRxDescChainInit tab ptpTab rxBuff

/-- The receive engine sleeps on a descriptor that it owns. -/
def RxStalled (s : EthState) : Prop := s.rxSuspended = true ∧ (s.desc s.rxCur).Own

instance (s : EthState) : Decidable (RxStalled s) := inferInstanceAs (Decidable (_ ∧ _))

def EthCall.Consumes : EthCall → Prop
  | handleRxPkt | dropRxPkt | handlePtpRxPkt => True
  | handleTxPkt _ _ | handlePtpTxPkt _ _ => False

/-- The calls that hand receive descriptors back, in any order and at any moment. -/
def consumerCalls : Discipline EthState EthCall := .onEntry fun k _ => k.Consumes

/-- The receive engine does not sleep on the descriptor at the driver's cursor. -/
def AwakeAtCursor (s : EthState) : Prop :=
  s.rxSuspended = true → s.rxCur ≠ s.dmaRxDescToGet

/-- Calls among which those that do not poll afterwards find the engine awake, or elsewhere, when
    they store into the descriptor. -/
def consumerCallsAwake : Discipline EthState EthCall where
  entry := fun k _ => k.Consumes
  access := fun k s s' => match k with
    | .dropRxPkt | .handlePtpRxPkt => s'.descStored ≠ s.descStored → AwakeAtCursor s
    | _ => True

/-! ## Asleep, with a reason -/

/-- Between calls: an engine that sleeps does so on a descriptor that it does not own, and `DMASTS`
    says so. -/
def RxAsleep (s : EthState) : Prop :=
  s.rxSuspended = true → s.dmaSts &&& ethDmaStsRbu ≠ 0 ∧ ¬ (s.desc s.rxCur).Own

/-- When OWN is set and the poll demand still to come. -/
def RxFlagged (s : EthState) : Prop := s.rxSuspended = true → s.dmaSts &&& ethDmaStsRbu ≠ 0

theorem RxAsleep.flagged {s : EthState} (h : RxAsleep s) : RxFlagged s := fun hsleep => (h hsleep).1

theorem RxAsleep.not_stalled {s : EthState} (h : RxAsleep s) : ¬ RxStalled s :=
  fun hstalled => (h hstalled.1).2 hstalled.2

theorem rbu_set (v : Word) : (v ||| ethDmaStsRbu) &&& ethDmaStsRbu ≠ 0 := by
  rw [Mask.or_and_of_subset _ (by decide)]
  decide

theorem RxFlagged.stable : Prog.Stable EthHw RxFlagged := by
  intro s s' h hs
  cases hs with
  | send wb stamp hown => exact h
  | txUnavailable hown => exact fun hsleep => Mask.or_and_ne_zero _ (h hsleep)
  | fill a stamp hown hawake hfits => exact h
  | rxUnavailable hown hawake => exact fun _ => rbu_set _

/-- The transmit engine only clears OWN, and the receive engine stores nothing while it sleeps. -/
theorem RxAsleep.stable : Prog.Stable EthHw RxAsleep := by
  intro s s' h hs
  cases hs with
  | send wb stamp hown =>
      intro hsleep
      refine ⟨(h hsleep).1, ?_⟩
      simp only [EthState.txSend]
      by_cases ha : s.rxCur = s.txCur
      · rw [ha, Function.update_self]
        exact txClosed_not_own s _ wb stamp
      · rw [Function.update_of_ne ha]
        exact (h hsleep).2
  | txUnavailable hown => exact fun hsleep => ⟨Mask.or_and_ne_zero _ (h hsleep).1, (h hsleep).2⟩
  | fill a stamp hown hawake hfits =>
      exact fun hsleep => absurd (hawake.symm.trans hsleep) (by decide)
  | rxUnavailable hown hawake => exact fun _ => ⟨rbu_set _, hown⟩

/-- A poll demand leaves the engine awake or asleep with a reason, whatever it finds. -/
theorem pollRx_asleep (s : EthState) : RxAsleep s.pollRx := by
  unfold EthState.pollRx
  split
  · split
    · exact fun hsleep => absurd hsleep Bool.false_ne_true
    · rename_i hown
      exact fun _ => ⟨rbu_set _, hown⟩
  · rename_i hawake
    exact fun hsleep => absurd hsleep hawake

/-! ## The three consumers -/

section Calls

variable {A : EthState → EthState → Prop} {s : EthState}

theorem wp_resumeRx_asleep (h : RxFlagged s) :
    resumeRx.wp EthHw A (fun _ _ => True) (fun _ => RxAsleep) s := by
  rw [resumeRx, loadDmaSts, Prog.wp_bind]
  apply Prog.wp_get RxFlagged.stable h
  intro s h
  refine ⟨trivial, ?_⟩
  split
  case isTrue hrbu =>
    rw [Prog.wp_bind]
    apply Prog.wp_put (P := fun _ => True) (fun _ _ _ _ => trivial) trivial
    intro s _ _
    refine ⟨trivial, ?_⟩
    apply Prog.wp_put (P := fun _ => True) (fun _ _ _ _ => trivial) trivial
    intro s _ _
    exact ⟨trivial, pollRx_asleep s⟩
  case isFalse hrbu => exact fun hsleep => absurd (h hsleep) hrbu

/-- Reads and cursor moves do not matter to the engine. -/
theorem RxAsleep.wp_rxFrame (h : RxAsleep s) (ptr : EthState → Word) :
    (rxFrame ptr).wp EthHw A (fun _ _ => True) (fun _ => RxAsleep) s :=
  Prog.wp_of_accesses (rxFrame_accesses (fun _ h => h) (fun _ _ h => h) ptr) RxAsleep.stable
    (fun _ _ _ _ => trivial) h

theorem RxAsleep.wp_loadStamp (h : RxAsleep s) (ptr : EthState → Word) :
    (loadStamp ptr).wp EthHw A (fun _ _ => True) (fun _ => RxAsleep) s :=
  Prog.wp_of_accesses (loadStamp_accesses (fun _ h => h) ptr) RxAsleep.stable
    (fun _ _ _ _ => trivial) h

theorem RxAsleep.wp_advanceRx (h : RxAsleep s) :
    advanceRx.wp EthHw A (fun _ _ => True) (fun _ => RxAsleep) s :=
  Prog.wp_of_accesses (advanceRx_accesses (fun _ h => h) (fun _ _ h => h)) RxAsleep.stable
    (fun _ _ _ _ => trivial) h

theorem RxAsleep.wp_advancePtpRx (h : RxAsleep s) :
    advancePtpRx.wp EthHw A (fun _ _ => True) (fun _ => RxAsleep) s :=
  Prog.wp_of_accesses (advancePtpRx_accesses (fun _ h => h) (fun _ _ h => h) (fun _ _ h => h))
    RxAsleep.stable (fun _ _ _ _ => trivial) h

/-- A store into a descriptor on which the engine does not sleep. -/
theorem RxAsleep.wp_storeStatus (h : RxAsleep s) (v : Word)
    (hA : ∀ s s', A s s' → s'.descStored ≠ s.descStored → AwakeAtCursor s) :
    (storeStatus (·.dmaRxDescToGet) v).wp EthHw A (fun _ _ => True) (fun _ => RxAsleep) s := by
  apply wp_storeDesc RxAsleep.stable h
  intro s h ha
  have hstored : (s.descStored ++ [s.dmaRxDescToGet]) ≠ s.descStored := by simp
  have hawake := hA _ _ ha hstored
  refine ⟨trivial, fun hsleep => ⟨(h hsleep).1, ?_⟩⟩
  have hother := s.putDesc_other { s.desc s.dmaRxDescToGet with status := v } (hawake hsleep)
  change ¬ ((s.putDesc s.dmaRxDescToGet _).desc s.rxCur).Own
  rw [hother]
  exact (h hsleep).2

theorem RxAsleep.wp_ethHandleRxPkt (h : RxAsleep s) :
    ethHandleRxPkt.wp EthHw A (fun _ _ => True) (fun _ => RxAsleep) s := by
  rw [ethHandleRxPkt, Prog.wp_bind]
  apply wp_loadDesc RxAsleep.stable h
  intro s h
  refine ⟨trivial, ?_⟩
  split
  · exact h
  · apply Prog.wp_seq (h.wp_rxFrame _)
    intro frame s h
    rw [Prog.wp_bind]
    -- OWN may now be set where the engine sleeps, but RBU is still there to be seen
    apply wp_storeDesc RxFlagged.stable h.flagged
    intro s h _
    refine ⟨trivial, ?_⟩
    have hset : RxFlagged (s.putDesc s.dmaRxDescToGet
        { s.desc s.dmaRxDescToGet with status := ethDmaRxDescOwn }) := h
    apply Prog.wp_seq (wp_resumeRx_asleep hset)
    intro _ s h
    apply Prog.wp_seq h.wp_advanceRx
    intro _ s h
    exact h

theorem RxAsleep.wp_ethDropRxPkt (h : RxAsleep s)
    (hA : ∀ s s', A s s' → s'.descStored ≠ s.descStored → AwakeAtCursor s) :
    ethDropRxPkt.wp EthHw A (fun _ _ => True) (fun _ => RxAsleep) s := by
  apply Prog.wp_seq (h.wp_storeStatus _ hA)
  intro _ s h
  apply Prog.wp_seq h.wp_advanceRx
  intro _ s h
  exact h

theorem RxAsleep.wp_ethHandlePtpRxPkt (h : RxAsleep s)
    (hA : ∀ s s', A s s' → s'.descStored ≠ s.descStored → AwakeAtCursor s) :
    ethHandlePtpRxPkt.wp EthHw A (fun _ _ => True) (fun _ => RxAsleep) s := by
  rw [ethHandlePtpRxPkt, Prog.wp_bind]
  apply wp_loadDesc RxAsleep.stable h
  intro s h
  refine ⟨trivial, ?_⟩
  split
  · exact h
  · apply Prog.wp_seq (h.wp_rxFrame _)
    intro frame s h
    apply Prog.wp_seq (wp_resumeRx_asleep h.flagged)
    intro _ s h
    apply Prog.wp_seq (h.wp_loadStamp _)
    intro stamp s h
    have hgive : (orStatus (·.dmaRxDescToGet) ethDmaRxDescOwn).wp EthHw A (fun _ _ => True)
        (fun _ => RxAsleep) s := by
      rw [orStatus, Prog.wp_bind]
      apply wp_loadDesc RxAsleep.stable h
      intro s h
      exact ⟨trivial, h.wp_storeStatus _ hA⟩
    apply Prog.wp_seq hgive
    intro _ s h
    apply Prog.wp_seq h.wp_advancePtpRx
    intro _ s h
    exact h

end Calls

theorem consumer_sound :
    ethSystem.Sound consumerCallsAwake (fun _ => RxAsleep) (fun _ _ _ => True) where
  hw := fun _ => RxAsleep.stable
  body := by
    intro k _ s h hentry
    cases k with
    | handleRxPkt => exact h.wp_ethHandleRxPkt
    | dropRxPkt => exact h.wp_ethDropRxPkt fun _ _ ha => ha
    | handlePtpRxPkt => exact h.wp_ethHandlePtpRxPkt fun _ _ ha => ha
    | handleTxPkt => exact absurd hentry id
    | handlePtpTxPkt => exact absurd hentry id

/-! ## Handing back the descriptor on which the engine sleeps -/

/-- Storing OWN there is what stalls the engine. -/
theorem putDesc_stalled {s : EthState} (hsleep : s.rxSuspended = true)
    (hcursor : s.rxCur = s.dmaRxDescToGet) (d : EthDmaDesc) (hown : d.Own) :
    RxStalled (s.putDesc s.dmaRxDescToGet d) := by
  refine ⟨hsleep, ?_⟩
  change ((s.putDesc s.dmaRxDescToGet d).desc s.rxCur).Own
  rwa [hcursor, s.putDesc_self]

theorem ethDropRxPkt_stalls {s : EthState} (hsleep : s.rxSuspended = true)
    (hcursor : s.rxCur = s.dmaRxDescToGet) : RxStalled (ethDropRxPkt.exec s).2 := by
  have hown : ethDmaRxDescOwn &&& ethDmaTxDescOwn ≠ 0 := by decide
  have hset := putDesc_stalled hsleep hcursor
    { s.desc s.dmaRxDescToGet with status := ethDmaRxDescOwn } hown
  have htail := Prog.exec_of_accesses
    (advanceRx_accesses (G := fun s s' => RxStalled s → RxStalled s') (fun _ h => h)
      (fun _ _ h => h)) (fun _ h => h) (fun h h' hs => h' (h hs)) _ hset
  have hexec : (ethDropRxPkt.exec s).2 = (advanceRx.exec (s.putDesc s.dmaRxDescToGet
      { s.desc s.dmaRxDescToGet with status := ethDmaRxDescOwn })).2 := by
    rw [ethDropRxPkt, Prog.exec_bind, Prog.exec_bind]
    rfl
  rwa [hexec]

/-- The poll demand of `ETH_HandlePTPRxPkt` comes too early to help. -/
theorem ethHandlePtpRxPkt_stalls {s : EthState} (hsleep : s.rxSuspended = true)
    (hcursor : s.rxCur = s.dmaRxDescToGet) (hfree : ¬ (s.desc s.rxCur).Own) :
    RxStalled (ethHandlePtpRxPkt.exec s).2 := by
  let P : EthState → Prop := fun t =>
    t.rxSuspended = true ∧ t.rxCur = t.dmaRxDescToGet ∧ ¬ (t.desc t.rxCur).Own
  have hstable : ∀ P, Prog.Stable (σ := EthState) (fun _ _ => False) P := fun _ _ _ _ h => h.elim
  have hpoll : ∀ t, P t → P t.pollRx := by
    rintro t ⟨hsleep, hcursor, hfree⟩
    have hclear : ¬ (t.desc t.rxCur).status &&& ethDmaRxDescOwn ≠ 0 := hfree
    rw [EthState.pollRx, if_pos hsleep, if_neg hclear]
    exact ⟨hsleep, hcursor, hfree⟩
  have hwp : ethHandlePtpRxPkt.wp (fun _ _ => False) (fun _ _ => True) (fun _ _ => True)
      (fun _ => RxStalled) s := by
    rw [ethHandlePtpRxPkt, Prog.wp_bind]
    apply wp_loadDesc (hstable P) ⟨hsleep, hcursor, hfree⟩
    intro s h
    refine ⟨trivial, ?_⟩
    have hclear : ¬ (s.desc s.dmaRxDescToGet).status &&& ethDmaRxDescOwn ≠ 0 := by
      rw [← h.2.1]
      exact h.2.2
    rw [if_neg hclear]
    apply Prog.wp_seq (Prog.wp_of_accesses (rxFrame_accesses (fun _ h => h) (fun _ _ h => h) _)
      (hstable P) (fun _ _ _ _ => trivial) h)
    intro frame s h
    apply Prog.wp_seq (Prog.wp_of_accesses (resumeRx_accesses (fun _ h => h) (fun _ _ h => h) hpoll)
      (hstable P) (fun _ _ _ _ => trivial) h)
    intro _ s h
    apply Prog.wp_seq (Prog.wp_of_accesses (loadStamp_accesses (fun _ h => h) _)
      (hstable P) (fun _ _ _ _ => trivial) h)
    intro stamp s h
    have hgive : (orStatus (·.dmaRxDescToGet) ethDmaRxDescOwn).wp (fun _ _ => False)
        (fun _ _ => True) (fun _ _ => True) (fun _ => RxStalled) s := by
      rw [orStatus, Prog.wp_bind]
      apply wp_loadDesc (hstable P) h
      intro s h
      refine ⟨trivial, ?_⟩
      generalize (s.desc s.dmaRxDescToGet).status = status
      apply wp_storeDesc (hstable P) h
      intro s h _
      refine ⟨trivial, putDesc_stalled h.1 h.2.1 _ ?_⟩
      have hown : (status ||| ethDmaRxDescOwn) &&& ethDmaTxDescOwn ≠ 0 := by
        rw [Mask.or_and_of_subset _ (by decide)]
        decide
      exact hown
    apply Prog.wp_seq hgive
    intro _ s h
    apply Prog.wp_seq (Prog.wp_of_accesses (advancePtpRx_accesses (fun _ h => h) (fun _ _ h => h)
      (fun _ _ h => h)) (hstable RxStalled) (fun _ _ _ _ => trivial) h)
    intro _ s h
    exact h
  exact Prog.exec_of_wp hwp fun _ _ => trivial

/-- Both calls stall an engine that sleeps at the cursor. -/
theorem sleeping_stalls {c : Config EthState EthCall EthResult} (hidle : c.running = none)
    (hsleep : c.st.rxSuspended = true) (hcursor : c.st.rxCur = c.st.dmaRxDescToGet)
    (hfree : ¬ (c.st.desc c.st.rxCur).Own) (k : EthCall)
    (hk : k = .dropRxPkt ∨ k = .handlePtpRxPkt) :
    ∃ c' r, ethSystem.Reach consumerCalls c c' ∧ c'.running = none ∧
      c'.done = c.done ++ [(k, r)] ∧ RxStalled c'.st := by
  obtain ⟨s, running, done⟩ := c
  cases hidle
  rcases hk with rfl | rfl
  · have hrun := System.Reach.call ethSystem (D := consumerCalls) (k := .dropRxPkt) (s := s) trivial
      (fun _ _ => trivial) (fun _ h => by cases h) done
    exact ⟨_, _, hrun, rfl, rfl, ethDropRxPkt_stalls hsleep hcursor⟩
  · have hrun := System.Reach.call ethSystem (D := consumerCalls) (k := .handlePtpRxPkt) (s := s)
      trivial (fun _ _ => trivial) (fun _ h => by cases h) done
    exact ⟨_, _, hrun, rfl, rfl, ethHandlePtpRxPkt_stalls hsleep hcursor hfree⟩

/-! ## Reception -/

theorem RxInit.run_awake (init : RxInit) (count : Nat) (s : EthState) :
    (init.run count s).rxSuspended = s.rxSuspended := by
  cases init with
  | chain tab rxBuff | ring tab rxBuff1 rxBuff2 | ptpChain tab ptpTab rxBuff =>
      change EthState.rxSuspended (forLoop count _ _) = _
      rw [forLoop_keeps count _ EthState.rxSuspended]
      intro _ _
      rfl

/-- **Reception never stalls if the calls that do not poll store into the descriptor while the engine
    is awake, or sleeps elsewhere**; and if it sleeps there between two calls, either of them stalls it. -/
theorem reception_not_stalled (init : RxInit) (count : Nat) (desc : Word → EthDmaDesc)
    (ram : Word → Byte) (dmaSts dmaBm : Word) (timeStamping : Bool)
    (c : Config EthState EthCall EthResult)
    (h : ethSystem.Reach consumerCallsAwake
      (.start (init.run count (EthState.boot desc ram dmaSts dmaBm timeStamping))) c)
    (hidle : c.running = none) :
    ¬ RxStalled c.st ∧
      (c.st.rxSuspended = true → c.st.rxCur = c.st.dmaRxDescToGet →
        ∀ k : EthCall, k = .dropRxPkt ∨ k = .handlePtpRxPkt →
          ∃ c' r, ethSystem.Reach consumerCalls c c' ∧ c'.running = none ∧
            c'.done = c.done ++ [(k, r)] ∧ RxStalled c'.st) := by
  have hawake : (init.run count (EthState.boot desc ram dmaSts dmaBm timeStamping)).rxSuspended =
      false := init.run_awake count _
  have h₀ : RxAsleep (init.run count (EthState.boot desc ram dmaSts dmaBm timeStamping)) :=
    fun hsleep => absurd (hawake.symm.trans hsleep) Bool.false_ne_true
  have hasleep := consumer_sound.idle h₀ h hidle
  exact ⟨hasleep.not_stalled, fun hsleep hcursor k hk =>
    sleeping_stalls hidle hsleep hcursor (hasleep hsleep).2 k hk⟩

/-- One receive descriptor in chain mode. -/
def oneDescriptor : EthState :=
  (RxInit.chain 0x20000020 0x20000c40).run 1
    (EthState.boot (fun _ => ⟨0, 0, 0, 0⟩) (fun _ => 0) 0 0 false)

/-- A frame fills it, and the engine comes back to it and falls asleep. -/
theorem oneDescriptor_sleeps (D : Discipline EthState EthCall) :
    ∃ s, ethSystem.Reach D (.start oneDescriptor) (.start s) ∧ s.rxSuspended = true ∧
      s.rxCur = s.dmaRxDescToGet ∧ ¬ (s.desc s.rxCur).Own := by
  have hfill : EthHw oneDescriptor (oneDescriptor.rxFill goodArrival (0, 0)) :=
    .fill goodArrival (0, 0) (by decide) rfl (by decide)
  have hfull : ¬ ((oneDescriptor.rxFill goodArrival (0, 0)).desc
      (oneDescriptor.rxFill goodArrival (0, 0)).rxCur).Own := by decide
  exact ⟨_, .head (.hw hfill) (.single (.hw (.rxUnavailable hfull rfl))), rfl, by decide, hfull⟩

/-- `ETH_HandleRxPkt` wakes it up. -/
theorem reception_not_stalled_full : ∃ c,
    ethSystem.Reach consumerCallsAwake (.start oneDescriptor) c ∧ c.running = none ∧
      c.done.length = 1 ∧ ¬ RxStalled c.st := by
  obtain ⟨s, hsleeps, -⟩ := oneDescriptor_sleeps consumerCallsAwake
  have hrun := hsleeps.trans (System.Reach.call ethSystem (D := consumerCallsAwake)
    (k := .handleRxPkt) trivial (fun _ _ => trivial) (fun _ h => by cases h) [])
  exact ⟨_, hrun, rfl, rfl, (reception_not_stalled (.chain 0x20000020 0x20000c40) 1 _ _ _ _ _ _
    hrun rfl).1⟩

/-- `ETH_DropRxPkt` and `ETH_HandlePTPRxPkt` do not. -/
theorem reception_stalls :
    (∃ c r, ethSystem.Reach consumerCalls (.start oneDescriptor) c ∧ c.running = none ∧
      c.done = [(.dropRxPkt, r)] ∧ RxStalled c.st) ∧
    ∃ c r, ethSystem.Reach consumerCalls (.start oneDescriptor) c ∧ c.running = none ∧
      c.done = [(.handlePtpRxPkt, r)] ∧ RxStalled c.st := by
  obtain ⟨s, hsleeps, hsleep, hcursor, hfree⟩ := oneDescriptor_sleeps consumerCalls
  have hstalls := sleeping_stalls (c := .start s) rfl hsleep hcursor hfree
  constructor
  · obtain ⟨c, r, hrun, hidle, hdone, hstalled⟩ := hstalls .dropRxPkt (.inl rfl)
    exact ⟨c, r, hsleeps.trans hrun, hidle, hdone, hstalled⟩
  · obtain ⟨c, r, hrun, hidle, hdone, hstalled⟩ := hstalls .handlePtpRxPkt (.inr rfl)
    exact ⟨c, r, hsleeps.trans hrun, hidle, hdone, hstalled⟩

end Eth
