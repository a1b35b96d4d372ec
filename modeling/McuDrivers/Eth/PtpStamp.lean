import McuDrivers.Eth.PtpShadow
import McuDrivers.Library.Run

set_option autoImplicit false

/-! # Ethernet: a packet with its time stamp

`ETH_HandlePTPTxPkt` hands the descriptor over and waits until TTSS is set in it, 65535 loads of the
status word at most. What it compares the count with afterwards is another constant, which the count
never comes to, so that it takes the two words for a time stamp and reports success whether or not TTSS
was set. -/

namespace Eth

open Relation

variable {n m : Nat} {ppkt : Nat → Byte} {frameLength : BitVec 16}

abbrev EthTrace := List (EthState × EthState)

/-! ## The parts of the call -/

/-- Up to the poll demand. -/
def queuePtpTxPkt (ppkt : Nat → Byte) (frameLength : BitVec 16) : EthProg Unit := do
  copyToBuffer (·.dmaPtpTxDescToSet) ppkt frameLength.toNat 0
  storeDesc (·.dmaTxDescToSet) fun d =>
    { d with controlBufferSize := frameLength.setWidth 32 &&& 0x1FFF }
  orStatus (·.dmaTxDescToSet) (ethDmaTxDescLs ||| ethDmaTxDescFs)
  orStatus (·.dmaTxDescToSet) ethDmaTxDescOwn
  resumeTx

/-- After the wait, which has counted to `timeout`. -/
def finishPtpTxPkt (timeout : Nat) : EthProg EthResult :=
  if timeout = phyReadTo then return .code ethError
  else do
    andStatus (·.dmaTxDescToSet) (~~~ethDmaTxDescTtss)
    let stamp ← loadStamp (·.dmaTxDescToSet)
    advancePtpTx
    return ⟨ethSuccess, [], some stamp⟩

theorem ethHandlePtpTxPkt_eq (ppkt : Nat → Byte) (frameLength : BitVec 16) :
    ethHandlePtpTxPkt ppkt frameLength = (do
      let status ← loadDesc (·.dmaTxDescToSet) (·.status)
      if status &&& ethDmaTxDescOwn ≠ 0 then return .code ethError
      else do
        queuePtpTxPkt ppkt frameLength
        let timeout ← waitTtss 0xFFFF 0
        finishPtpTxPkt timeout) := by
  simp only [queuePtpTxPkt, Prog.bind_assoc]
  rfl

/-- What may happen besides: anything at all, the descriptors included, but for the driver's cursors and
    the records of what the processor stored. -/
structure Traffic (s s' : EthState) : Prop where
  cursor : s'.dmaTxDescToSet = s.dmaTxDescToSet
  shadow : s'.dmaPtpTxDescToSet = s.dmaPtpTxDescToSet
  stored : s'.stored = s.stored
  descStored : s'.descStored = s.descStored

/-- The steps of the MAC are of this kind. -/
theorem EthHw.traffic {s s' : EthState} (h : EthHw s s') : Traffic s s' := by
  cases h <;> exact ⟨rfl, rfl, rfl, rfl⟩

/-- A run of `ETH_HandlePTPTxPkt`: it finds the descriptor taken, or it queues it, and then there are the
    loads of the wait, and the accesses after it. -/
inductive PtpTxRun (ppkt : Nat → Byte) (frameLength : BitVec 16) (s : EthState) :
    Option (EthTrace × EthTrace) → EthResult → EthState → Prop where
  | taken {t : EthState} (hown : (s.desc s.dmaTxDescToSet).Own) (henv : ReflTransGen Traffic s t) :
      PtpTxRun ppkt frameLength s none (.code ethError) t
  | queued {u v w t : EthState} {tr polls after : EthTrace} {timeout : Nat} {r : EthResult}
      (hfree : ¬ (s.desc s.dmaTxDescToSet).Own) (henv : ReflTransGen Traffic s u)
      (hqueue : Prog.Run Traffic (queuePtpTxPkt ppkt frameLength) u tr () v)
      (hwait : Prog.Run Traffic (waitTtss 0xFFFF 0) v polls timeout w)
      (hfinish : Prog.Run Traffic (finishPtpTxPkt timeout) w after r t) :
      PtpTxRun ppkt frameLength s (some (polls, after)) r t

/-- These are the runs of the function. -/
theorem ptpTxRun_iff {s t : EthState} {r : EthResult} :
    (∃ tr, Prog.Run Traffic (ethHandlePtpTxPkt ppkt frameLength) s tr r t) ↔
      ∃ waited, PtpTxRun ppkt frameLength s waited r t := by
  rw [ethHandlePtpTxPkt_eq]
  constructor
  · rintro ⟨tr, h⟩
    obtain ⟨tr₁, status, u, tr₂, -, hload, hrest⟩ := Prog.run_bind.mp h
    obtain ⟨-, rfl, henv⟩ := Prog.run_get.mp hload
    split at hrest
    · rename_i hown
      obtain ⟨-, rfl, rfl⟩ := Prog.run_ret.mp hrest
      exact ⟨none, .taken hown henv⟩
    · rename_i hfree
      obtain ⟨trq, _, v, tr₃, -, hqueue, hrest⟩ := Prog.run_bind.mp hrest
      obtain ⟨polls, timeout, w, after, -, hwait, hfinish⟩ := Prog.run_bind.mp hrest
      exact ⟨some (polls, after), .queued hfree henv hqueue hwait hfinish⟩
  · rintro ⟨waited, h⟩
    cases h with
    | taken hown henv =>
        have hstatus : (s.desc s.dmaTxDescToSet).status &&& ethDmaTxDescOwn ≠ 0 := hown
        refine ⟨[(s, s)] ++ [], (Prog.run_get.mpr ⟨rfl, rfl, henv⟩).bind ?_⟩
        simp only [if_pos hstatus]
        exact .ret _ _
    | @queued u v w _ tr polls after timeout r hfree henv hqueue hwait hfinish =>
        have hstatus : ¬ (s.desc s.dmaTxDescToSet).status &&& ethDmaTxDescOwn ≠ 0 := hfree
        refine ⟨[(s, s)] ++ (tr ++ (polls ++ after)),
          (Prog.run_get.mpr ⟨rfl, rfl, henv⟩).bind ?_⟩
        simp only [if_neg hstatus]
        exact hqueue.bind (hwait.bind hfinish)

/-! ## What a run does to the cursors -/

section Runs

variable {s t : EthState} {tr : EthTrace}

/-- The driver's cursor is at `a`. -/
def CursorAt (a : Word) (s : EthState) : Prop := s.dmaTxDescToSet = a

theorem cursorAt_stable (a : Word) : Prog.Stable Traffic (CursorAt a) :=
  fun _ _ h hs => hs.cursor.trans h

theorem queuePtpTxPkt_cursor (a : Word) (ppkt : Nat → Byte) (frameLength : BitVec 16) :
    (queuePtpTxPkt ppkt frameLength).Accesses fun s s' => CursorAt a s → CursorAt a s' := by
  refine Prog.accesses_bind (copyToBuffer_accesses (fun _ h => h) (fun _ _ _ h => h) _ _ _ _) fun _ => ?_
  refine Prog.accesses_bind ((Prog.accesses_put _ _).mpr fun s h => h) fun _ => ?_
  refine Prog.accesses_bind (orStatus_accesses (fun _ h => h) fun _ _ h => h) fun _ => ?_
  refine Prog.accesses_bind (orStatus_accesses (fun _ h => h) fun _ _ h => h) fun _ => ?_
  exact resumeTx_accesses (fun _ h => h) fun _ _ h => h

/-- After a wait that counted no further than it can, the call reports success, with the two words that it
    loads from the descriptor at the cursor. -/
theorem finishPtpTxPkt_run {timeout : Nat} {r : EthResult} {a : Word} (hle : timeout ≤ 0xFFFF)
    (hs : CursorAt a s) (h : Prog.Run Traffic (finishPtpTxPkt timeout) s tr r t) :
    r.ret = ethSuccess ∧ ∃ x ∈ tr, ∃ y ∈ tr,
      r.stamp = some ((x.1.desc a).buffer1Addr, (y.1.desc a).buffer2NextDescAddr) := by
  have hbound : timeout ≠ phyReadTo := by
    unfold phyReadTo
    omega
  rw [finishPtpTxPkt, if_neg hbound] at h
  obtain ⟨tr₁, _, u, tr₂, rfl, hand, h⟩ := Prog.run_bind.mp h
  have hu := (hand.keeps (cursorAt_stable a)
    (andStatus_accesses (fun _ h => h) fun _ _ h => h) hs).2
  obtain ⟨tr₃, stamp, v, tr₄, rfl, hstamp, h⟩ := Prog.run_bind.mp h
  obtain ⟨tr₅, _, _, _, -, -, h⟩ := Prog.run_bind.mp h
  obtain ⟨-, rfl, -⟩ := Prog.run_ret.mp h
  obtain ⟨trx, lo, w, tr₆, rfl, hlo, h⟩ := Prog.run_bind.mp hstamp
  obtain ⟨try', hi, z, tr₇, rfl, hhi, h⟩ := Prog.run_bind.mp h
  obtain ⟨-, rfl, -⟩ := Prog.run_ret.mp h
  obtain ⟨rfl, rfl, henv⟩ := Prog.run_get.mp hlo
  have hw : CursorAt a w := (cursorAt_stable a).star hu henv
  obtain ⟨rfl, rfl, -⟩ := Prog.run_get.mp hhi
  refine ⟨rfl, (u, u), by simp, (w, w), by simp, ?_⟩
  simp [show u.dmaTxDescToSet = a from hu, show w.dmaTxDescToSet = a from hw]

/-- A call that finds its descriptor taken leaves memory alone. -/
theorem PtpTxRun.of_own {waited : Option (EthTrace × EthTrace)} {r : EthResult}
    (hown : (s.desc s.dmaTxDescToSet).Own) (h : PtpTxRun ppkt frameLength s waited r t) :
    t.stored = s.stored ∧ t.descStored = s.descStored := by
  cases h with
  | taken _ henv =>
      have hstable : Prog.Stable Traffic fun u =>
          u.stored = s.stored ∧ u.descStored = s.descStored :=
        fun _ _ h hs => ⟨hs.stored.trans h.1, hs.descStored.trans h.2⟩
      exact hstable.star ⟨rfl, rfl⟩ henv
  | queued hfree => exact absurd hown hfree

/-- A call that queued its descriptor reports success, and has loaded two words from it. -/
theorem PtpTxRun.queued_success {polls after : EthTrace} {r : EthResult}
    (h : PtpTxRun ppkt frameLength s (some (polls, after)) r t) :
    r.ret = ethSuccess ∧ ∃ x ∈ after, ∃ y ∈ after, r.stamp =
      some ((x.1.desc s.dmaTxDescToSet).buffer1Addr,
        (y.1.desc s.dmaTxDescToSet).buffer2NextDescAddr) := by
  cases h with
  | @queued u v w _ tr _ _ timeout _ hfree henv hqueue hwait hfinish =>
      have hu : CursorAt s.dmaTxDescToSet u := (cursorAt_stable _).star rfl henv
      have hv := (hqueue.keeps (cursorAt_stable _) (queuePtpTxPkt_cursor _ _ _) hu).2
      have hw := (hwait.keeps (cursorAt_stable _) (waitTtss_accesses (fun _ h => h) _ _) hv).2
      have hle : timeout ≤ 0xFFFF := by simpa using hwait.of_returns (waitTtss_returns 0xFFFF 0)
      exact finishPtpTxPkt_run hle hw hfinish

end Runs

/-! ## Success and time stamps -/

/-- One of the loads of the wait shows TTSS set in the descriptor at `a`. -/
def TtssSeen (a : Word) (polls : EthTrace) : Prop :=
  ∃ p ∈ polls, (p.1.desc a).status &&& ethDmaTxDescTtss ≠ 0

/-- What a run of the call from `s` to `t` returns: success with the time stamp words of the descriptor,
    when TTSS was seen in it; and when an error comes after the wait, the cursors are in step. In either
    case a descriptor that the DMA owns is not used by the next call. -/
structure StampedOrError (L : PtpLayout n m) (s : EthState)
    (waited : Option (EthTrace × EthTrace)) (r : EthResult) (t : EthState) : Prop where
  success : r.ret = ethSuccess → ∃ polls after, waited = some (polls, after) ∧
    TtssSeen s.dmaTxDescToSet polls ∧ ∃ x ∈ after, ∃ y ∈ after, r.stamp =
      some ((x.1.desc s.dmaTxDescToSet).buffer1Addr,
        (y.1.desc s.dmaTxDescToSet).buffer2NextDescAddr)
  error : r.ret = ethError → waited.isSome → TxInStep L t
  next : ∀ ppkt frameLength waited' r' t', (t.desc t.dmaTxDescToSet).Own →
    PtpTxRun ppkt frameLength t waited' r' t' →
    t'.stored = t.stored ∧ t'.descStored = t.descStored

/-- **The call reports success only with a time stamp if and only if it finds the descriptor taken, or
    TTSS is seen during the wait.** -/
theorem ptp_stamp_iff (L : PtpLayout n m) {s t : EthState}
    {waited : Option (EthTrace × EthTrace)} {r : EthResult}
    (h : PtpTxRun ppkt frameLength s waited r t) :
    StampedOrError L s waited r t ↔
      ∀ polls after, waited = some (polls, after) → TtssSeen s.dmaTxDescToSet polls := by
  constructor
  · rintro ⟨hsuccess, -, -⟩ polls after rfl
    obtain ⟨polls', after', heq, hseen, -⟩ := hsuccess h.queued_success.1
    cases heq
    exact hseen
  · intro hseen
    have hnext : ∀ ppkt frameLength waited' r' t', (t.desc t.dmaTxDescToSet).Own →
        PtpTxRun ppkt frameLength t waited' r' t' →
        t'.stored = t.stored ∧ t'.descStored = t.descStored :=
      fun _ _ _ _ _ hown hrun => hrun.of_own hown
    cases waited with
    | none =>
        cases h
        exact ⟨fun hret => absurd hret (by decide), fun _ hwaited => by simp at hwaited, hnext⟩
    | some w =>
        obtain ⟨polls, after⟩ := w
        obtain ⟨hret, hstamp⟩ := h.queued_success
        refine ⟨fun _ => ⟨polls, after, rfl, hseen polls after rfl, hstamp⟩, fun herror _ => ?_, hnext⟩
        -- an error never comes after the wait
        rw [hret] at herror
        exact absurd herror (by decide)

/-! ## A descriptor that is closed in time, and one that is not -/

theorem waitTtss_again {v v' w : EthState} {polls : EthTrace} {left timeout k : Nat}
    (hclear : (v.desc v.dmaTxDescToSet).status &&& ethDmaTxDescTtss = 0)
    (hlt : timeout + 1 < 0xFFFF) (henv : ReflTransGen Traffic v v')
    (hrest : Prog.Run Traffic (waitTtss left (timeout + 1)) v' polls k w) :
    Prog.Run Traffic (waitTtss (left + 1) timeout) v ([(v, v)] ++ polls) k w := by
  refine (Prog.run_get.mpr ⟨rfl, rfl, henv⟩).bind ?_
  rwa [if_pos ⟨hclear, hlt⟩]

theorem waitTtss_seen {v w : EthState} {left timeout : Nat}
    (hset : (v.desc v.dmaTxDescToSet).status &&& ethDmaTxDescTtss ≠ 0)
    (henv : ReflTransGen Traffic v w) :
    Prog.Run Traffic (waitTtss (left + 1) timeout) v ([(v, v)] ++ []) (timeout + 1) w := by
  refine (Prog.run_get.mpr ⟨rfl, rfl, henv⟩).bind ?_
  rw [if_neg fun h => hset h.1]
  exact .ret _ _

/-- The first descriptor has been handed over. -/
def queuedEth : EthState := ((queuePtpTxPkt (fun _ => 0) 0).exec ptpZeroStart).2

/-- The MAC has sent the frame, and closed the descriptor with a time stamp. -/
def stampedEth : EthState := queuedEth.txSend 0 (0x11, 0x22)

/-- The second load of the wait sees TTSS, and the time stamp is returned. -/
theorem ptp_stamp_closed :
    StampedOrError sramPtpLayout ptpZeroStart
      (some ([(queuedEth, queuedEth)] ++ ([(stampedEth, stampedEth)] ++ []),
        (finishPtpTxPkt 2).trace stampedEth))
      ⟨ethSuccess, [], some (0x11, 0x22)⟩ ((finishPtpTxPkt 2).exec stampedEth).2 := by
  have hqueue : Prog.Run Traffic (queuePtpTxPkt (fun _ => 0) 0) ptpZeroStart _ () queuedEth :=
    Prog.run_exec _ _
  have hclose : EthHw queuedEth stampedEth := .send 0 (0x11, 0x22) (by decide +kernel)
  have hwait : Prog.Run Traffic (waitTtss 0xFFFF 0) queuedEth _ 2 stampedEth :=
    waitTtss_again (by decide +kernel) (by decide) (.single hclose.traffic)
      (waitTtss_seen (by decide +kernel) .refl)
  have hfinish : Prog.Run Traffic (finishPtpTxPkt 2) stampedEth _
      ⟨ethSuccess, [], some (0x11, 0x22)⟩ _ := Prog.run_exec _ _
  refine (ptp_stamp_iff sramPtpLayout
    (.queued (by decide +kernel) .refl hqueue hwait hfinish)).mpr ?_
  intro polls after heq
  cases heq
  exact ⟨(stampedEth, stampedEth), by simp, by decide +kernel⟩

/-- The MAC does not send the frame: the call takes the addresses in the descriptor for a time stamp. -/
theorem ptp_stamp_fails : ¬ ∀ (ppkt : Nat → Byte) (frameLength : BitVec 16) (s t : EthState)
    (waited : Option (EthTrace × EthTrace)) (r : EthResult),
    PtpTxRun ppkt frameLength s waited r t → StampedOrError sramPtpLayout s waited r t := by
  intro h
  -- a run in which the environment does nothing
  have hrun : PtpTxRun (fun _ => 0) 0 ptpZeroStart _ _ _ :=
    .queued (by decide +kernel) .refl (Prog.run_exec _ _) (Prog.run_exec (waitTtss 0xFFFF 0) queuedEth)
      (Prog.run_exec _ _)
  obtain ⟨polls, after, heq, ⟨p, hp, hseen⟩, -⟩ := (h _ _ _ _ _ _ hrun).success hrun.queued_success.1
  cases heq
  have hclear : ∀ p ∈ (waitTtss 0xFFFF 0).trace queuedEth,
      (p.1.desc ptpZeroStart.dmaTxDescToSet).status &&& ethDmaTxDescTtss = 0 :=
    ((Prog.run_exec (R := fun _ _ => False) (waitTtss 0xFFFF 0) queuedEth).keeps
      (I := fun u => (u.desc ptpZeroStart.dmaTxDescToSet).status &&& ethDmaTxDescTtss = 0)
      (fun _ _ _ hs => hs.elim) (waitTtss_accesses (fun _ h => h) _ _) (by decide +kernel)).1
  exact hseen (hclear p hp)

end Eth
