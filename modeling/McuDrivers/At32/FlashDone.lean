import McuDrivers.At32.FlashGuard

set_option autoImplicit false

/-! # AT32F4xx: what `FLASH_PRC_DONE` stands for

A function that returns `FLASH_PRC_DONE` should have made the operation it was called for, and seen it
end without an error. For an address between bank 2 and bank 3 nothing is done at all, and
`FLASH_SlibMainEnable` reports the wait it made last. -/

namespace At32

/-! ## An operation made and seen to end -/

/-- `IS_FLASH_ADDR` -/
def isFlashAddr (address : Word) : Prop := 0x08000000 ≤ address ∧ address ≤ 0x1FFEFFFF

/-- Nothing is started. -/
def Quiet (log : List FlashAccess) : Prop := ∀ a ∈ log, a.starts = none

/-- Nothing else was started since, and the last status of the bank is `FLASH_PRC_DONE`. -/
structure Finished (b : Bank) (later : List FlashAccess) : Prop where
  quiet : Quiet later
  done : lastStatus b later = some .prcDone

/-- The page was erased, in its bank, and nothing else was done. -/
def ErasedPage (pageAddress : Word) (log : List FlashAccess) : Prop :=
  ∃ b later past, bankOf pageAddress = some b ∧
    log = later ++ .ctrlSet b ctrlStrt :: .addr b pageAddress :: .ctrlSet b ctrlPgers :: past ∧
    Finished b later ∧ Quiet past

/-- The datum was written, in its bank, and nothing else was done. -/
def Programmed (d : Datum) (log : List FlashAccess) : Prop :=
  ∃ b later past, bankOf d.address = some b ∧
    log = later ++ .datum d :: .ctrlSet b ctrlPrgm :: past ∧ Finished b later ∧ Quiet past

/-- The password was written and accepted, and then the range. -/
def SlibEnabled (psw range : Word) (log : List FlashAccess) : Prop :=
  ∃ later between past, log = later ++ .slibSetRange range :: (between ++ .slibSetPsw psw :: past) ∧
    Finished .bank1 later ∧ Finished .bank1 between ∧ Quiet past

/-! ## The record of a wait -/

/-- The status reads of a wait, newest first. -/
def Waited.log (b : Bank) (w : Waited) : List FlashAccess :=
  .status b w.last :: w.earlier.map (.status b)

theorem waited_log (s : FlashState) (b : Bank) (w : Waited) :
    (s.waited b w).log = w.log b ++ s.log := rfl

variable {s : FlashState} {b : Bank} {w : Waited} {timeout : Nat}

theorem Quiet.append {log past : List FlashAccess} (h : Quiet log) (hpast : Quiet past) :
    Quiet (log ++ past) := by
  intro a ha
  rcases List.mem_append.mp ha with ha | ha
  · exact h a ha
  · exact hpast a ha

theorem Quiet.cons {a : FlashAccess} {past : List FlashAccess} (ha : a.starts = none)
    (hpast : Quiet past) : Quiet (a :: past) := by
  intro a' ha'
  rcases List.mem_cons.mp ha' with rfl | ha'
  · exact ha
  · exact hpast a' ha'

theorem Waited.log_quiet (b : Bank) (w : Waited) : Quiet (w.log b) := by
  intro a ha
  rcases List.mem_cons.mp ha with rfl | ha
  · rfl
  · obtain ⟨status, _, rfl⟩ := List.mem_map.mp ha
    rfl

theorem Waited.log_finished (h : w.last = .prcDone) : Finished b (w.log b) where
  quiet := w.log_quiet b
  done := by simp [Waited.log, lastStatus, h]

/-- Clearing the operation bit afterwards changes nothing. -/
theorem Finished.ctrlRst {b' : Bank} {bits : Word} {later : List FlashAccess}
    (h : Finished b later) : Finished b (.ctrlRst b' bits :: later) where
  quiet := h.quiet.cons rfl
  done := h.done

/-! ## One bank -/

/-- The body is reached, and then it decides. -/
theorem whenDone_done {body : FlashProg FlashStatus} {P : List FlashAccess → Prop}
    (hbody : (body.exec (s.waited b (s.wait b timeout))).1 = .prcDone →
      P (body.exec (s.waited b (s.wait b timeout))).2.log)
    (h : ((whenDone b timeout body).exec s).1 = .prcDone) :
    P ((whenDone b timeout body).exec s).2.log := by
  rw [whenDone_exec] at h ⊢
  split at h
  · next hfirst =>
      rw [if_pos hfirst]
      exact hbody h
  · next hfirst => exact absurd h hfirst

theorem erasePageIn_done (pageAddress : Word) (hbank : bankOf pageAddress = some b)
    (hs : Quiet s.log) (h : ((erasePageIn b timeout pageAddress).exec s).1 = .prcDone) :
    ErasedPage pageAddress ((erasePageIn b timeout pageAddress).exec s).2.log := by
  refine whenDone_done (fun hdone => ?_) h
  simp only [Prog.exec_bind, Prog.pure_eq, Prog.exec_ret, ctrlSet_exec, ctrlRst_exec,
    store_exec, flashWaitForBankProcess_exec, FlashState.record_log, FlashState.setCtrl_log,
    waited_log] at hdone ⊢
  refine ⟨b, .ctrlRst b ctrlPgers :: Waited.log b _, (s.wait b timeout).log b ++ s.log, hbank,
    rfl, ?_, ((s.wait b timeout).log_quiet b).append hs⟩
  exact (Waited.log_finished (FlashState.wait_done hdone)).ctrlRst

theorem programIn_done (d : Datum) (hbank : bankOf d.address = some b) (hs : Quiet s.log)
    (h : ((programIn b d).exec s).1 = .prcDone) : Programmed d ((programIn b d).exec s).2.log := by
  refine whenDone_done (fun hdone => ?_) h
  simp only [Prog.exec_bind, Prog.pure_eq, Prog.exec_ret, ctrlSet_exec, ctrlRst_exec,
    store_exec, flashWaitForBankProcess_exec, FlashState.record_log, FlashState.setCtrl_log,
    waited_log] at hdone ⊢
  refine ⟨b, .ctrlRst b ctrlPrgm :: Waited.log b _, (s.wait b prgmTimeout).log b ++ s.log, hbank,
    rfl, ?_, ((s.wait b prgmTimeout).log_quiet b).append hs⟩
  exact (Waited.log_finished (FlashState.wait_done hdone)).ctrlRst

/-! ## The functions -/

/-- Between the end of bank 2 and the start of bank 3. -/
def InGap (address : Word) : Prop :=
  flashBnk2EndAddr < address ∧ address < flashBnk3StartAddr

theorem bankOf_eq_none {address : Word} : bankOf address = none ↔ InGap address := by
  have h12 : flashBnk1EndAddr ≤ flashBnk2EndAddr := by decide
  unfold bankOf InGap
  constructor
  · intro h
    split at h
    · simp at h
    · next h3 =>
        split at h
        · simp at h
        · split at h
          · simp at h
          · next h2 => exact ⟨BitVec.not_le.mp h2, BitVec.not_le.mp h3⟩
  · rintro ⟨h2, h3⟩
    have h1 : ¬ address ≤ flashBnk1EndAddr := fun h =>
      BitVec.not_le.mpr h2 (BitVec.le_trans h h12)
    rw [if_neg (BitVec.not_le.mpr h3), if_neg h1, if_neg (BitVec.not_le.mpr h2)]

/-- Where each part does what it is for, a function that goes by the address does so exactly for the
    addresses that are in a bank. -/
theorem byAddress_done {address : Word} {inBank1 inBank2 inBank3 : FlashProg FlashStatus}
    {P : List FlashAccess → Prop} (hP : ∀ log, P log → bankOf address ≠ none)
    (h1 : bankOf address = some .bank1 → (inBank1.exec s).1 = .prcDone → P (inBank1.exec s).2.log)
    (h2 : bankOf address = some .bank2 → (inBank2.exec s).1 = .prcDone → P (inBank2.exec s).2.log)
    (h3 : bankOf address = some .bank3 → (inBank3.exec s).1 = .prcDone →
      P (inBank3.exec s).2.log) :
    (((byAddress address inBank1 inBank2 inBank3).exec s).1 = .prcDone →
      P ((byAddress address inBank1 inBank2 inBank3).exec s).2.log) ↔ ¬ InGap address := by
  rw [← bankOf_eq_none]
  apply byAddress_cases
    (P := fun p => ((p.exec s).1 = .prcDone → P (p.exec s).2.log) ↔ bankOf address ≠ none)
  · intro hbank
    simpa [hbank] using h1 hbank
  · intro hbank
    simpa [hbank] using h2 hbank
  · intro hbank
    simpa [hbank] using h3 hbank
  · intro hbank
    exact ⟨fun h => hP _ (h rfl), fun h => absurd hbank h⟩

theorem erasedPage_bank {pageAddress : Word} {log : List FlashAccess}
    (h : ErasedPage pageAddress log) : bankOf pageAddress ≠ none := by
  obtain ⟨b, _, _, hbank, _⟩ := h
  simp [hbank]

theorem programmed_bank {d : Datum} {log : List FlashAccess} (h : Programmed d log) :
    bankOf d.address ≠ none := by
  obtain ⟨b, _, _, hbank, _⟩ := h
  simp [hbank]

theorem flashErasePage_done (pageAddress : Word) (hs : Quiet s.log) :
    (((flashErasePage pageAddress).exec s).1 = .prcDone →
      ErasedPage pageAddress ((flashErasePage pageAddress).exec s).2.log) ↔
        ¬ InGap pageAddress := by
  apply byAddress_done (P := ErasedPage pageAddress)
  · intro log h
    exact erasedPage_bank h
  · intro hbank
    exact erasePageIn_done pageAddress hbank hs
  · intro hbank
    exact erasePageIn_done pageAddress hbank hs
  · intro hbank
    exact erasePageIn_done pageAddress hbank hs

/-- The three program functions, which differ in the datum and in what they do in bank 3. -/
theorem program_done (d : Datum) {inBank3 : FlashProg FlashStatus} (hs : Quiet s.log)
    (h3 : bankOf d.address = some .bank3 → (inBank3.exec s).1 = .prcDone →
      Programmed d (inBank3.exec s).2.log) :
    (((byAddress d.address (programIn .bank1 d) (programIn .bank2 d) inBank3).exec s).1 =
        .prcDone →
      Programmed d
        ((byAddress d.address (programIn .bank1 d) (programIn .bank2 d) inBank3).exec s).2.log) ↔
      ¬ InGap d.address := by
  apply byAddress_done (P := Programmed d)
  · intro log h
    exact programmed_bank h
  · intro hbank
    exact programIn_done d hbank hs
  · intro hbank
    exact programIn_done d hbank hs
  · exact h3

/-! ## The SLIB -/

/-- A record has one beginning in which nothing is started. -/
theorem quiet_split {later later' past past' : List FlashAccess} {a a' : FlashAccess}
    (h : later ++ a :: past = later' ++ a' :: past') (hl : Quiet later) (hl' : Quiet later')
    (ha : a.starts ≠ none) (ha' : a'.starts ≠ none) : later = later' ∧ past = past' := by
  induction later generalizing later' with
  | nil =>
      cases later' with
      | nil => exact ⟨rfl, (List.cons.inj h).2⟩
      | cons x later' =>
          have hx : x = a := (List.cons.inj h).1.symm
          exact absurd (hl' x List.mem_cons_self) (hx ▸ ha)
  | cons y later ih =>
      cases later' with
      | nil =>
          have hy : y = a' := (List.cons.inj h).1
          exact absurd (hl y List.mem_cons_self) (hy ▸ ha')
      | cons x later' =>
          obtain ⟨hxy, htail⟩ := List.cons.inj h
          obtain ⟨hlater, hpast⟩ := ih htail (fun a ha => hl a (List.mem_cons_of_mem _ ha))
            fun a ha => hl' a (List.mem_cons_of_mem _ ha)
          exact ⟨by rw [hxy, hlater], hpast⟩

theorem SlibEnabled.not_quiet {psw range : Word} {log : List FlashAccess}
    (h : SlibEnabled psw range log) : ¬ Quiet log := by
  obtain ⟨later, between, past, rfl, _⟩ := h
  intro hquiet
  have hnone := hquiet (.slibSetRange range) (by simp)
  simp [FlashAccess.starts] at hnone

/-- A record of the two writes, and the waits after them, is that of an SLIB enabled if and only if
    both waits end in `FLASH_PRC_DONE`. -/
theorem slibEnabled_iff {psw range : Word} {w w' : Waited} {past : List FlashAccess}
    (hpast : Quiet past) :
    SlibEnabled psw range
        (w'.log .bank1 ++ .slibSetRange range :: (w.log .bank1 ++ .slibSetPsw psw :: past)) ↔
      w'.last = .prcDone ∧ w.last = .prcDone := by
  constructor
  · rintro ⟨later, between, past', heq, hlater, hbetween, _⟩
    have hrange : (FlashAccess.slibSetRange range).starts ≠ none := by simp [FlashAccess.starts]
    have hpsw : (FlashAccess.slibSetPsw psw).starts ≠ none := by simp [FlashAccess.starts]
    obtain ⟨rfl, hrest⟩ := quiet_split heq (w'.log_quiet _) hlater.quiet hrange hrange
    obtain ⟨rfl, _⟩ := quiet_split hrest (w.log_quiet _) hbetween.quiet hpsw hpsw
    have h' := hlater.done
    have h := hbetween.done
    simp only [Waited.log, lastStatus, if_true, Option.some.injEq] at h h'
    exact ⟨h', h⟩
  · rintro ⟨h', h⟩
    exact ⟨_, _, past, rfl, Waited.log_finished h', Waited.log_finished h, hpast⟩

/-- The range is written, and the wait for it made, whatever became of the password. -/
theorem flashSlibMainEnable_done (psw : Word) (startPage dataStartPage endPage : BitVec 16)
    (hs : Quiet s.log) :
    (((flashSlibMainEnable psw startPage dataStartPage endPage).exec s).1 = .prcDone →
      SlibEnabled psw (slibRange startPage dataStartPage endPage)
        ((flashSlibMainEnable psw startPage dataStartPage endPage).exec s).2.log) ↔
      ((s.wait .bank1 prgmTimeout).result = .prcDone →
        slibParamOk startPage dataStartPage endPage ∧
          ((waitAt (s.inputs.sts .bank1) prgmTimeout
              (waitAt (s.inputs.sts .bank1) prgmTimeout
                (s.wait .bank1 prgmTimeout).next).next).result = .prcDone →
            (waitAt (s.inputs.sts .bank1) prgmTimeout
              (s.wait .bank1 prgmTimeout).next).last = .prcDone)) := by
  have hfirst := ((s.wait .bank1 prgmTimeout).log_quiet .bank1).append hs
  simp only [flashSlibMainEnable, Prog.exec_bind, flashWaitForProcess_exec]
  split
  · next hparam =>
      split
      · next hdone =>
          simp only [Prog.exec_bind, store_exec, flashWaitForProcess_exec, FlashState.record_log,
            waited_log, record_wait, waited_wait, FlashState.waited_inputs,
            FlashState.record_inputs]
          rw [slibEnabled_iff (hfirst.cons rfl)]
          simp only [hdone, hparam, true_and, true_imp_iff]
          refine imp_congr_right fun hthird => and_iff_right (waitAt_done hthird)
      · next hdone => simp [hdone]
  · next hparam =>
      have hnot : ¬ SlibEnabled psw (slibRange startPage dataStartPage endPage)
          ((s.wait .bank1 prgmTimeout).log .bank1 ++ s.log) := fun h => h.not_quiet hfirst
      simp [hparam, waited_log, hnot]

/-! ## Each call -/

/-- The operation that the call is for was made and seen to end. -/
def FlashCall.Performed (log : List FlashAccess) : FlashCall → Prop
  | erasePage pageAddress => ErasedPage pageAddress log
  | programWord address data => Programmed (.word address data) log
  | programHalfWord address data => Programmed (.halfWord address data) log
  | programByte address data => Programmed (.byte address data) log
  | slibMainEnable psw startPage dataStartPage endPage =>
      SlibEnabled psw (slibRange startPage dataStartPage endPage) log
  | _ => True

/-- When `FLASH_PRC_DONE` can be relied on: by the address, and for the SLIB by the page parameters and
    what the three waits read. -/
def FlashCall.Reliable (inputs : FlashInputs) : FlashCall → Prop
  | erasePage pageAddress => ¬ InGap pageAddress
  | programWord address _ => ¬ InGap address
  | programHalfWord address _ => ¬ InGap address
  | programByte address _ => ¬ InGap address
  | slibMainEnable _ startPage dataStartPage endPage =>
      let first := waitAt (inputs.sts .bank1) prgmTimeout 0
      let second := waitAt (inputs.sts .bank1) prgmTimeout first.next
      let third := waitAt (inputs.sts .bank1) prgmTimeout second.next
      first.result = .prcDone → slibParamOk startPage dataStartPage endPage ∧
        (third.result = .prcDone → second.last = .prcDone)
  | _ => True

/-- **A call that returns `FLASH_PRC_DONE` has made its operation and seen it end, if and only if the
    address is not between the banks and, for the SLIB, its parameters were accepted and so was the
    password.** -/
theorem flash_done_iff (call : FlashCall) (inputs : FlashInputs) (s : FlashState) :
    ((call.body.exec (s.begin inputs)).1 = .status .prcDone →
      call.Performed (call.body.exec (s.begin inputs)).2.log) ↔ call.Reliable inputs := by
  have hs : Quiet (s.begin inputs).log := fun a ha => by cases ha
  cases call
  case erasePage pageAddress =>
    simp only [FlashCall.body, Prog.exec_map, FlashResult.status.injEq]
    exact flashErasePage_done pageAddress hs
  case programWord address data =>
    simp only [FlashCall.body, Prog.exec_map, FlashResult.status.injEq]
    exact program_done (.word address data) hs fun hbank => programIn_done _ hbank hs
  case programHalfWord address data =>
    simp only [FlashCall.body, Prog.exec_map, FlashResult.status.injEq]
    exact program_done (.halfWord address data) hs fun hbank => programIn_done _ hbank hs
  case programByte address data =>
    simp only [FlashCall.body, Prog.exec_map, FlashResult.status.injEq]
    refine program_done (.byte address data) hs fun _ h => ?_
    -- the part for bank 3 does not return `FLASH_PRC_DONE`
    simp at h
  case slibMainEnable psw startPage dataStartPage endPage =>
    simp only [FlashCall.body, Prog.exec_map, FlashResult.status.injEq]
    exact flashSlibMainEnable_done psw startPage dataStartPage endPage hs
  all_goals simp [FlashCall.Performed, FlashCall.Reliable]

/-- The first address after bank 2 is accepted, and nothing is erased there. -/
theorem flash_done_fails :
    ¬ ∀ (pageAddress : Word) (inputs : FlashInputs) (s : FlashState), isFlashAddr pageAddress →
      ((FlashCall.erasePage pageAddress).body.exec (s.begin inputs)).1 = .status .prcDone →
        ErasedPage pageAddress
          ((FlashCall.erasePage pageAddress).body.exec (s.begin inputs)).2.log := by
  intro h
  have herased := h 0x08100000 bank2Busy idleFlash (by unfold isFlashAddr; decide) rfl
  exact erasedPage_bank herased (by decide)

end At32
