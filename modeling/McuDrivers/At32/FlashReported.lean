import McuDrivers.At32.FlashArmed
import McuDrivers.At32.FlashPoll

set_option autoImplicit false

/-! # AT32F4xx: operations that end on the last poll

A call of the flash goes from wait to wait, each time if the one before returned `FLASH_PRC_DONE`. Where
a wait goes by `Timeout` alone, an operation that ended on its last poll is taken for one that timed
out: the call reports `FLASH_TIMEOUT`, and may leave the operation bit set. -/

namespace At32

/-! ## The waits of a call -/

/-- The flash of a call goes into a wait, of those that the call makes one after the other, which ends on
    its last poll. `i` is the number of the next status read. -/
def SomeFinishesLast (inputs : FlashInputs) : List (Bank × Nat) → (i : Nat) → Prop
  | [], _ => False
  | (b, timeout) :: rest, i =>
      FinishesLast (inputs.sts b) timeout i ∨
        ∃ k, EndsAt (inputs.sts b) timeout i k ∧ (statusAt (inputs.sts b) (i + k)).1 = .prcDone ∧
          SomeFinishesLast inputs rest (statusAt (inputs.sts b) (i + k)).2

variable {inputs : FlashInputs} {s : FlashState} {b b' : Bank} {timeout timeout' i : Nat}
  {rest : List (Bank × Nat)} {body p : FlashProg FlashStatus} {C : Prop}

theorem EndsAt.unique {sts : Nat → Word} {k k' : Nat} (h : EndsAt sts timeout i k)
    (h' : EndsAt sts timeout i k') : k = k' := by
  rcases Nat.lt_trichotomy k k' with hlt | heq | hlt
  · exact absurd (h'.busy k hlt) h.idle
  · exact heq
  · exact absurd (h.busy k' hlt) h'.idle

/-- The next wait is made if this one returns `FLASH_PRC_DONE`. -/
theorem someFinishesLast_cons :
    SomeFinishesLast inputs ((b, timeout) :: rest) i ↔
      FinishesLast (inputs.sts b) timeout i ∨
        (waitAt (inputs.sts b) timeout i).result = .prcDone ∧
          SomeFinishesLast inputs rest (waitAt (inputs.sts b) timeout i).next := by
  rw [SomeFinishesLast]
  refine or_congr_right ?_
  rcases waitAt_cases (inputs.sts b) timeout i with ⟨k, hends, hw⟩ | ⟨hall, hw⟩
  · rw [hw, Waited.ended]
    constructor
    · rintro ⟨k', hends', hdone, hrest⟩
      rw [hends.unique hends']
      exact ⟨hdone, hrest⟩
    · rintro ⟨hdone, hrest⟩
      exact ⟨k, hends, hdone, hrest⟩
  · rw [hw, Waited.timedOut]
    constructor
    · rintro ⟨k, hends, -, -⟩
      exact absurd (hall k hends.inTime) hends.idle
    · rintro ⟨hdone, -⟩
      cases hdone

/-- A wait returns the last status that it read, unless it ended on its last poll. -/
theorem waitAt_last (sts : Nat → Word) (timeout i : Nat) :
    ((waitAt sts timeout i).last ≠ .bsy →
      (waitAt sts timeout i).result = (waitAt sts timeout i).last) ↔
        ¬ FinishesLast sts timeout i := by
  rcases waitAt_cases sts timeout i with ⟨k, hends, hw⟩ | ⟨hall, hw⟩
  · rw [hw]
    exact iff_of_true (fun _ => rfl) hends.not_finishesLast
  · rw [hw, Waited.timedOut]
    simp only [FinishesLast, ← statusAt_bsy_iff, ne_eq, not_and, Classical.not_not]
    constructor
    · intro h _
      by_contra hidle
      exact statusAt_ne_timeout (h hidle).symm
    · intro h hidle
      exact absurd (h fun j hj => statusAt_bsy_iff.mpr (hall j hj)) hidle

theorem waitAt_last_ne_timeout (sts : Nat → Word) (timeout i : Nat) :
    (waitAt sts timeout i).last ≠ .timeout := by
  rcases waitAt_cases sts timeout i with ⟨k, -, hw⟩ | ⟨-, hw⟩
  · rw [hw]
    exact statusAt_ne_timeout
  · rw [hw]
    exact statusAt_ne_timeout

/-! ## What is reported -/

/-- The last status that was read, of any bank. -/
def lastRead : List FlashAccess → Option FlashStatus
  | [] => none
  | .status _ status :: _ => some status
  | _ :: past => lastRead past

@[simp] theorem lastRead_waited (s : FlashState) (b : Bank) (w : Waited) :
    lastRead (s.waited b w).log = some w.last := rfl

/-- If the bank was not busy any more when its status was read last, that status is returned, and no
    operation bit is set then. -/
def Reports (p : FlashProg FlashStatus) (s : FlashState) : Prop :=
  ∀ status, lastRead (p.exec s).2.log = some status → status ≠ .bsy →
    (p.exec s).1 = status ∧ (p.exec s).2.Disarmed

/-- The program reports what its last wait, from the `i`-th status read on, is about. -/
structure EndsInWait (p : FlashProg FlashStatus) (s : FlashState) (b : Bank) (timeout i : Nat) :
    Prop where
  result : (p.exec s).1 = (waitAt (s.inputs.sts b) timeout i).result
  last : lastRead (p.exec s).2.log = some (waitAt (s.inputs.sts b) timeout i).last

/-- A program that makes these waits, one after the other, reports if and only if it clears what it set
    and none of them ends on its last poll. -/
def ReportsAfter (waits : List (Bank × Nat)) (p : FlashProg FlashStatus) (s : FlashState) : Prop :=
  Reports p s ↔ Disarms p s ∧ ¬ SomeFinishesLast s.inputs waits s.reads

theorem EndsInWait.reports (h : EndsInWait p s b timeout i) :
    Reports p s ↔ Disarms p s ∧ ¬ FinishesLast (s.inputs.sts b) timeout i := by
  rw [← waitAt_last, Reports, Disarms, h.result, h.last]
  constructor
  · intro hreports
    refine ⟨fun hne => ?_, fun hidle => (hreports _ rfl hidle).1⟩
    rcases waitFrom_result _ timeout _ [] _ with htimeout | ⟨hidle, hlast⟩
    · exact absurd htimeout hne
    · exact (hreports _ rfl (hlast.trans_ne hidle)).2
  · rintro ⟨hdis, hlast⟩ status hstatus hidle
    cases hstatus
    have hresult := hlast hidle
    refine ⟨hresult, hdis ?_⟩
    rw [hresult]
    exact waitAt_last_ne_timeout _ _ _

/-- The last wait of a program: there are no others, or it did not return `FLASH_PRC_DONE`. -/
theorem EndsInWait.reportsAfter (h : EndsInWait p s b timeout s.reads)
    (hrest : (waitAt (s.inputs.sts b) timeout s.reads).result = .prcDone → rest = []) :
    ReportsAfter ((b, timeout) :: rest) p s := by
  rw [ReportsAfter, h.reports, someFinishesLast_cons]
  have hno : ¬ ((waitAt (s.inputs.sts b) timeout s.reads).result = .prcDone ∧
      SomeFinishesLast s.inputs rest (waitAt (s.inputs.sts b) timeout s.reads).next) := by
    rintro ⟨hdone, hlater⟩
    rw [hrest hdone] at hlater
    exact hlater
  rw [or_iff_left hno]

/-- A wait that returns `FLASH_PRC_DONE`, and what is done from then on. -/
theorem reportsAfter_cons {q : FlashProg FlashStatus} {s' : FlashState}
    (hexec : p.exec s = q.exec s') (hinputs : s'.inputs = s.inputs)
    (hreads : s'.reads = (waitAt (s.inputs.sts b) timeout s.reads).next)
    (hdone : (waitAt (s.inputs.sts b) timeout s.reads).result = .prcDone)
    (hq : ReportsAfter rest q s') : ReportsAfter ((b, timeout) :: rest) p s := by
  have hnot : ¬ FinishesLast (s.inputs.sts b) timeout s.reads := by
    rw [← waitAt_last, hdone, waitAt_done hdone]
    simp
  rw [ReportsAfter, Reports, Disarms] at hq
  rw [ReportsAfter, Reports, Disarms, hexec, someFinishesLast_cons, hq, hinputs, hreads]
  simp only [hnot, hdone, true_and, false_or]

theorem reportsAfter_whenDone
    (hbody : (s.wait b timeout).result = .prcDone →
      ReportsAfter rest body (s.waited b (s.wait b timeout))) :
    ReportsAfter ((b, timeout) :: rest) (whenDone b timeout body) s := by
  by_cases hdone : (s.wait b timeout).result = .prcDone
  · have hexec : (whenDone b timeout body).exec s = body.exec (s.waited b (s.wait b timeout)) := by
      rw [whenDone_exec, if_pos hdone]
    exact reportsAfter_cons hexec rfl rfl hdone (hbody hdone)
  · have hends : EndsInWait (whenDone b timeout body) s b timeout s.reads := by
      constructor <;> rw [whenDone_exec, if_neg hdone] <;> rfl
    exact hends.reportsAfter fun h => absurd h hdone

/-- An operation: a wait for the bank to be ready, and one for the operation to end. -/
theorem reportsAfter_operation (hends : ∀ s, EndsInWait body s b' timeout' s.reads) :
    ReportsAfter [(b, timeout), (b', timeout')] (whenDone b timeout body) s :=
  reportsAfter_whenDone fun _ => (hends _).reportsAfter fun _ => rfl

/-- What is done before the first wait does not matter. -/
theorem reportsAfter_of_exec {q : FlashProg FlashStatus} {s' : FlashState}
    (hexec : p.exec s = q.exec s') (hinputs : s'.inputs = s.inputs) (hreads : s'.reads = s.reads)
    (hq : ReportsAfter rest q s') : ReportsAfter rest p s := by
  rw [ReportsAfter, Reports, Disarms, hinputs, hreads] at hq
  rwa [ReportsAfter, Reports, Disarms, hexec]

/-- Where no status is read there is nothing to report. -/
theorem reportsAfter_nil (hread : lastRead (p.exec s).2.log = none) (hdis : Disarms p s) :
    ReportsAfter [] p s := by
  refine iff_of_true ?_ ⟨hdis, fun h => h⟩
  intro status hstatus
  rw [hread] at hstatus
  cases hstatus

/-! ## The parts of the functions -/

theorem massErase_endsInWait (b : Bank) (timeout : Nat) (s : FlashState) :
    EndsInWait (massErase b timeout) s b timeout s.reads := by
  constructor <;> simp [massErase, lastRead, FlashState.wait, FlashState.record, FlashState.setCtrl]

theorem erasePageIn_reportsAfter (b : Bank) (timeout : Nat) (pageAddress : Word) (s : FlashState) :
    ReportsAfter [(b, timeout), (b, timeout)] (erasePageIn b timeout pageAddress) s := by
  refine reportsAfter_operation fun s => ?_
  constructor <;> simp [lastRead, FlashState.wait, FlashState.record, FlashState.setCtrl]

theorem programIn_reportsAfter (b : Bank) (d : Datum) (s : FlashState) :
    ReportsAfter [(b, prgmTimeout), (b, prgmTimeout)] (programIn b d) s := by
  refine reportsAfter_operation fun s => ?_
  constructor <;> simp [lastRead, FlashState.wait, FlashState.record, FlashState.setCtrl]

/-- What clears the operation bit, or does not, reads no status. -/
theorem rstUnlessTimeout_exec (status : FlashStatus) (bits : Word) (s : FlashState) :
    ((rstUnlessTimeout status bits).exec s).1 = status ∧
      lastRead ((rstUnlessTimeout status bits).exec s).2.log = lastRead s.log := by
  unfold rstUnlessTimeout
  split <;> simp [lastRead]

theorem writeOptionByte_endsInWait (timeout : Nat) (r : OptionByte) (data : BitVec 16)
    (s : FlashState) : EndsInWait (writeOptionByte timeout r data) s .bank1 timeout s.reads := by
  constructor <;> simp [writeOptionByte, rstUnlessTimeout_exec, FlashState.wait, FlashState.record,
    FlashState.setCtrl]

/-- The flash when the erase of the option bytes is started. -/
def FlashState.erasing (s : FlashState) : FlashState :=
  ((do
    optionKeys
    ctrlSet .bank1 ctrlUobers
    ctrlSet .bank1 ctrlStrt : FlashProg Unit).exec s).2

/-- The part of `eraseThenRdprt` that is run where the bank is ready. -/
def eraseReady (rdprt : BitVec 16) (rdprtTimeout : Nat) (failRst : Word) :
    FlashProg FlashStatus := do
  optionKeys
  ctrlSet .bank1 ctrlUobers
  ctrlSet .bank1 ctrlStrt
  let status ← flashWaitForProcess ersTimeout
  if status = .prcDone then do
    ctrlRst .bank1 ctrlUobers
    writeOptionByte rdprtTimeout .rdprt rdprt
  else
    rstUnlessTimeout status failRst

theorem eraseReady_exec (rdprt : BitVec 16) (rdprtTimeout : Nat) (failRst : Word)
    (s : FlashState) :
    (eraseReady rdprt rdprtTimeout failRst).exec s =
      if (s.wait .bank1 ersTimeout).result = .prcDone then
        (writeOptionByte rdprtTimeout .rdprt rdprt).exec ((ctrlRst .bank1 ctrlUobers).exec
          (s.erasing.waited .bank1 (s.wait .bank1 ersTimeout))).2
      else
        (rstUnlessTimeout (s.wait .bank1 ersTimeout).result failRst).exec
          (s.erasing.waited .bank1 (s.wait .bank1 ersTimeout)) := by
  have hwait : s.erasing.wait .bank1 ersTimeout = s.wait .bank1 ersTimeout := rfl
  have hrun : (eraseReady rdprt rdprtTimeout failRst).exec s =
      (if (s.erasing.wait .bank1 ersTimeout).result = .prcDone then do
          ctrlRst .bank1 ctrlUobers
          writeOptionByte rdprtTimeout .rdprt rdprt
        else
          rstUnlessTimeout (s.erasing.wait .bank1 ersTimeout).result failRst).exec
        (s.erasing.waited .bank1 (s.erasing.wait .bank1 ersTimeout)) := by
    unfold eraseReady
    rw [Prog.exec_bind, Prog.exec_bind, Prog.exec_bind, Prog.exec_bind, flashWaitForProcess_exec]
    rfl
  rw [hrun, hwait]
  split
  · rw [Prog.exec_bind]
  · rfl

theorem eraseThenRdprt_reportsAfter (rdprt : BitVec 16) (rdprtTimeout : Nat) (failRst : Word)
    (s : FlashState) :
    ReportsAfter [(.bank1, ersTimeout), (.bank1, ersTimeout), (.bank1, rdprtTimeout)]
      (eraseThenRdprt rdprt rdprtTimeout failRst) s := by
  show ReportsAfter _ (whenDone .bank1 ersTimeout (eraseReady rdprt rdprtTimeout failRst)) s
  refine reportsAfter_whenDone fun _ => ?_
  generalize s.waited .bank1 _ = s
  have hexec := eraseReady_exec rdprt rdprtTimeout failRst s
  by_cases hdone : (s.wait .bank1 ersTimeout).result = .prcDone
  · rw [if_pos hdone] at hexec
    exact reportsAfter_cons hexec rfl rfl hdone
      ((writeOptionByte_endsInWait rdprtTimeout .rdprt rdprt _).reportsAfter fun _ => rfl)
  · rw [if_neg hdone] at hexec
    have hends : EndsInWait (eraseReady rdprt rdprtTimeout failRst) s .bank1 ersTimeout s.reads := by
      constructor <;> rw [hexec]
      · exact (rstUnlessTimeout_exec _ _ _).1
      · exact (rstUnlessTimeout_exec _ _ _).2
    exact hends.reportsAfter fun h => absurd h hdone

/-- The option bytes that `FLASH_EnableWriteProtect` writes, from one of them on. -/
def writeProtectBytes : List (OptionByte × BitVec 16) → FlashStatus → FlashProg FlashStatus
  | [], status => rstUnlessTimeout status ctrlUobprgm
  | (r, data) :: later, status => do
      let status ← writeProtectByte status r data
      writeProtectBytes later status

/-- A byte that is `0xFF` is not written. -/
def writeProtectWaits : List (OptionByte × BitVec 16) → List (Bank × Nat)
  | [] => []
  | (_, data) :: later =>
      if data ≠ 0xFF then (.bank1, prgmTimeout) :: writeProtectWaits later
      else writeProtectWaits later

/-- After a wait that did not return `FLASH_PRC_DONE` no byte is written any more. -/
theorem writeProtectBytes_of_ne_done {status : FlashStatus} (h : status ≠ .prcDone)
    (bytes : List (OptionByte × BitVec 16)) :
    writeProtectBytes bytes status = rstUnlessTimeout status ctrlUobprgm := by
  induction bytes with
  | nil => rfl
  | cons byte later ih =>
      rw [writeProtectBytes, writeProtectByte, if_neg fun hcontra => h hcontra.1]
      exact ih

theorem writeProtectBytes_reportsAfter (bytes : List (OptionByte × BitVec 16))
    (hs : s.Armed .bank1 ctrlUobprgm) (hlast : lastRead s.log = some .prcDone) :
    ReportsAfter (writeProtectWaits bytes) (writeProtectBytes bytes .prcDone) s := by
  induction bytes generalizing s with
  | nil =>
      have hdis : Disarms (rstUnlessTimeout .prcDone ctrlUobprgm) s :=
        (rstUnlessTimeout_disarms _ _ hs).mpr fun _ => by decide
      refine iff_of_true ?_ ⟨hdis, fun h => h⟩
      intro status hstatus _
      obtain ⟨hresult, hlog⟩ := rstUnlessTimeout_exec .prcDone ctrlUobprgm s
      rw [writeProtectBytes, hlog, hlast] at hstatus
      cases hstatus
      exact ⟨hresult, hdis (by rw [hresult]; simp)⟩
  | cons byte later ih =>
      obtain ⟨r, data⟩ := byte
      by_cases hdata : data = 0xFF
      · have hskip : writeProtectBytes ((r, data) :: later) .prcDone =
            writeProtectBytes later .prcDone := by
          rw [writeProtectBytes, writeProtectByte, if_neg fun hcontra => hcontra.2 hdata]
          rfl
        have hwaits : writeProtectWaits ((r, data) :: later) = writeProtectWaits later := by
          simp [writeProtectWaits, hdata]
        rw [hskip, hwaits]
        exact ih hs hlast
      · rw [writeProtectWaits, if_pos hdata]
        let w := s.wait .bank1 prgmTimeout
        have hexec : (writeProtectBytes ((r, data) :: later) .prcDone).exec s =
            (writeProtectBytes later w.result).exec
              ((s.record (.optionByte r data)).waited .bank1 w) := by
          rw [writeProtectBytes, writeProtectByte, if_pos ⟨rfl, hdata⟩, Prog.exec_bind,
            Prog.exec_bind, store_exec, flashWaitForProcess_exec]
          rfl
        by_cases hdone : w.result = .prcDone
        · rw [hdone] at hexec
          refine reportsAfter_cons hexec rfl rfl hdone (ih hs ?_)
          rw [lastRead_waited, FlashState.wait_done hdone]
        · rw [writeProtectBytes_of_ne_done hdone] at hexec
          have hends : EndsInWait (writeProtectBytes ((r, data) :: later) .prcDone) s .bank1
              prgmTimeout s.reads := by
            constructor <;> rw [hexec]
            · exact (rstUnlessTimeout_exec _ _ _).1
            · exact (rstUnlessTimeout_exec _ _ _).2
          exact hends.reportsAfter fun h => absurd h hdone

/-! ## Each call -/

/-- The wait for the bank to be ready, and that for the operation. -/
def opWaits (b : Bank) (timeout : Nat) : List (Bank × Nat) := [(b, timeout), (b, timeout)]

def erasePageWaits : Option Bank → List (Bank × Nat)
  | some .bank1 => opWaits .bank1 ersTimeout
  | some .bank2 => opWaits .bank2 ersTimeout
  | some .bank3 => opWaits .bank3 extFlashErsTimeout
  | none => []

def programWaits : Option Bank → List (Bank × Nat)
  | some b => opWaits b prgmTimeout
  | none => []

def programByteWaits : Option Bank → List (Bank × Nat)
  | some .bank1 => opWaits .bank1 prgmTimeout
  | some .bank2 => opWaits .bank2 prgmTimeout
  | some .bank3 => []
  | none => []

def writeProtectData (flashPages : Word) : List (OptionByte × BitVec 16) :=
  [(.wrprt0, (~~~flashPages &&& wrprt0Mask).setWidth 16),
    (.wrprt1, ((~~~flashPages &&& wrprt1Mask) >>> 8).setWidth 16),
    (.wrprt2, ((~~~flashPages &&& wrprt2Mask) >>> 16).setWidth 16),
    (.wrprt3, ((~~~flashPages &&& wrprt3Mask) >>> 24).setWidth 16)]

/-- The calls that set an operation bit. -/
def FlashCall.Arms : FlashCall → Prop
  | slibMainEnable _ _ _ _ => False
  | slibDisable _ => False
  | _ => True

/-- The waits of a call, each made if the one before it returned `FLASH_PRC_DONE`. -/
def FlashCall.waits (inputs : FlashInputs) : FlashCall → List (Bank × Nat)
  | erasePage pageAddress => erasePageWaits (bankOf pageAddress)
  | eraseAllPages => opWaits .bank1 ersTimeout ++ [(.bank2, ersTimeout)]
  | eraseBank1AllPages => opWaits .bank1 ersTimeout
  | eraseBank2AllPages => opWaits .bank2 ersTimeout
  | eraseBank3AllPages =>
      if inputs.slibSts0 &&& flashSlibSts0SlibEn ≠ 0 then []
      else opWaits .bank3 extFlashErsTimeout
  | eraseUserOptionBytes => opWaits .bank1 ersTimeout ++ [(.bank1, prgmTimeout)]
  | programWord address _ => programWaits (bankOf address)
  | programHalfWord address _ => programWaits (bankOf address)
  | programByte address _ => programByteWaits (bankOf address)
  | programUserOptionByteData _ _ => opWaits .bank1 prgmTimeout
  | enableWriteProtect flashPages =>
      (.bank1, prgmTimeout) :: writeProtectWaits (writeProtectData flashPages)
  | readProtectConfig _ => opWaits .bank1 ersTimeout ++ [(.bank1, ersTimeout)]
  | userOptionByteConfig _ _ _ => opWaits .bank1 prgmTimeout
  | bootOptConfig _ => opWaits .bank1 prgmTimeout
  | slibMainEnable _ _ _ _ => []
  | slibDisable _ => []

theorem massErase_exec (b : Bank) (timeout : Nat) (s : FlashState) :
    ((massErase b timeout).exec s).1 = (s.wait b timeout).result ∧
      ((massErase b timeout).exec s).2.reads = (s.wait b timeout).next := by
  constructor <;> simp [massErase, FlashState.wait, FlashState.record, FlashState.setCtrl]

/-- Bank 2 is erased if the erase of bank 1 returned `FLASH_PRC_DONE`. -/
def eraseBothBanks : FlashProg FlashStatus := do
  let status ← massErase .bank1 ersTimeout
  if status = .prcDone then massErase .bank2 ersTimeout else return status

theorem eraseBothBanks_reportsAfter (s : FlashState) :
    ReportsAfter [(.bank1, ersTimeout), (.bank2, ersTimeout)] eraseBothBanks s := by
  obtain ⟨hresult, hnext⟩ := massErase_exec .bank1 ersTimeout s
  have hexec : eraseBothBanks.exec s =
      (if (s.wait .bank1 ersTimeout).result = .prcDone then massErase .bank2 ersTimeout
        else return (s.wait .bank1 ersTimeout).result).exec
          ((massErase .bank1 ersTimeout).exec s).2 := by
    rw [eraseBothBanks, Prog.exec_bind, hresult]
  by_cases hdone : (s.wait .bank1 ersTimeout).result = .prcDone
  · rw [if_pos hdone] at hexec
    refine reportsAfter_cons hexec ?_ hnext hdone
      ((massErase_endsInWait .bank2 ersTimeout _).reportsAfter fun _ => rfl)
    simp [massErase, FlashState.record, FlashState.setCtrl]
  · rw [if_neg hdone] at hexec
    have hends : EndsInWait eraseBothBanks s .bank1 ersTimeout s.reads := by
      constructor <;> rw [hexec]
      · rfl
      · exact (massErase_endsInWait .bank1 ersTimeout s).last
    exact hends.reportsAfter fun h => absurd h hdone

theorem flashEraseAllPages_exec (s : FlashState) :
    flashEraseAllPages.exec s = (whenDone .bank1 ersTimeout eraseBothBanks).exec s := by
  rw [flashEraseAllPages, Prog.exec_bind, whenDone_exec, whenDone_exec]
  by_cases hdone : (s.wait .bank1 ersTimeout).result = .prcDone
  · rw [if_pos hdone, if_pos hdone, eraseBothBanks, Prog.exec_bind]
  · simp only [hdone, if_false]
    rfl

theorem flashEraseAllPages_reportsAfter (s : FlashState) :
    ReportsAfter (FlashCall.eraseAllPages.waits s.inputs) flashEraseAllPages s := by
  refine reportsAfter_of_exec (flashEraseAllPages_exec s) rfl rfl ?_
  exact reportsAfter_whenDone fun _ => eraseBothBanks_reportsAfter _

theorem flashEraseBank3AllPages_reportsAfter (hs : s.Disarmed) (hlog : s.log = []) :
    ReportsAfter (FlashCall.eraseBank3AllPages.waits s.inputs) flashEraseBank3AllPages s := by
  have hexec : flashEraseBank3AllPages.exec s =
      (if s.inputs.slibSts0 &&& flashSlibSts0SlibEn ≠ 0 then return .pgrmFlr
        else whenDone .bank3 extFlashErsTimeout (massErase .bank3 extFlashErsTimeout)).exec s := by
    rw [flashEraseBank3AllPages, Prog.exec_bind]
    simp [flashGetSlibState]
  refine reportsAfter_of_exec hexec rfl rfl ?_
  rw [FlashCall.waits]
  split
  · refine reportsAfter_nil ?_ fun _ => hs
    rw [Prog.pure_eq, Prog.exec_ret, hlog, lastRead]
  · exact reportsAfter_operation (massErase_endsInWait _ _)

/-- Where a part is run by address, the waits are those of the part. -/
theorem byAddress_reportsAfter {W : Option Bank → List (Bank × Nat)} {address : Word}
    {inBank1 inBank2 inBank3 : FlashProg FlashStatus} (hs : s.Disarmed) (hlog : s.log = [])
    (hnone : W none = []) (h1 : ReportsAfter (W (some .bank1)) inBank1 s)
    (h2 : ReportsAfter (W (some .bank2)) inBank2 s)
    (h3 : ReportsAfter (W (some .bank3)) inBank3 s) :
    ReportsAfter (W (bankOf address)) (byAddress address inBank1 inBank2 inBank3) s := by
  refine byAddress_cases (P := fun p => ReportsAfter (W (bankOf address)) p s)
    (fun h => by rwa [h]) (fun h => by rwa [h]) (fun h => by rwa [h]) ?_
  intro h
  rw [h, hnone]
  refine reportsAfter_nil ?_ fun _ => hs
  rw [Prog.pure_eq, Prog.exec_ret, hlog, lastRead]

theorem flashEnableWriteProtect_reportsAfter (flashPages : Word) (hs : s.Disarmed) :
    ReportsAfter ((FlashCall.enableWriteProtect flashPages).waits s.inputs)
      (flashEnableWriteProtect flashPages) s := by
  refine reportsAfter_whenDone fun hdone => ?_
  let ready := s.waited .bank1 (s.wait .bank1 prgmTimeout)
  have harmed : ((ctrlSet .bank1 ctrlUobprgm).exec (optionKeys.exec ready).2).2.Armed .bank1
      ctrlUobprgm := by
    have hopen : (optionKeys.exec ready).2.Armed .bank1 0 := (s.armed_zero .bank1).mpr hs
    have hset := ctrlSet_armed ctrlUobprgm hopen
    rwa [show 0 ||| ctrlUobprgm &&& opBits = ctrlUobprgm by decide] at hset
  refine reportsAfter_of_exec ?_ (by rfl) (by rfl)
    (writeProtectBytes_reportsAfter (writeProtectData flashPages) harmed ?_)
  · rw [Prog.exec_bind, Prog.exec_bind]
    rfl
  · have hlast : lastRead ready.log = some .prcDone := by
      rw [lastRead_waited, FlashState.wait_done hdone]
    exact hlast

theorem flashProgramUserOptionByteData_reportsAfter (address : Word) (data : BitVec 8)
    (s : FlashState) :
    ReportsAfter (opWaits .bank1 prgmTimeout) (flashProgramUserOptionByteData address data) s := by
  refine reportsAfter_operation fun s => ?_
  have hends := writeOptionByte_endsInWait prgmTimeout (.data address) (data.setWidth 16)
    (optionKeys.exec s).2
  constructor <;> rw [Prog.exec_bind]
  · exact hends.result
  · exact hends.last

theorem flashUserOptionByteConfig_reportsAfter (uobIwdg uobStop uobStdby : BitVec 16)
    (s : FlashState) :
    ReportsAfter (opWaits .bank1 prgmTimeout) (flashUserOptionByteConfig uobIwdg uobStop uobStdby)
      s := by
  refine reportsAfter_of_exec (Prog.exec_bind ..) rfl rfl ?_
  exact reportsAfter_operation fun s => writeOptionByte_endsInWait _ _ _ s

theorem flashBootOptConfig_reportsAfter (flashBoot : BitVec 16) (s : FlashState) :
    ReportsAfter (opWaits .bank1 prgmTimeout) (flashBootOptConfig flashBoot) s := by
  refine reportsAfter_of_exec (Prog.exec_bind ..) rfl rfl ?_
  refine reportsAfter_operation fun s => ?_
  have hends := writeOptionByte_endsInWait prgmTimeout .usr
    (if flashBoot = flashBootFromBank1 then s.inputs.usr ||| uobUsrBtopt
      else s.inputs.usr &&& ~~~uobUsrBtopt) s
  constructor <;> rw [Prog.exec_bind]
  · exact hends.result
  · exact hends.last

/-- If the bank was not busy any more when its status was read last in the call, the call returns that
    status, and leaves no operation bit set. -/
def FlashCall.Reports (call : FlashCall) (inputs : FlashInputs) (s : FlashState) : Prop :=
  let run := call.body.exec (s.begin inputs)
  ∀ status, lastRead run.2.log = some status → status ≠ .bsy →
    run.1 = .status status ∧ run.2.Disarmed

/-- A call whose body returns a `FLASH_Status` clears and reports as the body does. -/
theorem FlashCall.reports_of_body {call : FlashCall} (hbody : call.body = .status <$> p)
    (hs : s.Disarmed) (hp : ReportsAfter (call.waits inputs) p (s.begin inputs)) :
    call.Reports inputs s ↔
      call.Clears inputs ∧ ¬ SomeFinishesLast inputs (call.waits inputs) 0 := by
  have hclears := call.clears_iff inputs s hs
  simp only [hbody, Prog.exec_map, ne_eq, FlashResult.status.injEq] at hclears
  simp only [FlashCall.Reports, hbody, Prog.exec_map, FlashResult.status.injEq]
  exact hp.trans (and_congr_left' hclears)

theorem FlashCall.reports_iff (call : FlashCall) (inputs : FlashInputs) (s : FlashState)
    (hs : s.Disarmed) (harms : call.Arms) :
    call.Reports inputs s ↔
      call.Clears inputs ∧ ¬ SomeFinishesLast inputs (call.waits inputs) 0 := by
  have hbegin : (s.begin inputs).Disarmed := hs
  cases call
  case erasePage pageAddress =>
    exact reports_of_body rfl hs (byAddress_reportsAfter (W := erasePageWaits) hbegin rfl rfl
      (erasePageIn_reportsAfter _ _ _ _) (erasePageIn_reportsAfter _ _ _ _)
      (erasePageIn_reportsAfter _ _ _ _))
  case eraseAllPages => exact reports_of_body rfl hs (flashEraseAllPages_reportsAfter _)
  case eraseBank1AllPages =>
    exact reports_of_body rfl hs (reportsAfter_operation (massErase_endsInWait _ _))
  case eraseBank2AllPages =>
    exact reports_of_body rfl hs (reportsAfter_operation (massErase_endsInWait _ _))
  case eraseBank3AllPages =>
    exact reports_of_body rfl hs (flashEraseBank3AllPages_reportsAfter hbegin rfl)
  case eraseUserOptionBytes =>
    refine reports_of_body rfl hs (reportsAfter_of_exec (Prog.exec_bind ..) rfl rfl ?_)
    exact eraseThenRdprt_reportsAfter _ _ _ _
  case programWord address data =>
    exact reports_of_body rfl hs (byAddress_reportsAfter (W := programWaits) hbegin rfl rfl
      (programIn_reportsAfter _ _ _) (programIn_reportsAfter _ _ _) (programIn_reportsAfter _ _ _))
  case programHalfWord address data =>
    exact reports_of_body rfl hs (byAddress_reportsAfter (W := programWaits) hbegin rfl rfl
      (programIn_reportsAfter _ _ _) (programIn_reportsAfter _ _ _) (programIn_reportsAfter _ _ _))
  case programByte address data =>
    exact reports_of_body rfl hs (byAddress_reportsAfter (W := programByteWaits) hbegin rfl rfl
      (programIn_reportsAfter _ _ _) (programIn_reportsAfter _ _ _)
      (reportsAfter_nil rfl fun _ => hbegin))
  case programUserOptionByteData address data =>
    exact reports_of_body rfl hs (flashProgramUserOptionByteData_reportsAfter _ _ _)
  case enableWriteProtect flashPages =>
    exact reports_of_body rfl hs (flashEnableWriteProtect_reportsAfter _ hbegin)
  case readProtectConfig newState =>
    exact reports_of_body rfl hs (eraseThenRdprt_reportsAfter _ _ _ _)
  case userOptionByteConfig uobIwdg uobStop uobStdby =>
    exact reports_of_body rfl hs (flashUserOptionByteConfig_reportsAfter _ _ _ _)
  case bootOptConfig flashBoot => exact reports_of_body rfl hs (flashBootOptConfig_reportsAfter _ _)
  case slibMainEnable => exact harms.elim
  case slibDisable => exact harms.elim

/-- **A wait function is exact if and only if the bank is not found ready on the last poll, and a call
    reports how its operation ended, and clears its bit, if and only if it clears the right one and none
    of its waits ends on the last poll.** -/
theorem flash_waits_exact_iff (f : FlashWait) (timeout : Nat) (call : FlashCall)
    (inputs : FlashInputs) (s : FlashState) (hs : s.Disarmed) (harms : call.Arms) :
    (f.Exact timeout inputs s ↔ ¬ FinishesLast (inputs.sts f.bank) timeout 0) ∧
      (call.Reports inputs s ↔
        call.Clears inputs ∧ ¬ SomeFinishesLast inputs (call.waits inputs) 0) :=
  ⟨f.exact_iff timeout inputs s, call.reports_iff inputs s hs harms⟩

theorem not_finishesLast_of_idle {sts : Nat → Word} (h : ¬ Busy (sts i)) (ht : 0 < timeout) :
    ¬ FinishesLast sts timeout i :=
  fun hlast => h (hlast.1 0 ht)

/-- An erase of bank 1 that fails at once is reported, and `CHPERS` is clear. -/
theorem flash_waits_exact_at_once :
    (FlashWait.waitForProcess.Exact prgmTimeout failsAfterStart disarmedFlash ∧
      FlashCall.eraseBank1AllPages.Reports failsAfterStart disarmedFlash) ∧
        disarmedFlash.Disarmed := by
  obtain ⟨hexact, hreports⟩ := flash_waits_exact_iff .waitForProcess prgmTimeout
    .eraseBank1AllPages failsAfterStart disarmedFlash disarmedFlash_disarmed trivial
  have hidle : ∀ timeout i, 0 < timeout →
      ¬ FinishesLast (failsAfterStart.sts .bank1) timeout i := by
    intro timeout i ht
    refine not_finishesLast_of_idle ?_ ht
    simp only [failsAfterStart]
    split <;> decide
  refine ⟨⟨hexact.mpr (hidle _ _ (by decide)), hreports.mpr ⟨trivial, ?_⟩⟩, disarmedFlash_disarmed⟩
  rintro (hlast | ⟨k, -, -, hlast | ⟨k', -, -, hnone⟩⟩)
  · exact hidle _ _ (by decide) hlast
  · exact hidle _ _ (by decide) hlast
  · exact hnone

/-- Bank 1 is ready in the poll that uses up `PRGM_TIMEOUT`. -/
def readyOnLastPoll : FlashInputs where
  sts _ i := if i < prgmTimeout then flagBsy else 0
  uob := 0
  slibSts0 := 0
  slibPswSts := 0
  usr := 0

theorem readyOnLastPoll_finishesLast :
    FinishesLast (readyOnLastPoll.sts .bank1) prgmTimeout 0 := by
  constructor
  · intro j hj
    simp only [readyOnLastPoll, Nat.zero_add, if_pos hj]
    decide
  · simp only [readyOnLastPoll, Nat.zero_add, lt_self_iff_false, if_false]
    decide

/-- What is read last is `FLASH_PRC_DONE`, and what is returned is `FLASH_TIMEOUT`. -/
theorem flash_waits_not_exact :
    ¬ ∀ (f : FlashWait) (timeout : Nat) (inputs : FlashInputs) (s : FlashState),
      f.Exact timeout inputs s := by
  intro h
  have hexact := h .waitForProcess prgmTimeout readyOnLastPoll disarmedFlash
  exact (FlashWait.exact_iff _ _ _ _).mp hexact readyOnLastPoll_finishesLast

end At32
