import McuDrivers.At32.FlashWait
import McuDrivers.Library.Calls
import McuDrivers.Library.History

set_option autoImplicit false

/-! # AT32F4xx: operations start in a bank that is ready

Each operation of the flash waits for the bank that it is going to use. An access is guarded if the
last status read of that bank, in the same call, was `FLASH_PRC_DONE`. Two functions do not keep to
this: `FLASH_EraseAllPages` waits for bank 1 only, and `FLASH_SlibMainEnable` does not look at what its
second wait returns. -/

namespace At32

/-! ## Guarded accesses -/

/-- The bank in which an access starts an operation. Option bytes and the SLIB are operated by
    bank 1. -/
def FlashAccess.starts : FlashAccess → Option Bank
  | ctrlSet b bits => if bits &&& ctrlStrt ≠ 0 then some b else none
  | datum d => bankOf d.address
  | optionByte _ _ => some .bank1
  | slibSetPsw _ => some .bank1
  | slibSetRange _ => some .bank1
  | _ => none

/-- The last status read of a bank. -/
def lastStatus (b : Bank) : List FlashAccess → Option FlashStatus
  | [] => none
  | .status b' status :: past => if b' = b then some status else lastStatus b past
  | _ :: past => lastStatus b past

/-- An operation starts in a bank only if its last status read was `FLASH_PRC_DONE`. -/
def StartsDone (a : FlashAccess) (past : List FlashAccess) : Prop :=
  ∀ b, a.starts = some b → lastStatus b past = some .prcDone

def FlashState.Guarded (s : FlashState) : Prop := History.Guarded StartsDone s.log

/-- The last status read of the bank was `FLASH_PRC_DONE`. -/
def FlashState.Ready (s : FlashState) (b : Bank) : Prop := lastStatus b s.log = some .prcDone

variable {s : FlashState} {b b' : Bank} {a : FlashAccess} {bits v : Word} {w : Waited}
  {timeout : Nat} {body : FlashProg FlashStatus} {status : FlashStatus}

/-! ## What each access does to the record -/

theorem record_guarded (s : FlashState) (a : FlashAccess) :
    (s.record a).Guarded ↔ (∀ b, a.starts = some b → s.Ready b) ∧ s.Guarded := Iff.rfl

@[simp] theorem setCtrl_guarded : (s.setCtrl b v).Guarded ↔ s.Guarded := Iff.rfl

@[simp] theorem setCtrl_ready : (s.setCtrl b' v).Ready b ↔ s.Ready b := Iff.rfl

/-- What is not a status read leaves the last one as it is. -/
theorem record_ready (h : ∀ b' status, a ≠ .status b' status) :
    (s.record a).Ready b ↔ s.Ready b := by
  cases a with
  | status b' status => exact absurd rfl (h b' status)
  | _ => rfl

theorem lastStatus_statuses (earlier : List FlashStatus) (past : List FlashAccess) (h : b' ≠ b) :
    lastStatus b (earlier.map (.status b') ++ past) = lastStatus b past := by
  induction earlier with
  | nil => rfl
  | cons status earlier ih => simpa [lastStatus, h] using ih

@[simp] theorem waited_ready : (s.waited b w).Ready b ↔ w.last = .prcDone := by
  simp [FlashState.Ready, FlashState.waited, lastStatus]

/-- Waiting for one bank says nothing about another. -/
theorem waited_ready_other (h : b' ≠ b) : (s.waited b' w).Ready b ↔ s.Ready b := by
  simp [FlashState.Ready, FlashState.waited, lastStatus, h, lastStatus_statuses]

theorem guarded_statuses (earlier : List FlashStatus) (past : List FlashAccess) :
    History.Guarded StartsDone (earlier.map (.status b) ++ past) ↔
      History.Guarded StartsDone past := by
  induction earlier with
  | nil => rfl
  | cons status earlier ih => simp [StartsDone, FlashAccess.starts, ih]

@[simp] theorem waited_guarded : (s.waited b w).Guarded ↔ s.Guarded := by
  unfold FlashState.Guarded FlashState.waited
  simp [StartsDone, FlashAccess.starts, guarded_statuses]

/-! ## The parts of the functions -/

/-- What follows a wait that returned `FLASH_PRC_DONE` finds the bank ready. -/
theorem whenDone_guarded (hs : s.Guarded)
    (hbody : ∀ s : FlashState, s.Guarded → s.Ready b → (body.exec s).2.Guarded) :
    ((whenDone b timeout body).exec s).2.Guarded := by
  rw [whenDone_exec]
  split
  · next hdone =>
      exact hbody _ (waited_guarded.mpr hs) (waited_ready.mpr (FlashState.wait_done hdone))
  · exact waited_guarded.mpr hs

/-- A bank's mass erase is guarded if and only if the bank was found ready. -/
theorem massErase_guarded (b : Bank) (timeout : Nat) (hs : s.Guarded) :
    ((massErase b timeout).exec s).2.Guarded ↔ s.Ready b := by
  simp [massErase, record_guarded, FlashAccess.starts, record_ready, ctrlChpers, ctrlStrt, hs]

theorem erasePageIn_guarded (pageAddress : Word) (hs : s.Guarded) :
    ((erasePageIn b timeout pageAddress).exec s).2.Guarded := by
  apply whenDone_guarded hs
  intro s hs hready
  simp [record_guarded, FlashAccess.starts, record_ready, ctrlPgers, ctrlStrt, hs, hready]

theorem programIn_guarded {d : Datum} (hs : s.Guarded) (hd : bankOf d.address = some b) :
    ((programIn b d).exec s).2.Guarded := by
  apply whenDone_guarded hs
  intro s hs hready
  simp [record_guarded, FlashAccess.starts, record_ready, ctrlPrgm, ctrlStrt, hs, hready, hd]

theorem rstUnlessTimeout_guarded :
    ((rstUnlessTimeout status bits).exec s).2.Guarded ↔ s.Guarded := by
  unfold rstUnlessTimeout
  split <;> simp [record_guarded, FlashAccess.starts]

theorem writeOptionByte_guarded (r : OptionByte) (data : BitVec 16) (hs : s.Guarded)
    (hready : s.Ready .bank1) : ((writeOptionByte timeout r data).exec s).2.Guarded := by
  simp [writeOptionByte, rstUnlessTimeout_guarded, record_guarded, FlashAccess.starts,
    record_ready, ctrlUobprgm, ctrlStrt, hs, hready]

/-- From one write protection byte to the next: as long as the status is `FLASH_PRC_DONE`, bank 1 is
    ready. -/
theorem writeProtectByte_guarded (status : FlashStatus) (r : OptionByte) (data : BitVec 16)
    (hs : s.Guarded) (hready : status = .prcDone → s.Ready .bank1) :
    ((writeProtectByte status r data).exec s).2.Guarded ∧
      (((writeProtectByte status r data).exec s).1 = .prcDone →
        ((writeProtectByte status r data).exec s).2.Ready .bank1) := by
  unfold writeProtectByte
  split
  · next hwrite =>
      simpa [record_guarded, FlashAccess.starts, hs] using ⟨hready hwrite.1, FlashState.wait_done⟩
  · exact ⟨hs, hready⟩

/-! ## The functions -/

theorem flashErasePage_guarded (pageAddress : Word) (hs : s.Guarded) :
    ((flashErasePage pageAddress).exec s).2.Guarded := by
  apply byAddress_cases (P := fun p => (p.exec s).2.Guarded)
  · intro _
    exact erasePageIn_guarded pageAddress hs
  · intro _
    exact erasePageIn_guarded pageAddress hs
  · intro _
    exact erasePageIn_guarded pageAddress hs
  · intro _
    exact hs

theorem flashProgramWord_guarded (address data : Word) (hs : s.Guarded) :
    ((flashProgramWord address data).exec s).2.Guarded :=
  byAddress_cases (P := fun p => (p.exec s).2.Guarded)
    (fun h => programIn_guarded hs h) (fun h => programIn_guarded hs h)
    (fun h => programIn_guarded hs h) fun _ => hs

theorem flashProgramHalfWord_guarded (address : Word) (data : BitVec 16) (hs : s.Guarded) :
    ((flashProgramHalfWord address data).exec s).2.Guarded :=
  byAddress_cases (P := fun p => (p.exec s).2.Guarded)
    (fun h => programIn_guarded hs h) (fun h => programIn_guarded hs h)
    (fun h => programIn_guarded hs h) fun _ => hs

theorem flashProgramByte_guarded (address : Word) (data : BitVec 8) (hs : s.Guarded) :
    ((flashProgramByte address data).exec s).2.Guarded :=
  byAddress_cases (P := fun p => (p.exec s).2.Guarded)
    (fun h => programIn_guarded hs h) (fun h => programIn_guarded hs h)
    (fun _ => hs) fun _ => hs

theorem flashEraseBank3AllPages_guarded (hs : s.Guarded) :
    ((flashEraseBank3AllPages).exec s).2.Guarded := by
  unfold flashEraseBank3AllPages flashGetSlibState
  rw [Prog.exec_bind]
  split
  · exact hs
  · exact whenDone_guarded hs fun s hs => (massErase_guarded _ _ hs).mpr

theorem eraseThenRdprt_guarded (rdprt : BitVec 16) (rdprtTimeout : Nat) (failRst : Word)
    (hs : s.Guarded) : ((eraseThenRdprt rdprt rdprtTimeout failRst).exec s).2.Guarded := by
  apply whenDone_guarded hs
  intro s hs hready
  simp only [Prog.exec_bind, optionKeys, store_exec, ctrlSet_exec, flashWaitForProcess_exec]
  split
  · next hdone =>
      rw [Prog.exec_bind]
      apply writeOptionByte_guarded
      · simp [record_guarded, FlashAccess.starts, record_ready, ctrlUobers, ctrlStrt, hs, hready]
      · simpa [record_ready] using FlashState.wait_done hdone
  · rw [rstUnlessTimeout_guarded]
    simp [record_guarded, FlashAccess.starts, record_ready, ctrlUobers, ctrlStrt, hs, hready]

theorem flashEraseUserOptionBytes_guarded (hs : s.Guarded) :
    ((flashEraseUserOptionBytes).exec s).2.Guarded := by
  unfold flashEraseUserOptionBytes flashGetReadProtectStatus
  rw [Prog.exec_bind]
  exact eraseThenRdprt_guarded _ _ _ hs

theorem flashProgramUserOptionByteData_guarded (address : Word) (data : BitVec 8)
    (hs : s.Guarded) : ((flashProgramUserOptionByteData address data).exec s).2.Guarded := by
  apply whenDone_guarded hs
  intro s hs hready
  simp only [Prog.exec_bind, optionKeys, store_exec]
  apply writeOptionByte_guarded
  · simp [record_guarded, FlashAccess.starts, hs]
  · simpa [record_ready] using hready

theorem flashEnableWriteProtect_guarded (flashPages : Word) (hs : s.Guarded) :
    ((flashEnableWriteProtect flashPages).exec s).2.Guarded := by
  apply whenDone_guarded hs
  intro s hs hready
  simp only [Prog.exec_bind, optionKeys, store_exec, ctrlSet_exec, rstUnlessTimeout_guarded]
  generalize hs0 : ((((s.record _).record _).setCtrl _ _).record _) = s0
  have hguarded : s0.Guarded := by
    rw [← hs0]
    simp [record_guarded, FlashAccess.starts, ctrlUobprgm, ctrlStrt, hs]
  have hbank : s0.Ready .bank1 := by
    rw [← hs0]
    simpa [record_ready] using hready
  -- each byte is written from the state and the status that the byte before it left
  have h0 := writeProtectByte_guarded .prcDone .wrprt0
    ((~~~flashPages &&& wrprt0Mask).setWidth 16) hguarded fun _ => hbank
  generalize (writeProtectByte _ _ _).exec s0 = r0 at h0 ⊢
  have h1 := writeProtectByte_guarded r0.1 .wrprt1
    (((~~~flashPages &&& wrprt1Mask) >>> 8).setWidth 16) h0.1 h0.2
  generalize (writeProtectByte _ _ _).exec r0.2 = r1 at h1 ⊢
  have h2 := writeProtectByte_guarded r1.1 .wrprt2
    (((~~~flashPages &&& wrprt2Mask) >>> 16).setWidth 16) h1.1 h1.2
  generalize (writeProtectByte _ _ _).exec r1.2 = r2 at h2 ⊢
  exact (writeProtectByte_guarded r2.1 .wrprt3
    (((~~~flashPages &&& wrprt3Mask) >>> 24).setWidth 16) h2.1 h2.2).1

theorem flashUserOptionByteConfig_guarded (uobIwdg uobStop uobStdby : BitVec 16)
    (hs : s.Guarded) :
    ((flashUserOptionByteConfig uobIwdg uobStop uobStdby).exec s).2.Guarded := by
  unfold flashUserOptionByteConfig
  simp only [Prog.exec_bind, optionKeys, store_exec]
  apply whenDone_guarded
  · simp [record_guarded, FlashAccess.starts, hs]
  · intro s hs hready
    exact writeOptionByte_guarded _ _ hs hready

theorem flashBootOptConfig_guarded (flashBoot : BitVec 16) (hs : s.Guarded) :
    ((flashBootOptConfig flashBoot).exec s).2.Guarded := by
  unfold flashBootOptConfig
  simp only [Prog.exec_bind, optionKeys, store_exec]
  apply whenDone_guarded
  · simp [record_guarded, FlashAccess.starts, hs]
  · intro s hs hready
    rw [Prog.exec_bind]
    exact writeOptionByte_guarded _ _ hs hready

theorem flashSlibDisable_guarded (psw : Word) (hs : s.Guarded) :
    ((flashSlibDisable psw).exec s).2.Guarded := by
  simp only [flashSlibDisable, Prog.exec_bind, store_exec, flashWaitForProcess_exec]
  split <;> simp [record_guarded, FlashAccess.starts, hs]

/-! ## The two functions that start unguarded -/

theorem massErase_result : ((massErase b timeout).exec s).1 = (s.wait b timeout).result := by
  simp [massErase]

theorem massErase_ready_other (h : b' ≠ b) :
    ((massErase b' timeout).exec s).2.Ready b ↔ s.Ready b := by
  simp [massErase, record_ready, waited_ready_other h]

/-- The mass erase of bank 2 starts whenever that of bank 1 was seen to end. -/
theorem flashEraseAllPages_guarded (hs : s.Guarded) (hready : ¬ s.Ready .bank2) :
    ((flashEraseAllPages).exec s).2.Guarded ↔
      ((s.wait .bank1 ersTimeout).result = .prcDone →
        (waitAt (s.inputs.sts .bank1) ersTimeout (s.wait .bank1 ersTimeout).next).result ≠
          .prcDone) := by
  unfold flashEraseAllPages
  rw [Prog.exec_bind, whenDone_exec]
  split
  · next hdone =>
      -- bank 1 is erased; bank 2 is as far from ready as it was before
      have hbank : (s.waited .bank1 (s.wait .bank1 ersTimeout)).Ready .bank1 :=
        waited_ready.mpr (FlashState.wait_done hdone)
      have herase := (massErase_guarded .bank1 ersTimeout (waited_guarded.mpr hs)).mpr hbank
      rw [massErase_result, waited_wait]
      split
      · next hdone2 =>
          rw [massErase_guarded .bank2 ersTimeout herase, massErase_ready_other (by decide),
            waited_ready_other (by decide)]
          simp [hready, hdone, hdone2]
      · next hdone2 => simp [herase, hdone2]
  · next hdone => simp [hdone, hs]

/-- The range is written whatever the wait after the password returns. -/
theorem flashSlibMainEnable_guarded (psw : Word) (startPage dataStartPage endPage : BitVec 16)
    (hs : s.Guarded) :
    ((flashSlibMainEnable psw startPage dataStartPage endPage).exec s).2.Guarded ↔
      (slibParamOk startPage dataStartPage endPage →
        (s.wait .bank1 prgmTimeout).result = .prcDone →
          (waitAt (s.inputs.sts .bank1) prgmTimeout (s.wait .bank1 prgmTimeout).next).last =
            .prcDone) := by
  simp only [flashSlibMainEnable, Prog.exec_bind, flashWaitForProcess_exec]
  split
  · next hparam =>
      split
      · next hdone =>
          simp [record_guarded, FlashAccess.starts, record_ready, hparam, hdone,
            FlashState.wait_done hdone, hs]
      · next hdone => simp [hdone, hs]
  · next hparam => simp [hparam, hs]

/-! ## Each call, and every sequence of calls -/

/-- What the status register of bank 1 has to read as for a call to start nothing in a bank that is
    not ready. -/
def FlashCall.Guards (inputs : FlashInputs) : FlashCall → Prop
  | eraseAllPages =>
      let first := waitAt (inputs.sts .bank1) ersTimeout 0
      first.result = .prcDone →
        (waitAt (inputs.sts .bank1) ersTimeout first.next).result ≠ .prcDone
  | slibMainEnable _ startPage dataStartPage endPage =>
      let first := waitAt (inputs.sts .bank1) prgmTimeout 0
      slibParamOk startPage dataStartPage endPage → first.result = .prcDone →
        (waitAt (inputs.sts .bank1) prgmTimeout first.next).last = .prcDone
  | _ => True

theorem flashCall_guarded (call : FlashCall) (inputs : FlashInputs) (s : FlashState) :
    (call.body.exec (s.begin inputs)).2.Guarded ↔ call.Guards inputs := by
  have hs : (s.begin inputs).Guarded := trivial
  have hready : ¬ (s.begin inputs).Ready .bank2 := by simp [FlashState.Ready, FlashState.begin,
    lastStatus]
  cases call
  all_goals simp only [FlashCall.body, Prog.exec_map, FlashCall.Guards, iff_true]
  case erasePage pageAddress => exact flashErasePage_guarded pageAddress hs
  case eraseAllPages => exact flashEraseAllPages_guarded hs hready
  case eraseBank1AllPages =>
    exact whenDone_guarded hs fun s hs => (massErase_guarded .bank1 ersTimeout hs).mpr
  case eraseBank2AllPages =>
    exact whenDone_guarded hs fun s hs => (massErase_guarded .bank2 ersTimeout hs).mpr
  case eraseBank3AllPages => exact flashEraseBank3AllPages_guarded hs
  case eraseUserOptionBytes => exact flashEraseUserOptionBytes_guarded hs
  case programWord address data => exact flashProgramWord_guarded address data hs
  case programHalfWord address data => exact flashProgramHalfWord_guarded address data hs
  case programByte address data => exact flashProgramByte_guarded address data hs
  case programUserOptionByteData address data =>
    exact flashProgramUserOptionByteData_guarded address data hs
  case enableWriteProtect flashPages => exact flashEnableWriteProtect_guarded flashPages hs
  case readProtectConfig newState => exact eraseThenRdprt_guarded _ _ _ hs
  case userOptionByteConfig uobIwdg uobStop uobStdby =>
    exact flashUserOptionByteConfig_guarded uobIwdg uobStop uobStdby hs
  case bootOptConfig flashBoot => exact flashBootOptConfig_guarded flashBoot hs
  case slibMainEnable psw startPage dataStartPage endPage =>
    exact flashSlibMainEnable_guarded psw startPage dataStartPage endPage hs
  case slibDisable psw => exact flashSlibDisable_guarded psw hs

theorem flashStep_guarded (c : FlashCall × FlashInputs) (s : FlashState) :
    (flashStep c s).Guarded ↔ c.1.Guards c.2 :=
  flashCall_guarded c.1 c.2 s

/-- **Every call of a sequence starts its operations in banks that are ready if and only if the status
    reads of each call are such that `FLASH_EraseAllPages` does not come to bank 2, and
    `FLASH_SlibMainEnable` does not come to the range with the password not accepted.** -/
theorem flash_starts_done_iff (calls : List (FlashCall × FlashInputs)) (s : FlashState) :
    Calls.All flashStep (fun _ _ s' => s'.Guarded) calls s ↔ ∀ c ∈ calls, c.1.Guards c.2 := by
  apply Calls.all_iff (I := fun _ => True)
  · intro c s _
    exact flashStep_guarded c s
  · intro c s _ _
    trivial
  · trivial

/-- Banks 1 and 3 read as idle; bank 2 is busy. -/
def bank2Busy : FlashInputs where
  sts b _ := if b = .bank2 then flagBsy else 0
  uob := 0
  slibSts0 := 0
  slibPswSts := 0
  usr := 0

/-- The flash with no operation going on. -/
def idleFlash : FlashState where
  inputs := bank2Busy
  reads := 0
  ctrl _ := 0
  log := []

/-- With bank 2 busy, its mass erase starts all the same. -/
theorem flash_starts_done_fails :
    ¬ ∀ calls : List (FlashCall × FlashInputs),
      Calls.All flashStep (fun _ _ s' => s'.Guarded) calls idleFlash := by
  have hidle (i : Nat) : (waitAt (bank2Busy.sts .bank1) ersTimeout i).result = .prcDone := by
    rw [waitAt_of_ne_bsy _ (by decide)] <;> simp [statusAt, bank2Busy, flagBsy]
  apply Calls.not_forall_all (c := (FlashCall.eraseAllPages, bank2Busy))
  rw [flashStep_guarded]
  intro h
  exact h (hidle 0) (hidle _)

end At32
