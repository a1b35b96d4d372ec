import McuDrivers.At32.Flash

set_option autoImplicit false

/-! # AT32F4xx: waiting for a flash bank

What the wait functions return and leave, read off the values of the status register. Everything
later uses `flashWaitForBankProcess_exec` and does not look into the loop again. -/

namespace At32

/-! ## One status -/

/-- The status that a status read finds from the `i`-th read of the register on, and the number of
    the next read. -/
def statusAt (sts : Nat → Word) (i : Nat) : FlashStatus × Nat :=
  if sts i &&& flagBsy = flagBsy then (.bsy, i + 1)
  else if sts (i + 1) &&& flagPrgmflr ≠ 0 then (.pgrmFlr, i + 2)
  else if sts (i + 2) &&& flagWrprtflr ≠ 0 then (.wrprtFlr, i + 3)
  else (.prcDone, i + 3)

theorem flashGetBankStatus_exec (b : Bank) (s : FlashState) :
    (flashGetBankStatus b).exec s =
      ((statusAt (s.inputs.sts b) s.reads).1,
        { s with
          reads := (statusAt (s.inputs.sts b) s.reads).2
          log := .status b (statusAt (s.inputs.sts b) s.reads).1 :: s.log }) := by
  unfold flashGetBankStatus statusAt
  simp only [readSts, store, Prog.act_bind, Prog.ret_bind, Prog.exec_act]
  split
  · rfl
  · simp only [Prog.exec_act]
    split
    · rfl
    · simp only [Prog.exec_act]
      split <;> rfl

/-! ## A wait -/

/-- What a wait returns, the last status it read, those it read before, newest first, and the number
    of the next read. -/
structure Waited where
  result : FlashStatus
  last : FlashStatus
  earlier : List FlashStatus
  next : Nat

def waitFrom (sts : Nat → Word) :
    (timeout : Nat) → (status : FlashStatus) → (earlier : List FlashStatus) → (i : Nat) → Waited
  | 0, status, earlier, i =>
      { result := .timeout, last := status, earlier := earlier, next := i }
  | timeout + 1, status, earlier, i =>
      if status = .bsy then
        waitFrom sts timeout (statusAt sts i).1 (status :: earlier) (statusAt sts i).2
      else { result := status, last := status, earlier := earlier, next := i }

def waitAt (sts : Nat → Word) (timeout i : Nat) : Waited :=
  waitFrom sts timeout (statusAt sts i).1 [] (statusAt sts i).2

variable {sts : Nat → Word} {timeout i : Nat} {status : FlashStatus} {earlier : List FlashStatus}

theorem waitFrom_result (sts : Nat → Word) (timeout : Nat) (status : FlashStatus)
    (earlier : List FlashStatus) (i : Nat) :
    (waitFrom sts timeout status earlier i).result = .timeout ∨
      (waitFrom sts timeout status earlier i).result ≠ .bsy ∧
        (waitFrom sts timeout status earlier i).last =
          (waitFrom sts timeout status earlier i).result := by
  induction timeout generalizing status earlier i with
  | zero => simp [waitFrom]
  | succ timeout ih =>
      unfold waitFrom
      split
      · exact ih ..
      · next hidle => exact .inr ⟨hidle, rfl⟩

/-- A wait that returns `FLASH_PRC_DONE` has just read it. -/
theorem waitAt_done (h : (waitAt sts timeout i).result = .prcDone) :
    (waitAt sts timeout i).last = .prcDone := by
  rcases waitFrom_result sts timeout (statusAt sts i).1 [] (statusAt sts i).2 with h' | h'
  · simp [waitAt, h'] at h
  · exact h'.2.trans h

/-- Where the first status is not `FLASH_BSY`, it is the only one that is read. -/
theorem waitAt_of_ne_bsy (h : (statusAt sts i).1 ≠ .bsy) (ht : 0 < timeout) :
    waitAt sts timeout i =
      { result := (statusAt sts i).1
        last := (statusAt sts i).1
        earlier := []
        next := (statusAt sts i).2 } := by
  cases timeout with
  | zero => simp at ht
  | succ timeout => simp [waitAt, waitFrom, h]

/-- The wait that is about to be made in a state. -/
def FlashState.wait (s : FlashState) (b : Bank) (timeout : Nat) : Waited :=
  waitAt (s.inputs.sts b) timeout s.reads

theorem FlashState.wait_done {s : FlashState} {b : Bank}
    (h : (s.wait b timeout).result = .prcDone) : (s.wait b timeout).last = .prcDone :=
  waitAt_done h

/-- The state after a wait: the statuses read are on record. -/
def FlashState.waited (s : FlashState) (b : Bank) (w : Waited) : FlashState :=
  { s with
    reads := w.next
    log := .status b w.last :: (w.earlier.map (.status b) ++ s.log) }

@[simp] theorem FlashState.waited_inputs (s : FlashState) (b : Bank) (w : Waited) :
    (s.waited b w).inputs = s.inputs := rfl

@[simp] theorem FlashState.waited_reads (s : FlashState) (b : Bank) (w : Waited) :
    (s.waited b w).reads = w.next := rfl

@[simp] theorem FlashState.waited_ctrl (s : FlashState) (b : Bank) (w : Waited) :
    (s.waited b w).ctrl = s.ctrl := rfl

theorem waitLoop_exec (b : Bank) (timeout : Nat) (status : FlashStatus)
    (earlier : List FlashStatus) (log : List FlashAccess) (s : FlashState)
    (hlog : s.log = .status b status :: (earlier.map (.status b) ++ log)) :
    (waitLoop b timeout status).exec s =
      ((waitFrom (s.inputs.sts b) timeout status earlier s.reads).result,
        FlashState.waited { s with log := log } b
          (waitFrom (s.inputs.sts b) timeout status earlier s.reads)) := by
  induction timeout generalizing status earlier s with
  | zero => simp [waitLoop, waitFrom, FlashState.waited, ← hlog]
  | succ timeout ih =>
      unfold waitLoop waitFrom
      split
      · rw [Prog.exec_bind, flashGetBankStatus_exec, ih _ (status :: earlier)]
        · rfl
        · simp [hlog]
      · simp [FlashState.waited, ← hlog]

@[simp] theorem flashWaitForBankProcess_exec (b : Bank) (timeout : Nat) (s : FlashState) :
    (flashWaitForBankProcess b timeout).exec s =
      ((s.wait b timeout).result, s.waited b (s.wait b timeout)) := by
  unfold flashWaitForBankProcess
  rw [Prog.exec_bind, flashGetBankStatus_exec, waitLoop_exec b timeout _ [] s.log _ rfl]
  rfl

@[simp] theorem flashWaitForProcess_exec (timeout : Nat) (s : FlashState) :
    (flashWaitForProcess timeout).exec s =
      ((s.wait .bank1 timeout).result, s.waited .bank1 (s.wait .bank1 timeout)) :=
  flashWaitForBankProcess_exec .bank1 timeout s

/-! ## The other accesses -/

@[simp] theorem store_exec (a : FlashAccess) (s : FlashState) :
    (store a).exec s = ((), s.record a) := rfl

@[simp] theorem ctrlSet_exec (b : Bank) (bits : Word) (s : FlashState) :
    (ctrlSet b bits).exec s =
      ((), (s.setCtrl b (s.ctrl b ||| bits)).record (.ctrlSet b bits)) := rfl

@[simp] theorem ctrlRst_exec (b : Bank) (bits : Word) (s : FlashState) :
    (ctrlRst b bits).exec s =
      ((), (s.setCtrl b (s.ctrl b &&& ~~~bits)).record (.ctrlRst b bits)) := rfl

@[simp] theorem FlashState.record_inputs (s : FlashState) (a : FlashAccess) :
    (s.record a).inputs = s.inputs := rfl

@[simp] theorem FlashState.record_reads (s : FlashState) (a : FlashAccess) :
    (s.record a).reads = s.reads := rfl

@[simp] theorem FlashState.record_ctrl (s : FlashState) (a : FlashAccess) :
    (s.record a).ctrl = s.ctrl := rfl

@[simp] theorem FlashState.record_log (s : FlashState) (a : FlashAccess) :
    (s.record a).log = a :: s.log := rfl

@[simp] theorem FlashState.setCtrl_inputs (s : FlashState) (b : Bank) (v : Word) :
    (s.setCtrl b v).inputs = s.inputs := rfl

@[simp] theorem FlashState.setCtrl_reads (s : FlashState) (b : Bank) (v : Word) :
    (s.setCtrl b v).reads = s.reads := rfl

@[simp] theorem FlashState.setCtrl_log (s : FlashState) (b : Bank) (v : Word) :
    (s.setCtrl b v).log = s.log := rfl

@[simp] theorem record_wait (s : FlashState) (a : FlashAccess) (b : Bank) (timeout : Nat) :
    (s.record a).wait b timeout = s.wait b timeout := rfl

@[simp] theorem setCtrl_wait (s : FlashState) (b' : Bank) (v : Word) (b : Bank) (timeout : Nat) :
    (s.setCtrl b' v).wait b timeout = s.wait b timeout := rfl

@[simp] theorem waited_wait (s : FlashState) (b' : Bank) (w : Waited) (b : Bank) (timeout : Nat) :
    (s.waited b' w).wait b timeout = waitAt (s.inputs.sts b) timeout w.next := rfl

/-- `status = FLASH_WaitForBankxProcess(..); if(status == FLASH_PRC_DONE) {..}`, by whether the wait
    returns `FLASH_PRC_DONE`. -/
theorem whenDone_exec (b : Bank) (timeout : Nat) (body : FlashProg FlashStatus)
    (s : FlashState) :
    (whenDone b timeout body).exec s =
      if (s.wait b timeout).result = .prcDone then
        body.exec (s.waited b (s.wait b timeout))
      else ((s.wait b timeout).result, s.waited b (s.wait b timeout)) := by
  unfold whenDone
  rw [Prog.exec_bind, flashWaitForBankProcess_exec]
  split <;> rfl

/-! ## Addresses -/

/-- The bank that an address of the flash is in. -/
def bankOf (address : Word) : Option Bank :=
  if flashBnk3StartAddr ≤ address then some .bank3
  else if address ≤ flashBnk1EndAddr then some .bank1
  else if address ≤ flashBnk2EndAddr then some .bank2
  else none

/-- The part that is run is that of the bank the address is in. -/
theorem byAddress_cases {P : FlashProg FlashStatus → Prop} {address : Word}
    {inBank1 inBank2 inBank3 : FlashProg FlashStatus}
    (h1 : bankOf address = some .bank1 → P inBank1)
    (h2 : bankOf address = some .bank2 → P inBank2)
    (h3 : bankOf address = some .bank3 → P inBank3)
    (hnone : bankOf address = none → P (return .prcDone)) :
    P (byAddress address inBank1 inBank2 inBank3) := by
  unfold byAddress
  unfold bankOf at h1 h2 h3 hnone
  split
  · next hbank => exact h3 (by simp [hbank])
  · next hbank =>
      split
      · next hbank1 => exact h1 (by simp [hbank, hbank1])
      · next hbank1 =>
          split
          · next hbank2 => exact h2 (by simp [hbank, hbank1, hbank2])
          · next hbank2 => exact hnone (by simp [hbank, hbank1, hbank2])

end At32
