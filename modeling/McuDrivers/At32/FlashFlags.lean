import McuDrivers.At32.FlashWait
import McuDrivers.Library.Bits

set_option autoImplicit false

/-! # AT32F4xx: the two views of the flash status

`FLASH_GetBankxStatus` reads the status register of its bank. `FLASH_GetFlagStatus` is given a number
that says which register and which bit is meant: bits 30 and 31 name banks 3 and 2, and the option byte
error has the number of the busy flag of bank 1. -/

namespace At32

/-! ## Flags -/

def flashFlagBsy : Word := 0x00000001
def flashFlagPrgmflr : Word := 0x00000004
def flashFlagWrprtflr : Word := 0x00000010
def flashFlagPrcdn : Word := 0x00000020
def flashFlagUobflr : Word := 0x00000001

def flashFlagBnk1Bsy : Word := flashFlagBsy
def flashFlagBnk1Prgmflr : Word := flashFlagPrgmflr
def flashFlagBnk1Wrprtflr : Word := flashFlagWrprtflr

def flashFlagBank2 : Word := 0x80000000
def flashFlagBnk2Bsy : Word := 0x80000001
def flashFlagBnk2Prgmflr : Word := 0x80000004
def flashFlagBnk2Wrprtflr : Word := 0x80000010

def flashFlagBank3 : Word := 0x40000000
def flashFlagBnk3Bsy : Word := 0x40000001
def flashFlagBnk3Prgmflr : Word := 0x40000004
def flashFlagBnk3Wrprtflr : Word := 0x40000010

def flashIntBank2 : Word := 0x80000000
def flashIntBank2Mask : Word := ~~~flashIntBank2
def flashIntBank3 : Word := 0x40000000
def flashIntBank3Mask : Word := ~~~flashIntBank3

/-! ## Reading -/

/-- The registers that tell of the status, none of which changes while it is asked for. -/
structure FlashRegs where
  sts : Word
  sts2 : Word
  sts3 : Word
  uob : Word

def flashGetFlagStatus (flag : Word) (r : FlashRegs) : Bool :=
  if flag = flashFlagUobflr then r.uob &&& flashFlagUobflr ≠ 0
  else if flag &&& flashFlagBank3 ≠ 0 then r.sts3 &&& flag ≠ 0
  else if flag &&& flashFlagBank2 ≠ 0 then r.sts2 &&& flag ≠ 0
  else r.sts &&& flag ≠ 0

/-- What a bank whose status register reads as `sts` is found to be in, by its three flags. -/
def bankStatus (sts bsy prgmflr wrprtflr : Word) : FlashStatus :=
  if sts &&& bsy = bsy then .bsy
  else if sts &&& prgmflr ≠ 0 then .pgrmFlr
  else if sts &&& wrprtflr ≠ 0 then .wrprtFlr
  else .prcDone

def flashGetBank1Status (r : FlashRegs) : FlashStatus :=
  bankStatus r.sts flashFlagBnk1Bsy flashFlagBnk1Prgmflr flashFlagBnk1Wrprtflr

def flashGetBank2Status (r : FlashRegs) : FlashStatus :=
  bankStatus r.sts2 (flashFlagBnk2Bsy &&& flashIntBank2Mask)
    (flashFlagBnk2Prgmflr &&& flashIntBank2Mask) (flashFlagBnk2Wrprtflr &&& ~~~flashIntBank2)

def flashGetBank3Status (r : FlashRegs) : FlashStatus :=
  bankStatus r.sts3 (flashFlagBnk3Bsy &&& flashIntBank3Mask)
    (flashFlagBnk3Prgmflr &&& flashIntBank3Mask) (flashFlagBnk3Wrprtflr &&& flashIntBank3Mask)

/-! ## The bank that is meant -/

def FlashRegs.stsOf (r : FlashRegs) : Bank → Word
  | .bank1 => r.sts
  | .bank2 => r.sts2
  | .bank3 => r.sts3

def FlashRegs.status (r : FlashRegs) : Bank → FlashStatus
  | .bank1 => flashGetBank1Status r
  | .bank2 => flashGetBank2Status r
  | .bank3 => flashGetBank3Status r

def Bank.bsyFlag : Bank → Word
  | .bank1 => flashFlagBnk1Bsy
  | .bank2 => flashFlagBnk2Bsy
  | .bank3 => flashFlagBnk3Bsy

def Bank.prgmflrFlag : Bank → Word
  | .bank1 => flashFlagBnk1Prgmflr
  | .bank2 => flashFlagBnk2Prgmflr
  | .bank3 => flashFlagBnk3Prgmflr

def Bank.wrprtflrFlag : Bank → Word
  | .bank1 => flashFlagBnk1Wrprtflr
  | .bank2 => flashFlagBnk2Wrprtflr
  | .bank3 => flashFlagBnk3Wrprtflr

variable {r : FlashRegs} {b : Bank}

/-- The three functions look at the same bits of their registers. -/
theorem FlashRegs.status_eq (r : FlashRegs) (b : Bank) :
    r.status b = bankStatus (r.stsOf b) flashFlagBsy flashFlagPrgmflr flashFlagWrprtflr := by
  cases b <;> rfl

/-- They find what the functions of the driver find in a register that does not change. -/
theorem flashGetBankStatus_of_const (r : FlashRegs) (b : Bank) (s : FlashState)
    (hsts : s.inputs.sts b = fun _ => r.stsOf b) :
    ((flashGetBankStatus b).exec s).1 = r.status b := by
  rw [flashGetBankStatus_exec, FlashRegs.status_eq, hsts]
  unfold statusAt bankStatus
  simp only [apply_ite Prod.fst]
  rfl

/-! ## Reserved bits -/

/-- The bits of a status register that are flags. -/
def stsFlags : Word := flashFlagBsy ||| flashFlagPrgmflr ||| flashFlagWrprtflr ||| flashFlagPrcdn

/-- In all three status registers the other bits read 0. -/
def FlashRegs.ReservedZero (r : FlashRegs) : Prop := ∀ b, r.stsOf b &&& ~~~stsFlags = 0

/-- The bit that names the bank is not seen in the register. -/
theorem and_named_flag {sts flag bit : Word} (h : sts &&& ~~~stsFlags = 0)
    (hbit : stsFlags &&& flag = bit) : sts &&& flag = sts &&& bit := by
  rw [← hbit, ← BitVec.and_assoc, Mask.and_eq_self h]

theorem and_bsy_ne_zero (sts : Word) :
    sts &&& flashFlagBsy ≠ 0 ↔ sts &&& flashFlagBsy = flashFlagBsy := by
  have hbit : flashFlagBsy = BitVec.twoPow 32 0 := by decide
  rw [hbit, BitVec.and_twoPow]
  cases sts.getLsbD 0 <;> decide

/-- A flag that is looked for where it belongs is the bit of the register. -/
theorem flashGetFlagStatus_of_read (h : r.ReservedZero) {flag bit : Word}
    (hread : flashGetFlagStatus flag r = decide (r.stsOf b &&& flag ≠ 0))
    (hbit : stsFlags &&& flag = bit) : flashGetFlagStatus flag r = true ↔ r.stsOf b &&& bit ≠ 0 := by
  rw [hread, decide_eq_true_iff, and_named_flag (h b) hbit]

/-- So are those other than `FLASH_FLAG_BNK1_BSY`. -/
theorem flashGetFlagStatus_prgmflr (h : r.ReservedZero) (b : Bank) :
    flashGetFlagStatus b.prgmflrFlag r = true ↔ r.stsOf b &&& flashFlagPrgmflr ≠ 0 :=
  flashGetFlagStatus_of_read h (by cases b <;> rfl) (by cases b <;> decide)

theorem flashGetFlagStatus_wrprtflr (h : r.ReservedZero) (b : Bank) :
    flashGetFlagStatus b.wrprtflrFlag r = true ↔ r.stsOf b &&& flashFlagWrprtflr ≠ 0 :=
  flashGetFlagStatus_of_read h (by cases b <;> rfl) (by cases b <;> decide)

/-- The register that the busy flag is looked for in: for bank 1 it is `UOB`. -/
def FlashRegs.bsySource (r : FlashRegs) : Bank → Word
  | .bank1 => r.uob
  | .bank2 => r.sts2
  | .bank3 => r.sts3

theorem flashGetFlagStatus_bsy (h : r.ReservedZero) (b : Bank) :
    flashGetFlagStatus b.bsyFlag r = true ↔ r.bsySource b &&& flashFlagBsy ≠ 0 := by
  cases b with
  | bank1 => exact decide_eq_true_iff
  | bank2 => exact flashGetFlagStatus_of_read (b := .bank2) h rfl (by decide)
  | bank3 => exact flashGetFlagStatus_of_read (b := .bank3) h rfl (by decide)

/-! ## The views -/

/-- The status that the error flags of a bank stand for where it is not busy. -/
def FlashRegs.errorStatus (r : FlashRegs) (b : Bank) : FlashStatus :=
  if flashGetFlagStatus b.prgmflrFlag r then .pgrmFlr
  else if flashGetFlagStatus b.wrprtflrFlag r then .wrprtFlr
  else .prcDone

/-- The flags of a bank and its status say the same. -/
structure FlashRegs.ViewsAgree (r : FlashRegs) (b : Bank) : Prop where
  busy : flashGetFlagStatus b.bsyFlag r = true ↔ r.status b = .bsy
  idle : r.status b ≠ .bsy → r.status b = r.errorStatus b

theorem FlashRegs.status_bsy (r : FlashRegs) (b : Bank) :
    r.status b = .bsy ↔ r.stsOf b &&& flashFlagBsy ≠ 0 := by
  rw [and_bsy_ne_zero, FlashRegs.status_eq, bankStatus]
  constructor
  · intro h
    by_contra hidle
    rw [if_neg hidle] at h
    split at h
    · cases h
    · split at h <;> cases h
  · intro h
    rw [if_pos h]

theorem FlashRegs.status_idle (h : r.ReservedZero) (b : Bank) (hidle : r.status b ≠ .bsy) :
    r.status b = r.errorStatus b := by
  have hbsy : ¬ r.stsOf b &&& flashFlagBsy = flashFlagBsy := by
    rwa [Ne, r.status_bsy b, and_bsy_ne_zero] at hidle
  rw [FlashRegs.status_eq, bankStatus, if_neg hbsy, FlashRegs.errorStatus]
  simp only [flashGetFlagStatus_prgmflr h, flashGetFlagStatus_wrprtflr h]

/-- **The two views agree on a bank if and only if it is not bank 1, or its busy bit is what the option
    byte error happens to be.** -/
theorem flash_views_agree_iff (r : FlashRegs) (b : Bank) (h : r.ReservedZero) :
    r.ViewsAgree b ↔
      (b = .bank1 → (r.uob &&& flashFlagUobflr ≠ 0 ↔ r.sts &&& flashFlagBsy ≠ 0)) := by
  have hbusy : (flashGetFlagStatus b.bsyFlag r = true ↔ r.status b = .bsy) ↔
      (r.bsySource b &&& flashFlagBsy ≠ 0 ↔ r.stsOf b &&& flashFlagBsy ≠ 0) := by
    rw [flashGetFlagStatus_bsy h, r.status_bsy]
  have hagree : r.ViewsAgree b ↔ (flashGetFlagStatus b.bsyFlag r = true ↔ r.status b = .bsy) :=
    ⟨fun hviews => hviews.busy, fun hbsy => ⟨hbsy, FlashRegs.status_idle h b⟩⟩
  rw [hagree, hbusy]
  cases b with
  | bank1 => exact ⟨fun hsame _ => hsame, fun hsame => hsame rfl⟩
  | bank2 => simp [FlashRegs.bsySource, FlashRegs.stsOf]
  | bank3 => simp [FlashRegs.bsySource, FlashRegs.stsOf]

/-- Bank 1 is busy, and there is no option byte error. -/
def busyBank1 : FlashRegs where
  sts := flashFlagBsy
  sts2 := 0
  sts3 := 0
  uob := 0

theorem busyBank1_reservedZero : busyBank1.ReservedZero := by
  intro b
  cases b <;> decide

/-- On bank 3 they agree then. -/
theorem flash_views_agree_bank3 : busyBank1.ViewsAgree .bank3 ∧ busyBank1.ReservedZero :=
  ⟨(flash_views_agree_iff busyBank1 .bank3 busyBank1_reservedZero).mpr (fun h => by cases h),
    busyBank1_reservedZero⟩

/-- Who asks for the busy flag of bank 1 is told that it is idle. -/
theorem flash_views_disagree :
    ¬ ∀ (r : FlashRegs) (b : Bank), r.ReservedZero → r.ViewsAgree b := by
  intro h
  have hbusy := (h busyBank1 .bank1 busyBank1_reservedZero).busy
  have hflag : flashGetFlagStatus Bank.bank1.bsyFlag busyBank1 = false := by decide
  have hstatus : busyBank1.status .bank1 = .bsy := by decide
  rw [hflag, hstatus] at hbusy
  simp at hbusy

end At32
