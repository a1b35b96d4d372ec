import McuDrivers.Library.Prog

set_option autoImplicit false

/-! # AT32F4xx: flash

The erase, program, option byte and SLIB functions of `at32f4xx_flash.c`, as compiled for the AT32F403,
AT32F403A and AT32F407: three banks with a status, a control and an address register each. What the
hardware decides is what the status registers read as: each read has its own answer, in
`FlashInputs.sts`. The control registers are memory that only the driver writes, and `FlashState.log`
records what the driver did, newest first. -/

namespace At32

abbrev Word := BitVec 32

/-! ## Constants -/

/-- `FLASH_FLAG_BNKx_BSY`, without the bit that names the bank; the other two flags likewise. -/
def flagBsy : Word := 0x00000001
def flagPrgmflr : Word := 0x00000004
def flagWrprtflr : Word := 0x00000010

def ctrlPrgm : Word := 0x00000001
def ctrlPgers : Word := 0x00000002
def ctrlChpers : Word := 0x00000004
def ctrlUobprgm : Word := 0x00000010
def ctrlUobers : Word := 0x00000020
def ctrlStrt : Word := 0x00000040

def rdprtMask : Word := 0x00000002
def wrprt0Mask : Word := 0x000000FF
def wrprt1Mask : Word := 0x0000FF00
def wrprt2Mask : Word := 0x00FF0000
def wrprt3Mask : Word := 0xFF000000
def uobUsrBtopt : BitVec 16 := 0x0008

def rdprtKey : BitVec 16 := 0x00A5
def flashKey1 : Word := 0x45670123
def flashKey2 : Word := 0xCDEF89AB
def slibUnlockKey : Word := 0xA35F6D24

def flashBnk1EndAddr : Word := 0x0807FFFF
def flashBnk2EndAddr : Word := 0x080FFFFF
def flashBnk3StartAddr : Word := 0x08400000

def flashSlibSts0SlibEn : Word := 0x08
def flashSlibPswstsPswOk : Word := 0x02
def flashSlibStartPage : Word := 0x000007FF
def flashSlibDataStartPage : Word := 0x003FF800
def flashSlibEndPage : Word := 0xFFC00000

def ersTimeout : Nat := 0x10000000
def prgmTimeout : Nat := 0x0000F000
def extFlashErsTimeout : Nat := 0xFFFFFFFF

def flashBootFromBank1 : BitVec 16 := 0x0000

/-! ## State -/

inductive Bank where
  | bank1
  | bank2
  | bank3
  deriving DecidableEq

/-- `FLASH_Status` -/
inductive FlashStatus where
  | bsy
  | pgrmFlr
  | wrprtFlr
  | prcDone
  | timeout
  deriving DecidableEq

/-- `*(__IO uint32_t*) Address = Data`, and for a half word and a byte. -/
inductive Datum where
  | word (address : Word) (data : Word)
  | halfWord (address : Word) (data : BitVec 16)
  | byte (address : Word) (data : BitVec 8)

def Datum.address : Datum → Word
  | word address _ => address
  | halfWord address _ => address
  | byte address _ => address

/-- The half words of `UOPTB` that the functions write; `data` is the one whose address the caller
    gives. -/
inductive OptionByte where
  | rdprt
  | usr
  | data (address : Word)
  | wrprt0
  | wrprt1
  | wrprt2
  | wrprt3

/-- What the driver does to the flash. -/
inductive FlashAccess where
  /-- `FLASH_GetBankxStatus` returned `status` -/
  | status (b : Bank) (status : FlashStatus)
  /-- `CTRLx |= bits` -/
  | ctrlSet (b : Bank) (bits : Word)
  /-- `CTRLx &= ~bits` -/
  | ctrlRst (b : Bank) (bits : Word)
  /-- `ADDRx = address` -/
  | addr (b : Bank) (address : Word)
  | datum (d : Datum)
  | optkeyr (key : Word)
  | optionByte (r : OptionByte) (data : BitVec 16)
  | slibKeyr (key : Word)
  | slibSetPsw (psw : Word)
  | slibSetRange (range : Word)
  | slibPsw (psw : Word)

/-- What the flash registers read as during a call. -/
structure FlashInputs where
  /-- the status register of a bank, for each read of a status register in the call -/
  sts : Bank → Nat → Word
  uob : Word
  slibSts0 : Word
  slibPswSts : Word
  /-- `UOPTB->USR` -/
  usr : BitVec 16

structure FlashState where
  inputs : FlashInputs
  /-- how many reads of a status register were made in the call -/
  reads : Nat
  ctrl : Bank → Word
  log : List FlashAccess

abbrev FlashProg := Prog FlashState

def FlashState.record (s : FlashState) (a : FlashAccess) : FlashState :=
  { s with log := a :: s.log }

/-- `STSx` -/
def readSts (b : Bank) : FlashProg Word :=
  .act (fun s => { s with reads := s.reads + 1 }) fun s => .ret (s.inputs.sts b s.reads)

def store (a : FlashAccess) : FlashProg Unit := .put fun s => s.record a

def FlashState.setCtrl (s : FlashState) (b : Bank) (v : Word) : FlashState :=
  { s with ctrl := fun b' => if b' = b then v else s.ctrl b' }

/-- `CTRLx |= bits` -/
def ctrlSet (b : Bank) (bits : Word) : FlashProg Unit :=
  .put fun s => (s.setCtrl b (s.ctrl b ||| bits)).record (.ctrlSet b bits)

/-- `CTRLx &= ~bits` -/
def ctrlRst (b : Bank) (bits : Word) : FlashProg Unit :=
  .put fun s => (s.setCtrl b (s.ctrl b &&& ~~~bits)).record (.ctrlRst b bits)

/-! ## Status and waiting -/

/-- `FLASH_GetBank1Status`, `FLASH_GetBank2Status` and `FLASH_GetBank3Status` -/
def flashGetBankStatus (b : Bank) : FlashProg FlashStatus := do
  let sts ← readSts b
  if sts &&& flagBsy = flagBsy then do
    store (.status b .bsy)
    return .bsy
  else do
    let sts ← readSts b
    if sts &&& flagPrgmflr ≠ 0 then do
      store (.status b .pgrmFlr)
      return .pgrmFlr
    else do
      let sts ← readSts b
      if sts &&& flagWrprtflr ≠ 0 then do
        store (.status b .wrprtFlr)
        return .wrprtFlr
      else do
        store (.status b .prcDone)
        return .prcDone

/-- `while((status == FLASH_BSY) && (Timeout != 0x00)) {..}` and what follows it. -/
def waitLoop (b : Bank) : (timeout : Nat) → FlashStatus → FlashProg FlashStatus
  | 0, _ => return .timeout
  | timeout + 1, status =>
      if status = .bsy then do
        let status ← flashGetBankStatus b
        waitLoop b timeout status
      else return status

/-- `FLASH_WaitForBank1Process`, `FLASH_WaitForBank2Process` and `FLASH_WaitForBank3Process` -/
def flashWaitForBankProcess (b : Bank) (timeout : Nat) : FlashProg FlashStatus := do
  let status ← flashGetBankStatus b
  waitLoop b timeout status

def flashWaitForProcess (timeout : Nat) : FlashProg FlashStatus :=
  flashWaitForBankProcess .bank1 timeout

/-! ## Erasing -/

/-- `status = FLASH_WaitForBankxProcess(Timeout); if(status == FLASH_PRC_DONE) {..} return status;` -/
def whenDone (b : Bank) (timeout : Nat) (body : FlashProg FlashStatus) : FlashProg FlashStatus := do
  let status ← flashWaitForBankProcess b timeout
  if status = .prcDone then body else return status

/-- Where a function has a part for each bank, the address decides which one is run. Between the end
    of bank 2 and the start of bank 3 it is none. -/
def byAddress (address : Word) (inBank1 inBank2 inBank3 : FlashProg FlashStatus) :
    FlashProg FlashStatus :=
  if flashBnk3StartAddr ≤ address then inBank3
  else if address ≤ flashBnk1EndAddr then inBank1
  else if address ≤ flashBnk2EndAddr then inBank2
  else return .prcDone

/-- The part of `FLASH_ErasePage` for one bank. -/
def erasePageIn (b : Bank) (timeout : Nat) (pageAddress : Word) : FlashProg FlashStatus :=
  whenDone b timeout do
    ctrlSet b ctrlPgers
    store (.addr b pageAddress)
    ctrlSet b ctrlStrt
    let status ← flashWaitForBankProcess b timeout
    ctrlRst b ctrlPgers
    return status

def flashErasePage (pageAddress : Word) : FlashProg FlashStatus :=
  byAddress pageAddress
    (erasePageIn .bank1 ersTimeout pageAddress)
    (erasePageIn .bank2 ersTimeout pageAddress)
    (erasePageIn .bank3 extFlashErsTimeout pageAddress)

/-- The mass erase of one bank, from where the bank was found ready. -/
def massErase (b : Bank) (timeout : Nat) : FlashProg FlashStatus := do
  ctrlSet b ctrlChpers
  ctrlSet b ctrlStrt
  let status ← flashWaitForBankProcess b timeout
  ctrlRst b ctrlChpers
  return status

def flashEraseAllPages : FlashProg FlashStatus := do
  let status ← whenDone .bank1 ersTimeout (massErase .bank1 ersTimeout)
  -- no wait for bank 2 here
  if status = .prcDone then massErase .bank2 ersTimeout else return status

def flashEraseBank1AllPages : FlashProg FlashStatus :=
  whenDone .bank1 ersTimeout (massErase .bank1 ersTimeout)

def flashEraseBank2AllPages : FlashProg FlashStatus :=
  whenDone .bank2 ersTimeout (massErase .bank2 ersTimeout)

/-- `FLASH_GetSlibState` -/
def flashGetSlibState : FlashProg Bool :=
  .get fun s => s.inputs.slibSts0 &&& flashSlibSts0SlibEn ≠ 0

def flashEraseBank3AllPages : FlashProg FlashStatus := do
  let slib ← flashGetSlibState
  if slib then return .pgrmFlr
  else whenDone .bank3 extFlashErsTimeout (massErase .bank3 extFlashErsTimeout)

/-! ## Programming -/

/-- The part of the three program functions for one bank. -/
def programIn (b : Bank) (d : Datum) : FlashProg FlashStatus :=
  whenDone b prgmTimeout do
    ctrlSet b ctrlPrgm
    store (.datum d)
    let status ← flashWaitForBankProcess b prgmTimeout
    ctrlRst b ctrlPrgm
    return status

def flashProgramWord (address : Word) (data : Word) : FlashProg FlashStatus :=
  byAddress address
    (programIn .bank1 (.word address data))
    (programIn .bank2 (.word address data))
    (programIn .bank3 (.word address data))

def flashProgramHalfWord (address : Word) (data : BitVec 16) : FlashProg FlashStatus :=
  byAddress address
    (programIn .bank1 (.halfWord address data))
    (programIn .bank2 (.halfWord address data))
    (programIn .bank3 (.halfWord address data))

def flashProgramByte (address : Word) (data : BitVec 8) : FlashProg FlashStatus :=
  byAddress address
    (programIn .bank1 (.byte address data))
    (programIn .bank2 (.byte address data))
    -- "This function cannot be used to program bank3"
    (return .wrprtFlr)

/-! ## Option bytes -/

def optionKeys : FlashProg Unit := do
  store (.optkeyr flashKey1)
  store (.optkeyr flashKey2)

/-- `if(status != FLASH_TIMEOUT) { FLASH->CTRL &= ~bits; }` -/
def rstUnlessTimeout (status : FlashStatus) (bits : Word) : FlashProg FlashStatus := do
  if status ≠ .timeout then do
    ctrlRst .bank1 bits
    return status
  else return status

/-- One option byte written with `UOBPRGM` set, and the wait for it. -/
def writeOptionByte (timeout : Nat) (r : OptionByte) (data : BitVec 16) :
    FlashProg FlashStatus := do
  ctrlSet .bank1 ctrlUobprgm
  store (.optionByte r data)
  let status ← flashWaitForProcess timeout
  rstUnlessTimeout status ctrlUobprgm

/-- `FLASH_GetReadProtectStatus() != RESET` -/
def flashGetReadProtectStatus : FlashProg Bool :=
  .get fun s => s.inputs.uob &&& rdprtMask ≠ 0

/-- The option bytes are erased, and `RDPRT` is written again. `failRst` is the bit that is cleared
    where the erase fails. -/
def eraseThenRdprt (rdprt : BitVec 16) (rdprtTimeout : Nat) (failRst : Word) :
    FlashProg FlashStatus :=
  whenDone .bank1 ersTimeout do
    optionKeys
    ctrlSet .bank1 ctrlUobers
    ctrlSet .bank1 ctrlStrt
    let status ← flashWaitForProcess ersTimeout
    if status = .prcDone then do
      ctrlRst .bank1 ctrlUobers
      writeOptionByte rdprtTimeout .rdprt rdprt
    else
      rstUnlessTimeout status failRst

/-- `UOBERS` is set when the erase fails, but "Disable the UOBPRGM Bit" is what is done. -/
def flashEraseUserOptionBytes : FlashProg FlashStatus := do
  let protect ← flashGetReadProtectStatus
  eraseThenRdprt (if protect then 0x00 else rdprtKey) prgmTimeout ctrlUobprgm

def flashProgramUserOptionByteData (address : Word) (data : BitVec 8) : FlashProg FlashStatus :=
  whenDone .bank1 prgmTimeout do
    optionKeys
    writeOptionByte prgmTimeout (.data address) (data.setWidth 16)

/-- `if((status == FLASH_PRC_DONE) && (WRPx_Data != 0xFF)) {..}` -/
def writeProtectByte (status : FlashStatus) (r : OptionByte) (data : BitVec 16) :
    FlashProg FlashStatus := do
  if status = .prcDone ∧ data ≠ 0xFF then do
    store (.optionByte r data)
    flashWaitForProcess prgmTimeout
  else return status

def flashEnableWriteProtect (flashPages : Word) : FlashProg FlashStatus := do
  let pages := ~~~flashPages
  let wrp0Data : BitVec 16 := (pages &&& wrprt0Mask).setWidth 16
  let wrp1Data : BitVec 16 := ((pages &&& wrprt1Mask) >>> 8).setWidth 16
  let wrp2Data : BitVec 16 := ((pages &&& wrprt2Mask) >>> 16).setWidth 16
  let wrp3Data : BitVec 16 := ((pages &&& wrprt3Mask) >>> 24).setWidth 16
  whenDone .bank1 prgmTimeout do
    optionKeys
    ctrlSet .bank1 ctrlUobprgm
    -- the first one does not test `status`, which is `FLASH_PRC_DONE` there
    let status ← writeProtectByte .prcDone .wrprt0 wrp0Data
    let status ← writeProtectByte status .wrprt1 wrp1Data
    let status ← writeProtectByte status .wrprt2 wrp2Data
    let status ← writeProtectByte status .wrprt3 wrp3Data
    rstUnlessTimeout status ctrlUobprgm

def flashReadProtectConfig (newState : Bool) : FlashProg FlashStatus :=
  eraseThenRdprt (if newState then 0x00 else rdprtKey) ersTimeout ctrlUobers

def flashUserOptionByteConfig (uobIwdg uobStop uobStdby : BitVec 16) : FlashProg FlashStatus := do
  optionKeys
  whenDone .bank1 prgmTimeout
    (writeOptionByte prgmTimeout .usr (uobIwdg ||| (uobStop ||| (uobStdby ||| 0xF8))))

def flashBootOptConfig (flashBoot : BitVec 16) : FlashProg FlashStatus := do
  optionKeys
  whenDone .bank1 prgmTimeout do
    let usr ← .get fun s => s.inputs.usr
    writeOptionByte prgmTimeout .usr
      (if flashBoot = flashBootFromBank1 then usr ||| uobUsrBtopt else usr &&& ~~~uobUsrBtopt)

/-! ## SLIB -/

/-- "check param limits" -/
def slibParamOk (startPage dataStartPage endPage : BitVec 16) : Bool :=
  !(startPage ≥ dataStartPage || (dataStartPage > endPage && dataStartPage ≠ 0x7FF) ||
    startPage > endPage)

def slibRange (startPage dataStartPage endPage : BitVec 16) : Word :=
  (dataStartPage.setWidth 32 <<< 11 &&& flashSlibDataStartPage) |||
    (endPage.setWidth 32 <<< 22 &&& flashSlibEndPage) |||
    (startPage.setWidth 32 &&& flashSlibStartPage)

def flashSlibMainEnable (psw : Word) (startPage dataStartPage endPage : BitVec 16) :
    FlashProg FlashStatus := do
  let status ← flashWaitForProcess prgmTimeout
  if slibParamOk startPage dataStartPage endPage then
    if status = .prcDone then do
      store (.slibKeyr slibUnlockKey)
      store (.slibSetPsw psw)
      -- what this wait returns is overwritten
      let _ ← flashWaitForProcess prgmTimeout
      store (.slibSetRange (slibRange startPage dataStartPage endPage))
      flashWaitForProcess prgmTimeout
    else return status
  else return status

/-- `SUCCESS` or `ERROR` -/
def flashSlibDisable (psw : Word) : FlashProg Bool := do
  store (.slibPsw psw)
  let status ← flashWaitForProcess ersTimeout
  if status = .prcDone then do
    .get fun s => s.inputs.slibPswSts &&& flashSlibPswstsPswOk ≠ 0
  else return false

/-! ## Calls -/

inductive FlashCall where
  | erasePage (pageAddress : Word)
  | eraseAllPages
  | eraseBank1AllPages
  | eraseBank2AllPages
  | eraseBank3AllPages
  | eraseUserOptionBytes
  | programWord (address : Word) (data : Word)
  | programHalfWord (address : Word) (data : BitVec 16)
  | programByte (address : Word) (data : BitVec 8)
  | programUserOptionByteData (address : Word) (data : BitVec 8)
  | enableWriteProtect (flashPages : Word)
  | readProtectConfig (newState : Bool)
  | userOptionByteConfig (uobIwdg uobStop uobStdby : BitVec 16)
  | bootOptConfig (flashBoot : BitVec 16)
  | slibMainEnable (psw : Word) (startPage dataStartPage endPage : BitVec 16)
  | slibDisable (psw : Word)

/-- What a call returns: a `FLASH_Status`, or `SUCCESS` or `ERROR`. -/
inductive FlashResult where
  | status (status : FlashStatus)
  | success (ok : Bool)

def FlashCall.body : FlashCall → FlashProg FlashResult
  | erasePage pageAddress => .status <$> flashErasePage pageAddress
  | eraseAllPages => .status <$> flashEraseAllPages
  | eraseBank1AllPages => .status <$> flashEraseBank1AllPages
  | eraseBank2AllPages => .status <$> flashEraseBank2AllPages
  | eraseBank3AllPages => .status <$> flashEraseBank3AllPages
  | eraseUserOptionBytes => .status <$> flashEraseUserOptionBytes
  | programWord address data => .status <$> flashProgramWord address data
  | programHalfWord address data => .status <$> flashProgramHalfWord address data
  | programByte address data => .status <$> flashProgramByte address data
  | programUserOptionByteData address data =>
      .status <$> flashProgramUserOptionByteData address data
  | enableWriteProtect flashPages => .status <$> flashEnableWriteProtect flashPages
  | readProtectConfig newState => .status <$> flashReadProtectConfig newState
  | userOptionByteConfig uobIwdg uobStop uobStdby =>
      .status <$> flashUserOptionByteConfig uobIwdg uobStop uobStdby
  | bootOptConfig flashBoot => .status <$> flashBootOptConfig flashBoot
  | slibMainEnable psw startPage dataStartPage endPage =>
      .status <$> flashSlibMainEnable psw startPage dataStartPage endPage
  | slibDisable psw => .success <$> flashSlibDisable psw

/-- The state in which a call begins: what was done before it is not part of its record. -/
def FlashState.begin (s : FlashState) (inputs : FlashInputs) : FlashState :=
  { inputs := inputs, reads := 0, ctrl := s.ctrl, log := [] }

/-- A call, and what the registers read as while it runs. -/
def flashStep (c : FlashCall × FlashInputs) (s : FlashState) : FlashState :=
  (c.1.body.exec (s.begin c.2)).2

end At32
