import McuDrivers.Library.Poll
import McuDrivers.Library.Prog

set_option autoImplicit false

/-! # HC32L13x: flash

The erase and write functions of `flash.c`. What the hardware decides is what the control register
`CR` reads as, and when: `FlashState.cr` lists its answers to the reads in the two kinds of wait loops.
The other part of the state is the sector lock `SLOCK`, and a record of all stores. -/

namespace Hc32

abbrev Word := BitVec 32

/-! ## Constants and registers -/

def flashEndAddr : Word := 0x0000FFFF
def flashTimeoutPgm : Nat := 0xFF
def flashTimeoutErase : Nat := 0xFF
def flashLockAllValue : Word := 0
def flashUnlockAllValue : Word := 0xFFFFFFFF

/-- `en_flash_op_t`, the two bits of `CR.OP`. -/
inductive FlashOp where
  | read
  | program
  | sectorErase
  | chipErase
  deriving DecidableEq

/-- The fields of `CR` that the wait loops read. -/
structure FlashCr where
  busy : Bool
  op : FlashOp

/-- The values of `en_result_t` that the functions return. -/
inductive EnResult where
  | ok
  | errorInvalidParameter
  | errorTimeout
  deriving DecidableEq

/-- A store to a register or to the flash. -/
inductive FlashStore where
  | bypass (v : BitVec 16)
  | op (op : FlashOp)
  | slock (v : Word)
  | byte (addr : Word) (v : BitVec 8)
  | halfWord (addr : Word) (v : BitVec 16)
  | word (addr : Word) (v : Word)

structure FlashState where
  /-- what `CR` reads as, read by read -/
  cr : Nat → FlashCr
  reads : Nat
  slock : Word
  stores : List FlashStore

abbrev FlashProg := Prog FlashState

def readCr : FlashProg FlashCr :=
  .act (fun s => { s with reads := s.reads + 1 }) fun s => .ret (s.cr s.reads)

def store (v : FlashStore) : FlashProg Unit :=
  .put fun s => { s with stores := s.stores ++ [v] }

/-- `M0P_FLASH->SLOCK = v` -/
def storeSlock (v : Word) : FlashProg Unit :=
  .put fun s => { s with slock := v, stores := s.stores ++ [.slock v] }

/-- `FLASH_BYPASS()` -/
def flashBypass : FlashProg Unit := do
  store (.bypass 0x5A5A)
  store (.bypass 0xA5A5)

def flashLockAll : FlashProg Unit := do
  flashBypass
  storeSlock flashLockAllValue

def flashUnlockAll : FlashProg Unit := do
  flashBypass
  storeSlock flashUnlockAllValue

/-! ## The wait loops -/

/-- `while (TRUE == CR_f.BUSY) { if(0 == u32TimeOut--) return ErrorTimeout; }`: whether the flash was
    seen idle. -/
def waitIdle : (timeOut : Nat) → FlashProg Bool
  | 0 => do
      let cr ← readCr
      if cr.busy then return false else return true
  | timeOut + 1 => do
      let cr ← readCr
      if cr.busy then waitIdle timeOut else return true

/-- `while(op != CR_f.OP) { if(u32TimeOut--) { FLASH_BYPASS(); CR_f.OP = op; } else return ErrorTimeout; }`:
    whether `op` was read back. -/
def setOp (op : FlashOp) : (timeOut : Nat) → FlashProg Bool
  | 0 => do
      let cr ← readCr
      if cr.op ≠ op then return false else return true
  | timeOut + 1 => do
      let cr ← readCr
      if cr.op ≠ op then do
        flashBypass
        store (.op op)
        setOp op timeOut
      else return true

/-! ## The operations -/

/-- The last part of all five: the store that starts the operation, the wait for its end, the lock. -/
def storeAndLock (timeOut : Nat) (datum : FlashStore) : FlashProg EnResult := do
  store datum
  let done ← waitIdle timeOut
  if done then do
    flashLockAll
    return .ok
  else return .errorTimeout

/-- The operation is set before the sectors are unlocked. -/
def setOpThenUnlock (op : FlashOp) (timeOut : Nat) (datum : FlashStore) : FlashProg EnResult := do
  let idle ← waitIdle timeOut
  if idle then do
    let set ← setOp op timeOut
    if set then do
      flashUnlockAll
      storeAndLock timeOut datum
    else return .errorTimeout
  else return .errorTimeout

/-- The operation is set after the sectors were unlocked. -/
def unlockThenSetOp (op : FlashOp) (timeOut : Nat) (datum : FlashStore) : FlashProg EnResult := do
  let idle ← waitIdle timeOut
  if idle then do
    flashUnlockAll
    let set ← setOp op timeOut
    if set then storeAndLock timeOut datum else return .errorTimeout
  else return .errorTimeout

/-- "FLASH地址无效" -/
def checkAddr (addr : Word) (body : FlashProg EnResult) : FlashProg EnResult :=
  if flashEndAddr < addr then return .errorInvalidParameter else body

def flashWriteByte (addr : Word) (data : BitVec 8) : FlashProg EnResult :=
  checkAddr addr (setOpThenUnlock .program flashTimeoutPgm (.byte addr data))

def flashWriteHalfWord (addr : Word) (data : BitVec 16) : FlashProg EnResult :=
  checkAddr addr (setOpThenUnlock .program flashTimeoutPgm (.halfWord addr data))

def flashWriteWord (addr : Word) (data : Word) : FlashProg EnResult :=
  checkAddr addr (unlockThenSetOp .program flashTimeoutPgm (.word addr data))

def flashSectorErase (sectorAddr : Word) : FlashProg EnResult :=
  checkAddr sectorAddr (unlockThenSetOp .sectorErase flashTimeoutErase (.byte sectorAddr 0))

def flashChipErase : FlashProg EnResult :=
  setOpThenUnlock .chipErase flashTimeoutErase (.byte 0 0)

inductive FlashCall where
  | writeByte (addr : Word) (data : BitVec 8)
  | writeHalfWord (addr : Word) (data : BitVec 16)
  | writeWord (addr : Word) (data : Word)
  | sectorErase (sectorAddr : Word)
  | chipErase

def FlashCall.body : FlashCall → FlashProg EnResult
  | writeByte addr data => flashWriteByte addr data
  | writeHalfWord addr data => flashWriteHalfWord addr data
  | writeWord addr data => flashWriteWord addr data
  | sectorErase sectorAddr => flashSectorErase sectorAddr
  | chipErase => flashChipErase

/-! ## What the loops do -/

/-- The position after the first read that finds the flash idle, of the reads from `i` on that a wait
    can make. -/
def idleAt (cr : Nat → FlashCr) (timeOut i : Nat) : Option Nat :=
  pollNext (fun c => !c.busy) cr (timeOut + 1) i

/-- The position after the first read that finds `op` set. -/
def opAt (op : FlashOp) (cr : Nat → FlashCr) (timeOut i : Nat) : Option Nat :=
  pollNext (fun c => c.op = op) cr (timeOut + 1) i

theorem waitIdle_exec (timeOut : Nat) (s : FlashState) :
    (waitIdle timeOut).exec s = match idleAt s.cr timeOut s.reads with
      | some k => (true, { s with reads := k })
      | none => (false, { s with reads := s.reads + (timeOut + 1) }) := by
  induction timeOut generalizing s with
  | zero => cases h : (s.cr s.reads).busy <;> simp [waitIdle, readCr, idleAt, pollNext, h]
  | succ timeOut ih =>
      cases h : (s.cr s.reads).busy with
      | false => simp [waitIdle, readCr, idleAt, pollNext, h]
      | true =>
          have hrest := ih { s with reads := s.reads + 1 }
          unfold idleAt at hrest ⊢
          rw [pollNext]
          simp only [waitIdle, readCr, Prog.act_bind, Prog.exec_act, Prog.ret_bind, h, if_true,
            hrest, Nat.add_right_comm s.reads 1, Nat.add_assoc s.reads]
          simp

/-- What a wait loop for the operation leaves, apart from the stores it made. -/
theorem setOp_exec (op : FlashOp) (timeOut : Nat) (s : FlashState) :
    ∃ stores, (setOp op timeOut).exec s = match opAt op s.cr timeOut s.reads with
      | some k => (true, { s with reads := k, stores := stores })
      | none => (false, { s with reads := s.reads + (timeOut + 1), stores := stores }) := by
  induction timeOut generalizing s with
  | zero =>
      refine ⟨s.stores, ?_⟩
      by_cases h : (s.cr s.reads).op = op <;> simp [setOp, readCr, opAt, pollNext, h]
  | succ timeOut ih =>
      by_cases h : (s.cr s.reads).op = op
      · exact ⟨s.stores, by simp [setOp, readCr, opAt, pollNext, h]⟩
      · obtain ⟨stores, hrest⟩ := ih { s with
          reads := s.reads + 1
          stores := s.stores ++ [.bypass 0x5A5A] ++ [.bypass 0xA5A5] ++ [.op op] }
        refine ⟨stores, ?_⟩
        unfold opAt at hrest ⊢
        rw [pollNext]
        simp only [setOp, readCr, flashBypass, store, Prog.put, Prog.act_bind, Prog.exec_act,
          Prog.ret_bind, h, ne_eq, not_false_eq_true, if_true, hrest,
          Nat.add_right_comm s.reads 1, Nat.add_assoc s.reads]
        simp

end Hc32
