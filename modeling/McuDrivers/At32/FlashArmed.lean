import McuDrivers.At32.FlashWait
import McuDrivers.Library.Bits

set_option autoImplicit false

/-! # AT32F4xx: the operation bits

Each operation of the flash sets one or two of the bits `PRGM`, `PGERS`, `CHPERS`, `UOBPRGM` and
`UOBERS`, and clears what it set before it returns, unless it timed out. Of its several error exits,
one clears the wrong bit. -/

namespace At32

/-! ## The bits that are set -/

def opBits : Word := ctrlPrgm ||| ctrlPgers ||| ctrlChpers ||| ctrlUobprgm ||| ctrlUobers

/-- The operation bits set are `m`, in the control register of bank `b`. -/
def FlashState.Armed (s : FlashState) (b : Bank) (m : Word) : Prop :=
  ∀ b', s.ctrl b' &&& opBits = if b' = b then m else 0

/-- No operation bit is set in any control register. -/
def FlashState.Disarmed (s : FlashState) : Prop := ∀ b, s.ctrl b &&& opBits = 0

variable {s : FlashState} {b : Bank} {m : Word} {timeout : Nat} {body : FlashProg FlashStatus}
  {status : FlashStatus}

theorem FlashState.armed_zero (s : FlashState) (b : Bank) : s.Armed b 0 ↔ s.Disarmed := by
  unfold FlashState.Armed FlashState.Disarmed
  simp

@[simp] theorem waited_disarmed {w : Waited} : (s.waited b w).Disarmed ↔ s.Disarmed := Iff.rfl

theorem armed_setCtrl {v : Word} (h : s.Armed b m) :
    (s.setCtrl b v).Armed b (v &&& opBits) := by
  intro b'
  unfold FlashState.setCtrl
  by_cases hb : b' = b
  · simp [hb]
  · simpa [hb] using h b'

theorem ctrlSet_armed (bits : Word) (h : s.Armed b m) :
    ((ctrlSet b bits).exec s).2.Armed b (m ||| bits &&& opBits) := by
  have hm : s.ctrl b &&& opBits = m := by simpa using h b
  have hset := armed_setCtrl h (v := s.ctrl b ||| bits)
  rwa [BitVec.and_or_distrib_right, hm] at hset

theorem ctrlRst_armed (bits : Word) (h : s.Armed b m) :
    ((ctrlRst b bits).exec s).2.Armed b (m &&& ~~~bits) := by
  have hm : s.ctrl b &&& opBits = m := by simpa using h b
  have hset := armed_setCtrl h (v := s.ctrl b &&& ~~~bits)
  rwa [BitVec.and_assoc, BitVec.and_comm (~~~bits), ← BitVec.and_assoc, hm] at hset

theorem store_armed (a : FlashAccess) (h : s.Armed b m) :
    ((store a).exec s).2.Armed b m := h

theorem wait_armed (b' : Bank) (timeout : Nat) (h : s.Armed b m) :
    ((flashWaitForBankProcess b' timeout).exec s).2.Armed b m := by
  rw [flashWaitForBankProcess_exec]
  exact h

/-! ## The parts of the functions -/

/-- Unless the program returns `FLASH_TIMEOUT`, no operation bit is set when it does. -/
def Disarms (p : FlashProg FlashStatus) (s : FlashState) : Prop :=
  (p.exec s).1 ≠ .timeout → (p.exec s).2.Disarmed

theorem whenDone_disarms (hs : s.Disarmed)
    (hbody : ∀ s : FlashState, s.Disarmed → Disarms body s) : Disarms (whenDone b timeout body) s := by
  unfold Disarms
  rw [whenDone_exec]
  split
  · exact hbody _ hs
  · exact fun _ => hs

theorem massErase_disarms (b : Bank) (timeout : Nat) (hs : s.Disarmed) :
    ((massErase b timeout).exec s).2.Disarmed := by
  have hset := ctrlSet_armed ctrlStrt (ctrlSet_armed ctrlChpers ((s.armed_zero b).mpr hs))
  have hrst := ctrlRst_armed ctrlChpers (wait_armed b timeout hset)
  have hbits : (0 ||| ctrlChpers &&& opBits ||| ctrlStrt &&& opBits) &&& ~~~ctrlChpers = 0 := by
    decide
  rw [hbits, FlashState.armed_zero] at hrst
  simpa only [massErase, Prog.exec_bind, Prog.pure_eq, Prog.exec_ret] using hrst

theorem erasePageIn_disarms (pageAddress : Word) (hs : s.Disarmed) :
    Disarms (erasePageIn b timeout pageAddress) s := by
  apply whenDone_disarms hs
  intro s hs _
  have hset := ctrlSet_armed ctrlStrt (store_armed (.addr b pageAddress)
    (ctrlSet_armed ctrlPgers ((s.armed_zero b).mpr hs)))
  have hrst := ctrlRst_armed ctrlPgers (wait_armed b timeout hset)
  have hbits : (0 ||| ctrlPgers &&& opBits ||| ctrlStrt &&& opBits) &&& ~~~ctrlPgers = 0 := by
    decide
  rw [hbits, FlashState.armed_zero] at hrst
  simpa only [Prog.exec_bind, Prog.pure_eq, Prog.exec_ret] using hrst

theorem programIn_disarms (d : Datum) (hs : s.Disarmed) : Disarms (programIn b d) s := by
  apply whenDone_disarms hs
  intro s hs _
  have hset := store_armed (.datum d) (ctrlSet_armed ctrlPrgm ((s.armed_zero b).mpr hs))
  have hrst := ctrlRst_armed ctrlPrgm (wait_armed b prgmTimeout hset)
  have hbits : (0 ||| ctrlPrgm &&& opBits) &&& ~~~ctrlPrgm = 0 := by decide
  rw [hbits, FlashState.armed_zero] at hrst
  simpa only [Prog.exec_bind, Prog.pure_eq, Prog.exec_ret] using hrst

/-- Where the bits set are cleared on every exit but `FLASH_TIMEOUT`, it is enough that these are the
    bits. -/
theorem rstUnlessTimeout_disarms (status : FlashStatus) (bits : Word) (h : s.Armed .bank1 m) :
    Disarms (rstUnlessTimeout status bits) s ↔ (status ≠ .timeout → m &&& ~~~bits = 0) := by
  unfold Disarms rstUnlessTimeout
  by_cases hstatus : status = .timeout
  · simp [hstatus]
  · have hrst := ctrlRst_armed bits h
    simp only [ne_eq, hstatus, not_false_eq_true, if_true, Prog.exec_bind, Prog.pure_eq,
      Prog.exec_ret, true_imp_iff]
    constructor
    · intro hdis
      have hbank := hrst .bank1
      rw [hdis .bank1] at hbank
      simpa using hbank.symm
    · intro hbits
      rwa [hbits, FlashState.armed_zero] at hrst

theorem writeOptionByte_disarms (r : OptionByte) (data : BitVec 16) (hs : s.Disarmed) :
    Disarms (writeOptionByte timeout r data) s := by
  have hset := store_armed (.optionByte r data)
    (ctrlSet_armed ctrlUobprgm ((s.armed_zero .bank1).mpr hs))
  have hwait := wait_armed .bank1 timeout hset
  unfold Disarms writeOptionByte
  rw [Prog.exec_bind, Prog.exec_bind, Prog.exec_bind]
  exact (rstUnlessTimeout_disarms _ _ hwait).mpr fun _ => by decide

theorem writeProtectByte_armed (r : OptionByte) (data : BitVec 16) (h : s.Armed b m) :
    ((writeProtectByte status r data).exec s).2.Armed b m := by
  unfold writeProtectByte
  split
  · rw [Prog.exec_bind]
    exact wait_armed .bank1 prgmTimeout h
  · exact h

/-- The option bytes are erased with `UOBERS` set. Where the erase fails, the bits cleared have to be
    that one. -/
theorem eraseThenRdprt_disarms (rdprt : BitVec 16) (rdprtTimeout : Nat) (failRst : Word)
    (hs : s.Disarmed) :
    Disarms (eraseThenRdprt rdprt rdprtTimeout failRst) s ↔
      ((s.wait .bank1 ersTimeout).result = .prcDone →
        (waitAt (s.inputs.sts .bank1) ersTimeout (s.wait .bank1 ersTimeout).next).result ≠
            .prcDone →
          (waitAt (s.inputs.sts .bank1) ersTimeout (s.wait .bank1 ersTimeout).next).result ≠
            .timeout → ctrlUobers &&& ~~~failRst = 0) := by
  unfold Disarms eraseThenRdprt
  rw [whenDone_exec]
  split
  · next hdone =>
      have hopen : (optionKeys.exec (s.waited .bank1 (s.wait .bank1 ersTimeout))).2.Armed
          .bank1 0 := (s.armed_zero .bank1).mpr hs
      have hset := ctrlSet_armed ctrlStrt (ctrlSet_armed ctrlUobers hopen)
      have hbits : 0 ||| ctrlUobers &&& opBits ||| ctrlStrt &&& opBits = ctrlUobers := by decide
      rw [hbits] at hset
      rw [Prog.exec_bind, Prog.exec_bind, Prog.exec_bind, Prog.exec_bind,
        flashWaitForProcess_exec]
      have hnext : ((ctrlSet .bank1 ctrlStrt).exec ((ctrlSet .bank1 ctrlUobers).exec
          (optionKeys.exec (s.waited .bank1 (s.wait .bank1 ersTimeout))).2).2).2.wait
            .bank1 ersTimeout =
          waitAt (s.inputs.sts .bank1) ersTimeout (s.wait .bank1 ersTimeout).next := rfl
      rw [hnext]
      generalize ((ctrlSet .bank1 ctrlStrt).exec _).2 = strt at hset
      generalize waitAt _ _ _ = w
      split
      · next hdone2 =>
          -- the erase is over, and `UOBERS` is cleared before anything else happens
          have hrst := ctrlRst_armed ctrlUobers hset
          have hclear : ctrlUobers &&& ~~~ctrlUobers = 0 := by decide
          rw [hclear, FlashState.armed_zero] at hrst
          rw [Prog.exec_bind]
          refine iff_of_true ?_ fun _ hne => absurd hdone2 hne
          exact writeOptionByte_disarms .rdprt rdprt hrst
      · next hdone2 =>
          have hfail := rstUnlessTimeout_disarms w.result failRst
            (show (strt.waited .bank1 w).Armed .bank1 ctrlUobers from hset)
          unfold Disarms at hfail
          simp only [hfail, hdone, hdone2, ne_eq, not_false_eq_true, true_imp_iff]
  · next hdone => simp [hdone, hs]

/-! ## Each call -/

theorem flashEnableWriteProtect_disarms (flashPages : Word) (hs : s.Disarmed) :
    Disarms (flashEnableWriteProtect flashPages) s := by
  apply whenDone_disarms hs
  intro s hs
  have hopen : (optionKeys.exec s).2.Armed .bank1 0 := (s.armed_zero .bank1).mpr hs
  have hset := ctrlSet_armed ctrlUobprgm hopen
  unfold Disarms
  simp only [Prog.exec_bind]
  refine (rstUnlessTimeout_disarms (m := 0 ||| ctrlUobprgm &&& opBits) _ _ ?_).mpr fun _ => by
    decide
  -- each of the four bytes leaves `UOBPRGM` set
  exact writeProtectByte_armed _ _ (writeProtectByte_armed _ _
    (writeProtectByte_armed _ _ (writeProtectByte_armed _ _ hset)))

/-- Where a part is run by address, it is enough that each does. -/
theorem byAddress_disarms {address : Word} {inBank1 inBank2 inBank3 : FlashProg FlashStatus}
    (hs : s.Disarmed) (h1 : Disarms inBank1 s) (h2 : Disarms inBank2 s) (h3 : Disarms inBank3 s) :
    Disarms (byAddress address inBank1 inBank2 inBank3) s :=
  byAddress_cases (P := fun p => Disarms p s) (fun _ => h1) (fun _ => h2) (fun _ => h3)
    fun _ _ => hs

theorem flashEraseAllPages_disarms (hs : s.Disarmed) : Disarms flashEraseAllPages s := by
  unfold Disarms flashEraseAllPages
  rw [Prog.exec_bind, whenDone_exec]
  split
  · have herase := massErase_disarms .bank1 ersTimeout (waited_disarmed (b := .bank1)
      (w := s.wait .bank1 ersTimeout) |>.mpr hs)
    split
    · exact fun _ => massErase_disarms .bank2 ersTimeout herase
    · exact fun _ => herase
  · simp [hs]

theorem flashEraseBank3AllPages_disarms (hs : s.Disarmed) :
    Disarms flashEraseBank3AllPages s := by
  unfold Disarms flashEraseBank3AllPages flashGetSlibState
  rw [Prog.exec_bind]
  split
  · exact fun _ => hs
  · exact whenDone_disarms hs fun s hs _ => massErase_disarms .bank3 extFlashErsTimeout hs

theorem flashProgramUserOptionByteData_disarms (address : Word) (data : BitVec 8)
    (hs : s.Disarmed) : Disarms (flashProgramUserOptionByteData address data) s := by
  apply whenDone_disarms hs
  intro s hs
  unfold Disarms
  rw [Prog.exec_bind]
  exact writeOptionByte_disarms _ _ hs

theorem flashUserOptionByteConfig_disarms (uobIwdg uobStop uobStdby : BitVec 16)
    (hs : s.Disarmed) : Disarms (flashUserOptionByteConfig uobIwdg uobStop uobStdby) s := by
  unfold Disarms flashUserOptionByteConfig
  rw [Prog.exec_bind]
  exact whenDone_disarms hs fun s hs => writeOptionByte_disarms _ _ hs

theorem flashBootOptConfig_disarms (flashBoot : BitVec 16) (hs : s.Disarmed) :
    Disarms (flashBootOptConfig flashBoot) s := by
  unfold Disarms flashBootOptConfig
  rw [Prog.exec_bind]
  refine whenDone_disarms (s := (optionKeys.exec s).2) hs fun s hs => ?_
  unfold Disarms
  rw [Prog.exec_bind]
  exact writeOptionByte_disarms _ _ hs

theorem flashSlibMainEnable_disarms (psw : Word) (startPage dataStartPage endPage : BitVec 16)
    (hs : s.Disarmed) : Disarms (flashSlibMainEnable psw startPage dataStartPage endPage) s := by
  intro _
  simp only [flashSlibMainEnable, Prog.exec_bind, flashWaitForProcess_exec]
  split
  · split
    · simp only [Prog.exec_bind, store_exec, flashWaitForProcess_exec]
      exact hs
    · exact hs
  · exact hs

/-- Which status reads of bank 1 make a call clear what it set. -/
def FlashCall.Clears (inputs : FlashInputs) : FlashCall → Prop
  | eraseUserOptionBytes =>
      let first := waitAt (inputs.sts .bank1) ersTimeout 0
      let second := waitAt (inputs.sts .bank1) ersTimeout first.next
      first.result = .prcDone → second.result = .prcDone ∨ second.result = .timeout
  | _ => True

/-- The bits that `FLASH_EraseUserOptionBytes` clears where the erase fails are not those it set. -/
theorem flashEraseUserOptionBytes_disarms (hs : s.Disarmed) :
    Disarms flashEraseUserOptionBytes s ↔
      ((s.wait .bank1 ersTimeout).result = .prcDone →
        (waitAt (s.inputs.sts .bank1) ersTimeout (s.wait .bank1 ersTimeout).next).result =
            .prcDone ∨
          (waitAt (s.inputs.sts .bank1) ersTimeout (s.wait .bank1 ersTimeout).next).result =
            .timeout) := by
  have hwrong : ¬ ctrlUobers &&& ~~~ctrlUobprgm = 0 := by decide
  unfold Disarms flashEraseUserOptionBytes flashGetReadProtectStatus
  rw [Prog.exec_bind]
  refine (eraseThenRdprt_disarms _ _ _ hs).trans ?_
  simp only [hwrong, ne_eq, imp_false, Classical.not_not, or_iff_not_imp_left]

/-- What each call clears. -/
theorem FlashCall.clears_iff (call : FlashCall) (inputs : FlashInputs) (s : FlashState)
    (hs : s.Disarmed) :
    ((call.body.exec (s.begin inputs)).1 ≠ .status .timeout →
      (call.body.exec (s.begin inputs)).2.Disarmed) ↔ call.Clears inputs := by
  have hbegin : (s.begin inputs).Disarmed := hs
  cases call
  all_goals simp only [FlashCall.body, Prog.exec_map, FlashCall.Clears, iff_true, ne_eq,
    FlashResult.status.injEq, reduceCtorEq, not_false_eq_true, true_imp_iff]
  case erasePage pageAddress =>
    exact byAddress_disarms hbegin (erasePageIn_disarms _ hbegin) (erasePageIn_disarms _ hbegin)
      (erasePageIn_disarms _ hbegin)
  case eraseAllPages => exact flashEraseAllPages_disarms hbegin
  case eraseBank1AllPages =>
    exact whenDone_disarms hbegin fun s hs _ => massErase_disarms .bank1 ersTimeout hs
  case eraseBank2AllPages =>
    exact whenDone_disarms hbegin fun s hs _ => massErase_disarms .bank2 ersTimeout hs
  case eraseBank3AllPages => exact flashEraseBank3AllPages_disarms hbegin
  case eraseUserOptionBytes => exact flashEraseUserOptionBytes_disarms hbegin
  case programWord address data =>
    exact byAddress_disarms hbegin (programIn_disarms _ hbegin) (programIn_disarms _ hbegin)
      (programIn_disarms _ hbegin)
  case programHalfWord address data =>
    exact byAddress_disarms hbegin (programIn_disarms _ hbegin) (programIn_disarms _ hbegin)
      (programIn_disarms _ hbegin)
  case programByte address data =>
    exact byAddress_disarms hbegin (programIn_disarms _ hbegin) (programIn_disarms _ hbegin)
      fun _ => hbegin
  case programUserOptionByteData address data =>
    exact flashProgramUserOptionByteData_disarms address data hbegin
  case enableWriteProtect flashPages => exact flashEnableWriteProtect_disarms flashPages hbegin
  case readProtectConfig newState =>
    exact (eraseThenRdprt_disarms _ _ _ hbegin).mpr fun _ _ _ => by decide
  case userOptionByteConfig uobIwdg uobStop uobStdby =>
    exact flashUserOptionByteConfig_disarms uobIwdg uobStop uobStdby hbegin
  case bootOptConfig flashBoot => exact flashBootOptConfig_disarms flashBoot hbegin
  case slibMainEnable psw startPage dataStartPage endPage =>
    exact flashSlibMainEnable_disarms psw startPage dataStartPage endPage hbegin
  case slibDisable psw =>
    simp only [flashSlibDisable, Prog.exec_bind, flashWaitForProcess_exec]
    split <;> exact hs

/-- **A call that returns anything but `FLASH_TIMEOUT` leaves no operation bit set if and only if it
    is not a `FLASH_EraseUserOptionBytes` whose erase fails.** -/
theorem flash_disarms_iff (call : FlashCall) (inputs : FlashInputs) (s : FlashState)
    (hs : s.Disarmed) :
    ((call.body.exec (s.begin inputs)).1 ≠ .status .timeout →
      (call.body.exec (s.begin inputs)).2.Disarmed) ↔ call.Clears inputs :=
  call.clears_iff inputs s hs

/-- Bank 1 is idle when it is first read, and has a program error after that. -/
def failsAfterStart : FlashInputs where
  sts _ i := if i < 3 then 0 else flagPrgmflr
  uob := 0
  slibSts0 := 0
  slibPswSts := 0
  usr := 0

/-- The flash with no operation bit set. -/
def disarmedFlash : FlashState where
  inputs := failsAfterStart
  reads := 0
  ctrl _ := 0
  log := []

theorem disarmedFlash_disarmed : disarmedFlash.Disarmed := fun _ => by simp [disarmedFlash]

/-- An erase of a page that fails clears `PGERS`. -/
theorem flash_disarms_failed_page :
    (((FlashCall.erasePage 0x08000000).body.exec (disarmedFlash.begin failsAfterStart)).1 ≠
        .status .timeout →
      ((FlashCall.erasePage 0x08000000).body.exec
        (disarmedFlash.begin failsAfterStart)).2.Disarmed) ∧ disarmedFlash.Disarmed :=
  ⟨(flash_disarms_iff (.erasePage 0x08000000) failsAfterStart disarmedFlash
    disarmedFlash_disarmed).mpr trivial, disarmedFlash_disarmed⟩

/-- An erase of the option bytes that fails leaves `UOBERS` set. -/
theorem flash_disarms_fails :
    ¬ ∀ (call : FlashCall) (inputs : FlashInputs) (s : FlashState), s.Disarmed →
      (call.body.exec (s.begin inputs)).1 ≠ .status .timeout →
        (call.body.exec (s.begin inputs)).2.Disarmed := by
  intro h
  have hbegin : (disarmedFlash.begin failsAfterStart).Disarmed := disarmedFlash_disarmed
  have hfirst : waitAt (failsAfterStart.sts .bank1) ersTimeout 0 =
      { result := .prcDone, last := .prcDone, earlier := [], next := 3 } :=
    waitAt_of_ne_bsy (by decide) (by decide)
  have hsecond : (waitAt (failsAfterStart.sts .bank1) ersTimeout 3).result = .pgrmFlr := by
    rw [waitAt_of_ne_bsy (by decide) (by decide)]
    decide
  have hdisarms := h .eraseUserOptionBytes failsAfterStart disarmedFlash disarmedFlash_disarmed
  simp only [FlashCall.body, Prog.exec_map, ne_eq, FlashResult.status.injEq] at hdisarms
  have herased := (flashEraseUserOptionBytes_disarms hbegin).mp hdisarms
  simp [FlashState.wait, FlashState.begin, hfirst, hsecond] at herased

end At32
