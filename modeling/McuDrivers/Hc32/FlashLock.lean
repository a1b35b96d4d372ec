import McuDrivers.Hc32.Flash
import McuDrivers.Library.Calls

set_option autoImplicit false

/-! # HC32L13x: the sector lock

Which of the erase and write functions return with the sectors locked again. The functions lock on
their last line only: once the sectors are unlocked, every wait that gives up leaves them so. -/

namespace Hc32

variable {op : FlashOp} {timeOut : Nat} {datum : FlashStore} {s : FlashState}

/-! ## The lock after each part -/

/-- The sectors are locked after the last part if and only if the flash is seen idle again. -/
theorem storeAndLock_slock (h : s.slock ≠ flashLockAllValue) :
    ((storeAndLock timeOut datum).exec s).2.slock = flashLockAllValue ↔
      (idleAt s.cr timeOut s.reads).isSome := by
  simp only [storeAndLock, store, Prog.exec_bind, Prog.exec_put, waitIdle_exec]
  cases idleAt s.cr timeOut s.reads with
  | none => simpa using h
  | some k => simp [flashLockAll, flashBypass, store, storeSlock]

theorem flashUnlockAllValue_ne : flashUnlockAllValue ≠ flashLockAllValue := by decide

/-- Where the operation is set first, only the last wait can leave the sectors unlocked. -/
theorem setOpThenUnlock_slock (h : s.slock = flashLockAllValue) :
    ((setOpThenUnlock op timeOut datum).exec s).2.slock = flashLockAllValue ↔
      ∀ i, idleAt s.cr timeOut s.reads = some i → ∀ j, opAt op s.cr timeOut i = some j →
        (idleAt s.cr timeOut j).isSome := by
  simp only [setOpThenUnlock, Prog.exec_bind, waitIdle_exec]
  cases idleAt s.cr timeOut s.reads with
  | none => simpa using h
  | some i =>
      obtain ⟨stores, hset⟩ := setOp_exec op timeOut { s with reads := i }
      simp only [if_true, Prog.exec_bind, hset]
      cases hop : opAt op s.cr timeOut i with
      | none => simpa [hop] using h
      | some j =>
          simp only [if_true, Prog.exec_bind, flashUnlockAll, flashBypass, store, storeSlock,
            Prog.exec_put]
          rw [storeAndLock_slock flashUnlockAllValue_ne]
          simp [hop]

/-- Where the sectors are unlocked first, the wait for the operation can leave them so as well. -/
theorem unlockThenSetOp_slock (h : s.slock = flashLockAllValue) :
    ((unlockThenSetOp op timeOut datum).exec s).2.slock = flashLockAllValue ↔
      ∀ i, idleAt s.cr timeOut s.reads = some i → ∃ j, opAt op s.cr timeOut i = some j ∧
        (idleAt s.cr timeOut j).isSome := by
  simp only [unlockThenSetOp, Prog.exec_bind, waitIdle_exec]
  cases idleAt s.cr timeOut s.reads with
  | none => simpa using h
  | some i =>
      simp only [if_true, Prog.exec_bind, flashUnlockAll, flashBypass, store, storeSlock,
        Prog.exec_put]
      generalize hs : ({ s with
        reads := i
        slock := flashUnlockAllValue
        stores := _ } : FlashState) = unlocked
      obtain ⟨stores, hset⟩ := setOp_exec op timeOut unlocked
      have hcr : unlocked.cr = s.cr := by rw [← hs]
      have hreads : unlocked.reads = i := by rw [← hs]
      have hslock : unlocked.slock ≠ flashLockAllValue := by
        rw [← hs]
        exact flashUnlockAllValue_ne
      rw [hcr, hreads] at hset
      rw [hset]
      cases hop : opAt op s.cr timeOut i with
      | none => simpa [hop] using hslock
      | some j =>
          simp only [if_true]
          rw [storeAndLock_slock (s := { unlocked with cr := s.cr, reads := j, stores := stores })
            hslock]
          simp [hop]

/-! ## Each call, and every sequence of calls -/

/-- Either the call gives up before it unlocks, or its last wait succeeds. -/
def RelocksOpFirst (op : FlashOp) (timeOut : Nat) (cr : Nat → FlashCr) : Prop :=
  ∀ i, idleAt cr timeOut 0 = some i → ∀ j, opAt op cr timeOut i = some j →
    (idleAt cr timeOut j).isSome

/-- Either the call gives up in its first wait, or the other two succeed. -/
def RelocksUnlockFirst (op : FlashOp) (timeOut : Nat) (cr : Nat → FlashCr) : Prop :=
  ∀ i, idleAt cr timeOut 0 = some i → ∃ j, opAt op cr timeOut i = some j ∧
    (idleAt cr timeOut j).isSome

/-- The answers of `CR` that let a call return with the sectors locked. -/
def FlashCall.Relocks (cr : Nat → FlashCr) : FlashCall → Prop
  | writeByte addr _ => addr ≤ flashEndAddr → RelocksOpFirst .program flashTimeoutPgm cr
  | writeHalfWord addr _ => addr ≤ flashEndAddr → RelocksOpFirst .program flashTimeoutPgm cr
  | writeWord addr _ => addr ≤ flashEndAddr → RelocksUnlockFirst .program flashTimeoutPgm cr
  | sectorErase sectorAddr =>
      sectorAddr ≤ flashEndAddr → RelocksUnlockFirst .sectorErase flashTimeoutErase cr
  | chipErase => RelocksOpFirst .chipErase flashTimeoutErase cr

theorem checkAddr_slock {addr : Word} {body : FlashProg EnResult} {P : Prop}
    (h : s.slock = flashLockAllValue)
    (hbody : (body.exec s).2.slock = flashLockAllValue ↔ P) :
    ((checkAddr addr body).exec s).2.slock = flashLockAllValue ↔ (addr ≤ flashEndAddr → P) := by
  unfold checkAddr
  by_cases haddr : flashEndAddr < addr
  · have hnot : ¬ addr ≤ flashEndAddr := BitVec.not_le.mpr haddr
    simp [haddr, hnot, h]
  · have hle : addr ≤ flashEndAddr := BitVec.not_lt.mp haddr
    simp [haddr, hle, hbody]

theorem flashCall_slock (call : FlashCall) (h : s.slock = flashLockAllValue) (hr : s.reads = 0) :
    (call.body.exec s).2.slock = flashLockAllValue ↔ call.Relocks s.cr := by
  unfold FlashCall.Relocks RelocksOpFirst RelocksUnlockFirst
  rw [← hr]
  cases call with
  | writeByte addr data => exact checkAddr_slock h (setOpThenUnlock_slock h)
  | writeHalfWord addr data => exact checkAddr_slock h (setOpThenUnlock_slock h)
  | writeWord addr data => exact checkAddr_slock h (unlockThenSetOp_slock h)
  | sectorErase sectorAddr => exact checkAddr_slock h (unlockThenSetOp_slock h)
  | chipErase => exact setOpThenUnlock_slock h

/-- A call, and what `CR` reads as while it runs. -/
def flashStep (c : FlashCall × (Nat → FlashCr)) (s : FlashState) : FlashState :=
  (c.1.body.exec { s with cr := c.2, reads := 0 }).2

theorem flashStep_slock (c : FlashCall × (Nat → FlashCr)) (h : s.slock = flashLockAllValue) :
    (flashStep c s).slock = flashLockAllValue ↔ c.1.Relocks c.2 :=
  flashCall_slock c.1 h rfl

/-- The flash with all sectors locked. -/
def lockedFlash : FlashState where
  cr := fun _ => { busy := false, op := .read }
  reads := 0
  slock := flashLockAllValue
  stores := []

/-- **The sectors are locked again after every call of a sequence if and only if `CR` answers each
    of the calls in a way that lets it lock them.** -/
theorem flash_relock_iff (calls : List (FlashCall × (Nat → FlashCr))) :
    Calls.All flashStep (fun _ _ s' => s'.slock = flashLockAllValue) calls lockedFlash ↔
      ∀ c ∈ calls, c.1.Relocks c.2 := by
  apply Calls.all_iff (I := fun s => s.slock = flashLockAllValue)
  · intro c s hs
    exact flashStep_slock c hs
  · intro c s _ hs'
    exact hs'
  · rfl

/-- The flash goes idle, the operation is read back, and then the flash stays busy. -/
def busyAfterStore (op : FlashOp) : Nat → FlashCr
  | 0 => { busy := false, op := .read }
  | 1 => { busy := false, op := op }
  | _ => { busy := true, op := op }

/-- A byte written to a flash that does not become idle again leaves every sector writable. -/
theorem flash_relock_fails :
    ¬ ∀ calls : List (FlashCall × (Nat → FlashCr)),
      Calls.All flashStep (fun _ _ s' => s'.slock = flashLockAllValue) calls lockedFlash := by
  have hbusy : idleAt (busyAfterStore .program) flashTimeoutPgm 2 = none := by
    unfold idleAt
    rw [pollNext_eq_none]
    intro j _
    rw [Nat.add_comm]
    rfl
  apply Calls.not_forall_all (c := (.writeByte 0 0, busyAfterStore .program))
  rw [flashStep_slock _ rfl]
  intro h
  have hidle := h (by decide) 1 rfl 2 rfl
  simp [hbusy] at hidle

end Hc32
