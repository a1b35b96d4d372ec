import McuDrivers.Hc32.Flash

set_option autoImplicit false

/-! # HC32L13x: when the flash is written

The erase and write functions store to the flash once, when the flash was seen idle, the operation was
read back and the sectors are unlocked; what they return tells whether it was seen idle again. The
check of the address looks at the first byte only, so that a half-word or a word at the end of the flash
is stored beyond it. -/

namespace Hc32

variable {α : Type} {s : FlashState}

/-! ## The stores of a run -/

/-- A store to the flash itself, not to a register. -/
def FlashStore.isDatum : FlashStore → Bool
  | .byte _ _ | .halfWord _ _ | .word _ _ => true
  | .bypass _ | .op _ | .slock _ => false

/-- Every byte that is stored to the flash lies in it. -/
def FlashStore.WithinFlash : FlashStore → Prop
  | .byte addr _ => addr.toNat ≤ flashEndAddr.toNat
  | .halfWord addr _ => addr.toNat + 1 ≤ flashEndAddr.toNat
  | .word addr _ => addr.toNat + 3 ≤ flashEndAddr.toNat
  | .bypass _ | .op _ | .slock _ => True

/-- What an access stored. -/
def storedIn (a : FlashState × FlashState) : List FlashStore := a.2.stores.drop a.1.stores.length

/-- The accesses of a run that store to the flash, each as the states before and after it. -/
def datumAccesses (p : FlashProg α) (s : FlashState) : List (FlashState × FlashState) :=
  (p.trace s).filter fun a => (storedIn a).any FlashStore.isDatum

/-- The state after a store. -/
def FlashState.storing (s : FlashState) (v : FlashStore) : FlashState :=
  { s with stores := s.stores ++ [v] }

@[simp] theorem storedIn_storing (s : FlashState) (v : FlashStore) :
    storedIn (s, s.storing v) = [v] := by
  simp [storedIn, FlashState.storing]

@[simp] theorem datumAccesses_ret (a : α) (s : FlashState) :
    datumAccesses (.ret a : FlashProg α) s = [] := rfl

@[simp] theorem datumAccesses_bind {β : Type} (p : FlashProg α) (q : α → FlashProg β)
    (s : FlashState) : datumAccesses (p >>= q) s =
      datumAccesses p s ++ datumAccesses (q (p.exec s).1) (p.exec s).2 := by
  simp [datumAccesses]

/-- An access that does not store to the flash. -/
def NoDatum (s s' : FlashState) : Prop := (storedIn (s, s')).any FlashStore.isDatum = false

theorem datumAccesses_of_noDatum {p : FlashProg α} (hp : p.Accesses NoDatum) (s : FlashState) :
    datumAccesses p s = [] := by
  rw [datumAccesses, List.filter_eq_nil_iff]
  intro a ha
  simp [show (storedIn a).any FlashStore.isDatum = false from Prog.trace_of_accesses hp s a ha]

theorem readCr_noDatum : readCr.Accesses NoDatum :=
  ⟨fun s => by simp [NoDatum, storedIn], fun _ => trivial⟩

theorem store_noDatum {v : FlashStore} (hv : v.isDatum = false) : (store v).Accesses NoDatum := by
  refine ⟨fun s => ?_, fun _ => trivial⟩
  simp [NoDatum, storedIn, hv]

theorem storeSlock_noDatum (v : Word) : (storeSlock v).Accesses NoDatum := by
  refine ⟨fun s => ?_, fun _ => trivial⟩
  simp [NoDatum, storedIn, FlashStore.isDatum]

theorem flashBypass_noDatum : flashBypass.Accesses NoDatum :=
  Prog.accesses_bind (store_noDatum rfl) fun _ => store_noDatum rfl

theorem flashUnlockAll_noDatum : flashUnlockAll.Accesses NoDatum :=
  Prog.accesses_bind flashBypass_noDatum fun _ => storeSlock_noDatum _

theorem flashLockAll_noDatum : flashLockAll.Accesses NoDatum :=
  Prog.accesses_bind flashBypass_noDatum fun _ => storeSlock_noDatum _

theorem waitIdle_noDatum (timeOut : Nat) : (waitIdle timeOut).Accesses NoDatum := by
  induction timeOut with
  | zero =>
      refine Prog.accesses_bind readCr_noDatum fun cr => ?_
      split <;> trivial
  | succ timeOut ih =>
      refine Prog.accesses_bind readCr_noDatum fun cr => ?_
      split
      · exact ih
      · trivial

theorem setOp_noDatum (op : FlashOp) (timeOut : Nat) : (setOp op timeOut).Accesses NoDatum := by
  induction timeOut with
  | zero =>
      refine Prog.accesses_bind readCr_noDatum fun cr => ?_
      split <;> trivial
  | succ timeOut ih =>
      refine Prog.accesses_bind readCr_noDatum fun cr => ?_
      split
      · exact Prog.accesses_bind flashBypass_noDatum fun _ =>
          Prog.accesses_bind (store_noDatum rfl) fun _ => ih
      · trivial

/-! ## How a call ends -/

section Waits

variable {op : FlashOp} {timeOut : Nat} {datum : FlashStore}

/-- The flash is seen idle, and then the operation is read back. -/
def Reaches (op : FlashOp) (timeOut : Nat) (s : FlashState) : Prop :=
  ∃ i j, idleAt s.cr timeOut s.reads = some i ∧ opAt op s.cr timeOut i = some j

/-- A call gives up before it stores, or it stores `datum` once and says whether the flash was seen
    idle after that. -/
inductive Outcome (op : FlashOp) (timeOut : Nat) (datum : FlashStore) (p : FlashProg EnResult)
    (s : FlashState) : Prop where
  | gaveUp (hreaches : ¬ Reaches op timeOut s) (hresult : (p.exec s).1 = .errorTimeout)
      (hnone : datumAccesses p s = [])
  | stored (i : Nat) (t : FlashState) (hidle : idleAt s.cr timeOut s.reads = some i)
      (hop : opAt op s.cr timeOut i = some t.reads) (hslock : t.slock = flashUnlockAllValue)
      (hdatum : datumAccesses p s = [(t, t.storing datum)])
      (hresult : (p.exec s).1 = .ok ↔ (idleAt s.cr timeOut t.reads).isSome)
      (hvalid : (p.exec s).1 ≠ .errorInvalidParameter)
      (hreads : (p.exec s).2.reads =
        (idleAt s.cr timeOut t.reads).getD (t.reads + (timeOut + 1)))

theorem storeAndLock_datum (hd : datum.isDatum = true) (t : FlashState) :
    datumAccesses (storeAndLock timeOut datum) t = [(t, t.storing datum)] := by
  have hstore : datumAccesses (store datum) t = [(t, t.storing datum)] := by
    simp [datumAccesses, store, FlashState.storing, storedIn, hd]
  rw [storeAndLock, datumAccesses_bind, hstore, datumAccesses_bind,
    datumAccesses_of_noDatum (waitIdle_noDatum timeOut)]
  split
  · rw [datumAccesses_bind, datumAccesses_of_noDatum flashLockAll_noDatum]
    simp
  · simp

theorem storeAndLock_exec (timeOut : Nat) (datum : FlashStore) (t : FlashState) :
    (((storeAndLock timeOut datum).exec t).1 = .ok ↔ (idleAt t.cr timeOut t.reads).isSome) ∧
      ((storeAndLock timeOut datum).exec t).1 ≠ .errorInvalidParameter ∧
      ((storeAndLock timeOut datum).exec t).2.reads =
        (idleAt t.cr timeOut t.reads).getD (t.reads + (timeOut + 1)) := by
  simp only [storeAndLock, store, Prog.exec_bind, Prog.exec_put, waitIdle_exec]
  cases idleAt t.cr timeOut t.reads with
  | none => simp
  | some k => simp [flashLockAll, flashBypass, store, storeSlock]

/-- The flash is idle in `s`: `body` comes to its last part if the operation is read back, with the
    sectors unlocked and nothing stored to the flash before, and gives up otherwise. -/
structure AfterIdle (op : FlashOp) (timeOut : Nat) (datum : FlashStore) (body : FlashProg EnResult)
    (s : FlashState) : Prop where
  gaveUp : opAt op s.cr timeOut s.reads = none →
    (body.exec s).1 = .errorTimeout ∧ datumAccesses body s = []
  reached : ∀ j, opAt op s.cr timeOut s.reads = some j → ∃ t : FlashState, t.reads = j ∧
    t.cr = s.cr ∧ t.slock = flashUnlockAllValue ∧
    datumAccesses body s = datumAccesses (storeAndLock timeOut datum) t ∧
    body.exec s = (storeAndLock timeOut datum).exec t

/-- The first wait, which both orders begin with. -/
theorem outcome_of_waitIdle {body : FlashProg EnResult} (hd : datum.isDatum = true)
    (hbody : ∀ s, AfterIdle op timeOut datum body s) (s : FlashState) :
    Outcome op timeOut datum (do
      let idle ← waitIdle timeOut
      if idle then body else return .errorTimeout) s := by
  generalize hp : (do
    let idle ← waitIdle timeOut
    if idle then body else return .errorTimeout : FlashProg EnResult) = p
  have hexec : p.exec s = (if ((waitIdle timeOut).exec s).1 then body
      else pure .errorTimeout).exec ((waitIdle timeOut).exec s).2 := by
    rw [← hp, Prog.exec_bind]
  have hdatum : datumAccesses p s = datumAccesses (if ((waitIdle timeOut).exec s).1 then body
      else pure .errorTimeout) ((waitIdle timeOut).exec s).2 := by
    rw [← hp, datumAccesses_bind, datumAccesses_of_noDatum (waitIdle_noDatum timeOut), List.nil_append]
  rw [waitIdle_exec] at hexec hdatum
  cases hidle : idleAt s.cr timeOut s.reads with
  | none =>
      rw [hidle] at hexec hdatum
      refine .gaveUp ?_ (by rw [hexec]; rfl) hdatum
      rintro ⟨i, j, hi, -⟩
      rw [hidle] at hi
      cases hi
  | some i =>
      rw [hidle] at hexec hdatum
      simp only [if_true] at hexec hdatum
      obtain ⟨hgaveUp, hreached⟩ := hbody { s with reads := i }
      cases hop : opAt op s.cr timeOut i with
      | none =>
          obtain ⟨hresult, hnone⟩ := hgaveUp hop
          refine .gaveUp ?_ (by rw [hexec]; exact hresult) (hdatum.trans hnone)
          rintro ⟨i', j, hi, hj⟩
          rw [hidle, Option.some.injEq] at hi
          rw [← hi, hop] at hj
          cases hj
      | some j =>
          obtain ⟨t, hreads, hcr, hslock, hlast, hrest⟩ := hreached j hop
          obtain ⟨hresult, hvalid, hend⟩ := storeAndLock_exec timeOut datum t
          rw [← hrest, ← hexec] at hresult hvalid hend
          rw [hcr] at hresult hend
          rw [storeAndLock_datum hd] at hlast
          exact .stored i t hidle (hreads ▸ hop) hslock (hdatum.trans hlast) hresult hvalid hend

theorem setOpThenUnlock_outcome (hd : datum.isDatum = true) (s : FlashState) :
    Outcome op timeOut datum (setOpThenUnlock op timeOut datum) s := by
  refine outcome_of_waitIdle hd (fun s => ?_) s
  obtain ⟨stores, hset⟩ := setOp_exec op timeOut s
  constructor
  · intro hop
    simp [Prog.exec_bind, hset, hop, datumAccesses_of_noDatum (setOp_noDatum op timeOut)]
  · intro j hop
    refine ⟨(flashUnlockAll.exec { s with reads := j, stores := stores }).2, rfl, rfl, rfl, ?_, ?_⟩
    · simp only [datumAccesses_bind, datumAccesses_of_noDatum (setOp_noDatum op timeOut), hset, hop,
        if_true, datumAccesses_of_noDatum flashUnlockAll_noDatum, List.nil_append]
    · simp only [Prog.exec_bind, hset, hop, if_true]

theorem unlockThenSetOp_outcome (hd : datum.isDatum = true) (s : FlashState) :
    Outcome op timeOut datum (unlockThenSetOp op timeOut datum) s := by
  refine outcome_of_waitIdle hd (fun s => ?_) s
  obtain ⟨stores, hset⟩ := setOp_exec op timeOut (flashUnlockAll.exec s).2
  constructor
  · intro hop
    have hop' : opAt op (flashUnlockAll.exec s).2.cr timeOut (flashUnlockAll.exec s).2.reads = none := hop
    simp [Prog.exec_bind, hset, hop', datumAccesses_of_noDatum (setOp_noDatum op timeOut),
      datumAccesses_of_noDatum flashUnlockAll_noDatum]
  · intro j hop
    have hop' : opAt op (flashUnlockAll.exec s).2.cr timeOut (flashUnlockAll.exec s).2.reads = some j := hop
    rw [hop'] at hset
    refine ⟨{ (flashUnlockAll.exec s).2 with reads := j, stores := stores }, rfl, rfl, rfl, ?_, ?_⟩
    · simp only [datumAccesses_bind, datumAccesses_of_noDatum (setOp_noDatum op timeOut), hset,
        if_true, datumAccesses_of_noDatum flashUnlockAll_noDatum, List.nil_append]
    · simp only [Prog.exec_bind, hset, if_true]

end Waits

/-! ## The discipline -/

def FlashCall.addr : FlashCall → Word
  | writeByte addr _ | writeHalfWord addr _ | writeWord addr _ => addr
  | sectorErase sectorAddr => sectorAddr
  | chipErase => 0

def FlashCall.op : FlashCall → FlashOp
  | writeByte _ _ | writeHalfWord _ _ | writeWord _ _ => .program
  | sectorErase _ => .sectorErase
  | chipErase => .chipErase

def FlashCall.timeOut : FlashCall → Nat
  | writeByte _ _ | writeHalfWord _ _ | writeWord _ _ => flashTimeoutPgm
  | sectorErase _ | chipErase => flashTimeoutErase

/-- What starts the operation. -/
def FlashCall.datum : FlashCall → FlashStore
  | writeByte addr data => .byte addr data
  | writeHalfWord addr data => .halfWord addr data
  | writeWord addr data => .word addr data
  | sectorErase sectorAddr => .byte sectorAddr 0
  | chipErase => .byte 0 0

/-- In `t`, of a call that began in `s`: `BUSY` was read clear, `op` was read back last, and the sectors
    are unlocked. -/
structure ReadyFor (op : FlashOp) (s t : FlashState) : Prop where
  answered : ∃ i j, s.reads ≤ i ∧ i < j ∧ j + 1 = t.reads ∧ (s.cr i).busy = false ∧ (s.cr j).op = op
  unlocked : t.slock = flashUnlockAllValue

/-- What is stored to the flash, when, and what the call returns. -/
structure Disciplined (c : FlashCall) (s : FlashState) : Prop where
  once : (datumAccesses c.body s).length ≤ 1
  ready : ∀ a ∈ datumAccesses c.body s, ReadyFor c.op s a.1
  within : ∀ a ∈ datumAccesses c.body s, ∀ v ∈ storedIn a, v.WithinFlash
  ok : (c.body.exec s).1 = .ok ↔ ∃ a ∈ datumAccesses c.body s, ∃ k, a.2.reads ≤ k ∧
    k < (c.body.exec s).2.reads ∧ (s.cr k).busy = false
  refused : (c.body.exec s).1 = .errorInvalidParameter → datumAccesses c.body s = []
  timedOut : ¬ Reaches c.op c.timeOut s → datumAccesses c.body s = []

/-- An address that is accepted leaves the rest to one of the two orders. -/
theorem FlashCall.body_outcome (c : FlashCall) (h : c.addr ≤ flashEndAddr) (s : FlashState) :
    Outcome c.op c.timeOut c.datum c.body s := by
  have hnot : ¬ flashEndAddr < c.addr := BitVec.not_lt.mpr h
  cases c with
  | writeByte addr data =>
      have hbody : (writeByte addr data).body = _ := if_neg hnot
      rw [hbody]
      exact setOpThenUnlock_outcome rfl s
  | writeHalfWord addr data =>
      have hbody : (writeHalfWord addr data).body = _ := if_neg hnot
      rw [hbody]
      exact setOpThenUnlock_outcome rfl s
  | writeWord addr data =>
      have hbody : (writeWord addr data).body = _ := if_neg hnot
      rw [hbody]
      exact unlockThenSetOp_outcome rfl s
  | sectorErase sectorAddr =>
      have hbody : (sectorErase sectorAddr).body = _ := if_neg hnot
      rw [hbody]
      exact unlockThenSetOp_outcome rfl s
  | chipErase => exact setOpThenUnlock_outcome rfl s

/-- Any other is refused at once. -/
theorem FlashCall.body_refused (c : FlashCall) (h : ¬ c.addr ≤ flashEndAddr) :
    c.body = .ret .errorInvalidParameter := by
  have hlt : flashEndAddr < c.addr := BitVec.not_le.mp h
  cases c with
  | writeByte addr data => exact if_pos hlt
  | writeHalfWord addr data => exact if_pos hlt
  | writeWord addr data => exact if_pos hlt
  | sectorErase sectorAddr => exact if_pos hlt
  | chipErase => exact absurd (by decide) h

theorem readyFor_of_found {op : FlashOp} {timeOut i : Nat} {t : FlashState}
    (hidle : idleAt s.cr timeOut s.reads = some i)
    (hop : opAt op s.cr timeOut i = some t.reads) (hslock : t.slock = flashUnlockAllValue) :
    ReadyFor op s t := by
  obtain ⟨j, rfl, hle, -, hbusy⟩ := pollNext_eq_some hidle
  obtain ⟨k, hk, hle', -, hread⟩ := pollNext_eq_some hop
  exact ⟨⟨j, k, hle, hle', hk.symm, by simpa using hbusy, by simpa using hread⟩, hslock⟩

theorem disciplined_of_refused {c : FlashCall} (h : ¬ c.addr ≤ flashEndAddr) : Disciplined c s := by
  have hnone : datumAccesses c.body s = [] := by rw [c.body_refused h]; rfl
  have hresult : (c.body.exec s).1 = .errorInvalidParameter := by rw [c.body_refused h]; rfl
  constructor
  all_goals simp [hnone, hresult]

/-- An accepted call is disciplined, but for where it stores. -/
theorem Outcome.disciplined_iff {c : FlashCall}
    (h : Outcome c.op c.timeOut c.datum c.body s) :
    Disciplined c s ↔ (Reaches c.op c.timeOut s → c.datum.WithinFlash) := by
  cases h with
  | gaveUp hreaches hresult hnone =>
      refine iff_of_true ?_ fun h => absurd h hreaches
      constructor
      all_goals simp [hnone, hresult]
  | stored i t hidle hop hslock hdatum hresult hvalid hreads =>
      have hreaches : Reaches c.op c.timeOut s := ⟨i, t.reads, hidle, hop⟩
      constructor
      · intro hdisciplined _
        exact hdisciplined.within (t, t.storing c.datum) (by simp [hdatum]) c.datum (by simp)
      · intro hwithin
        constructor
        · simp [hdatum]
        · simp only [hdatum, List.mem_singleton, forall_eq]
          exact readyFor_of_found hidle hop hslock
        · simp [hdatum, hwithin hreaches]
        · -- the reads after the store are those of the last wait
          rw [hresult, hreads, idleAt, pollNext_isSome]
          simp [hdatum, FlashState.storing]
        · exact fun hrefused => absurd hrefused hvalid
        · exact fun hnot => absurd hreaches hnot

/-- **The functions keep the discipline if and only if the unit that they store, where they come to
    store one, lies in the flash with all its bytes.** -/
theorem flash_store_iff (c : FlashCall) (s : FlashState) :
    Disciplined c s ↔
      (c.addr ≤ flashEndAddr → Reaches c.op c.timeOut s → c.datum.WithinFlash) := by
  by_cases h : c.addr ≤ flashEndAddr
  · rw [(c.body_outcome h s).disciplined_iff]
    exact ⟨fun hwithin _ => hwithin, fun hwithin => hwithin h⟩
  · exact iff_of_true (disciplined_of_refused h) fun hle => absurd hle h

/-- The flash is idle and ready to be programmed. -/
def readyFlash : FlashState where
  cr := fun _ => { busy := false, op := .program }
  reads := 0
  slock := 0
  stores := []

/-- A half-word at the last byte of the flash is stored beyond its end. -/
theorem flash_store_fails : ¬ ∀ (c : FlashCall) (s : FlashState), Disciplined c s := by
  intro h
  have hwithin := (FlashCall.body_outcome (.writeHalfWord 0xFFFF 0) (by decide)
    readyFlash).disciplined_iff.mp (h _ _) ⟨1, 2, rfl, rfl⟩
  exact absurd hwithin (by unfold FlashCall.datum FlashStore.WithinFlash; decide)

end Hc32
