import McuDrivers.At32.FlashFlags

set_option autoImplicit false

/-! # AT32F4xx: the four wait functions

`FLASH_WaitForProcess` and its copies for the three banks poll until a status is not busy or `Timeout` is
used up, and then go by `Timeout` alone. A status that is read on the last poll is never looked at. -/

namespace At32

/-! ## The functions -/

/-- The number of a `FLASH_Status`. -/
def FlashStatus.code : FlashStatus → Word
  | .bsy => 1
  | .pgrmFlr => 2
  | .wrprtFlr => 3
  | .prcDone => 4
  | .timeout => 5

/-- `while((status == bsy) && (Timeout != 0x00)) {..}`: what `status` and `Timeout` are after it. -/
def waitWhile (b : Bank) (bsy : Word) :
    (timeout : Nat) → FlashStatus → FlashProg (FlashStatus × Nat)
  | 0, status => return (status, 0)
  | timeout + 1, status =>
      if status.code = bsy then do
        let status ← flashGetBankStatus b
        waitWhile b bsy timeout status
      else return (status, timeout + 1)

/-- One wait function, for a bank and what it takes for the number of `FLASH_BSY`. -/
def waitFor (b : Bank) (bsy : Word) (timeout : Nat) : FlashProg FlashStatus := do
  let status ← flashGetBankStatus b
  let (status, timeout) ← waitWhile b bsy timeout status
  if timeout = 0 then return .timeout else return status

/-- The wait functions. -/
inductive FlashWait where
  | waitForProcess
  | waitForBank1Process
  | waitForBank2Process
  | waitForBank3Process

def FlashWait.body (timeout : Nat) : FlashWait → FlashProg FlashStatus
  | waitForProcess => waitFor .bank1 FlashStatus.bsy.code timeout
  | waitForBank1Process => waitFor .bank1 flashFlagBnk1Bsy timeout
  | waitForBank2Process => waitFor .bank2 (flashFlagBnk2Bsy &&& flashIntBank2Mask) timeout
  | waitForBank3Process => waitFor .bank3 (flashFlagBnk3Bsy &&& flashIntBank3Mask) timeout

def FlashWait.bank : FlashWait → Bank
  | waitForProcess => .bank1
  | waitForBank1Process => .bank1
  | waitForBank2Process => .bank2
  | waitForBank3Process => .bank3

/-- Going by `Timeout` after the loop is the same as going by it in the loop. -/
theorem waitWhile_eq {bsy : Word} (hbsy : bsy = FlashStatus.bsy.code) (b : Bank) (timeout : Nat)
    (status : FlashStatus) :
    (waitWhile b bsy timeout status >>= fun left =>
      if left.2 = 0 then return .timeout else return left.1) = waitLoop b timeout status := by
  have hcode : ∀ status : FlashStatus, status.code = bsy ↔ status = .bsy := by
    intro status
    rw [hbsy]
    cases status <;> decide
  induction timeout generalizing status with
  | zero => rfl
  | succ timeout ih =>
      unfold waitWhile waitLoop
      by_cases h : status = .bsy
      · rw [if_pos ((hcode status).mpr h), if_pos h, Prog.bind_assoc]
        simp only [ih]
      · rw [if_neg fun hcontra => h ((hcode status).mp hcontra), if_neg h]
        rfl

theorem waitFor_eq {bsy : Word} (hbsy : bsy = FlashStatus.bsy.code) (b : Bank) (timeout : Nat) :
    waitFor b bsy timeout = flashWaitForBankProcess b timeout := by
  unfold waitFor flashWaitForBankProcess
  simp only [← waitWhile_eq hbsy]

/-- The four constants that the status is compared with are the number of `FLASH_BSY`. -/
theorem FlashWait.body_eq (f : FlashWait) (timeout : Nat) :
    f.body timeout = flashWaitForBankProcess f.bank timeout := by
  cases f <;> exact waitFor_eq (by decide) _ timeout

/-! ## The register -/

/-- `STSx` shows that the bank is busy. -/
def Busy (sts : Word) : Prop := sts &&& flagBsy = flagBsy

instance (sts : Word) : Decidable (Busy sts) := inferInstanceAs (Decidable (_ = _))

variable {sts : Nat → Word} {timeout i k : Nat}

theorem statusAt_of_busy (h : Busy (sts i)) : statusAt sts i = (.bsy, i + 1) := if_pos h

theorem statusAt_bsy_iff : (statusAt sts i).1 = .bsy ↔ Busy (sts i) := by
  constructor
  · intro h
    by_contra hidle
    rw [statusAt, if_neg (show ¬ sts i &&& flagBsy = flagBsy from hidle)] at h
    split at h
    · cases h
    · split at h <;> cases h
  · intro h
    rw [statusAt_of_busy h]

theorem statusAt_ne_timeout : (statusAt sts i).1 ≠ .timeout := by
  unfold statusAt
  split
  · simp
  · split
    · simp
    · split <;> simp

/-! ## How a wait ends -/

/-- The bank is busy in every poll but the last one, from the `i`-th read of its register on. -/
def FinishesLast (sts : Nat → Word) (timeout i : Nat) : Prop :=
  (∀ j, j < timeout → Busy (sts (i + j))) ∧ ¬ Busy (sts (i + timeout))

/-- A wait that reads its first status that is not busy before the last poll. -/
structure EndsAt (sts : Nat → Word) (timeout i k : Nat) : Prop where
  inTime : k < timeout
  busy : ∀ j, j < k → Busy (sts (i + j))
  idle : ¬ Busy (sts (i + k))

/-- `k` statuses that are busy, and then one that is returned. -/
def Waited.ended (sts : Nat → Word) (i k : Nat) (earlier : List FlashStatus) : Waited where
  result := (statusAt sts (i + k)).1
  last := (statusAt sts (i + k)).1
  earlier := List.replicate k .bsy ++ earlier
  next := (statusAt sts (i + k)).2

/-- `timeout` statuses that are busy, and then one that is not looked at. -/
def Waited.timedOut (sts : Nat → Word) (timeout i : Nat) (earlier : List FlashStatus) : Waited where
  result := .timeout
  last := (statusAt sts (i + timeout)).1
  earlier := List.replicate timeout .bsy ++ earlier
  next := (statusAt sts (i + timeout)).2

theorem waitFrom_cases (sts : Nat → Word) (timeout i : Nat) (earlier : List FlashStatus) :
    (∃ k, EndsAt sts timeout i k ∧
      waitFrom sts timeout (statusAt sts i).1 earlier (statusAt sts i).2 =
        .ended sts i k earlier) ∨
    ((∀ j, j < timeout → Busy (sts (i + j))) ∧
      waitFrom sts timeout (statusAt sts i).1 earlier (statusAt sts i).2 =
        .timedOut sts timeout i earlier) := by
  induction timeout generalizing i earlier with
  | zero => exact .inr ⟨by simp, rfl⟩
  | succ timeout ih =>
      unfold waitFrom
      by_cases hbusy : Busy (sts i)
      · rw [if_pos (statusAt_bsy_iff.mpr hbusy), statusAt_of_busy hbusy]
        -- the rest of the polls are those from the next read on
        have hshift : ∀ j, i + 1 + j = i + (j + 1) := fun j => by omega
        have hall : ∀ {n}, (∀ j, j < n → Busy (sts (i + 1 + j))) →
            ∀ j, j < n + 1 → Busy (sts (i + j)) := by
          intro n hrest j hj
          cases j with
          | zero => exact hbusy
          | succ j => simpa only [hshift] using hrest j (by omega)
        rcases ih (i + 1) (.bsy :: earlier) with ⟨k, hends, hk⟩ | ⟨hrest, hout⟩
        · refine .inl ⟨k + 1, ⟨by have := hends.inTime; omega, hall hends.busy, ?_⟩, ?_⟩
          · simpa only [hshift] using hends.idle
          · rw [hk, Waited.ended, Waited.ended, hshift, List.replicate_succ', List.append_assoc]
            rfl
        · refine .inr ⟨hall hrest, ?_⟩
          rw [hout, Waited.timedOut, Waited.timedOut, hshift, List.replicate_succ',
            List.append_assoc]
          rfl
      · rw [if_neg fun h => hbusy (statusAt_bsy_iff.mp h)]
        exact .inl ⟨0, ⟨by omega, by simp, hbusy⟩, rfl⟩

/-- A wait ends at the first status that is not busy, or is timed out with all but the last one busy. -/
theorem waitAt_cases (sts : Nat → Word) (timeout i : Nat) :
    (∃ k, EndsAt sts timeout i k ∧ waitAt sts timeout i = .ended sts i k []) ∨
    ((∀ j, j < timeout → Busy (sts (i + j))) ∧ waitAt sts timeout i = .timedOut sts timeout i []) :=
  waitFrom_cases sts timeout i []

theorem EndsAt.not_finishesLast (h : EndsAt sts timeout i k) : ¬ FinishesLast sts timeout i :=
  fun hlast => h.idle (hlast.1 k h.inTime)

/-! ## Exactness -/

/-- `result` is `FLASH_TIMEOUT` just if every status read is busy, and otherwise the first one that is
    not. -/
structure WaitExact (read : List FlashStatus) (result : FlashStatus) : Prop where
  timeout : result = .timeout ↔ ∀ status ∈ read, status = .bsy
  first : (∃ status ∈ read, status ≠ .bsy) → read.find? (· ≠ .bsy) = some result

/-- The statuses that a wait reads, oldest first. -/
def Waited.read (w : Waited) : List FlashStatus := w.earlier.reverse ++ [w.last]

theorem waitAt_exact (sts : Nat → Word) (timeout i : Nat) :
    WaitExact (waitAt sts timeout i).read (waitAt sts timeout i).result ↔
      ¬ FinishesLast sts timeout i := by
  have hbusy : ∀ n, (List.replicate n FlashStatus.bsy).find? (· ≠ .bsy) = none := by
    intro n
    simp
  rcases waitAt_cases sts timeout i with ⟨k, hends, hw⟩ | ⟨hall, hw⟩
  · rw [hw, Waited.ended, Waited.read]
    have hidle : (statusAt sts (i + k)).1 ≠ .bsy := fun h => hends.idle (statusAt_bsy_iff.mp h)
    refine iff_of_true ⟨?_, ?_⟩ hends.not_finishesLast
    · simp [statusAt_ne_timeout, hidle]
    · intro _
      simp [hidle]
  · rw [hw, Waited.timedOut, Waited.read]
    have hlast : ¬ FinishesLast sts timeout i ↔ (statusAt sts (i + timeout)).1 = .bsy := by
      rw [statusAt_bsy_iff, FinishesLast]
      exact ⟨fun h => by_contra fun hidle => h ⟨hall, hidle⟩, fun h hfin => hfin.2 h⟩
    rw [hlast]
    constructor
    · intro hexact
      exact hexact.timeout.mp rfl _ (by simp)
    · intro hbsy
      rw [hbsy]
      have hread : ∀ status ∈ (List.replicate timeout FlashStatus.bsy ++ []).reverse ++
          [FlashStatus.bsy], status = .bsy := by
        intro status hmem
        simp only [List.append_nil, List.reverse_replicate, List.mem_append, List.mem_replicate,
          List.mem_singleton] at hmem
        rcases hmem with ⟨-, h⟩ | h <;> exact h
      refine ⟨iff_of_true rfl hread, ?_⟩
      rintro ⟨status, hmem, hidle⟩
      exact absurd (hread status hmem) hidle

/-- The status of bank `b` that an access read. -/
def FlashAccess.statusOf (b : Bank) : FlashAccess → Option FlashStatus
  | status b' st => if b' = b then some st else none
  | _ => none

/-- The statuses of a bank that are on record, oldest first. -/
def FlashState.statuses (s : FlashState) (b : Bank) : List FlashStatus :=
  s.log.reverse.filterMap (FlashAccess.statusOf b)

theorem begin_waited_statuses (s : FlashState) (inputs : FlashInputs) (b : Bank) (w : Waited) :
    ((s.begin inputs).waited b w).statuses b = w.read := by
  have hmap : ∀ read : List FlashStatus,
      (read.map (FlashAccess.status b)).filterMap (FlashAccess.statusOf b) = read := by
    intro read
    rw [List.filterMap_map]
    simp [FlashAccess.statusOf, Function.comp_def]
  simp only [FlashState.statuses, FlashState.waited, FlashState.begin, List.append_nil,
    List.reverse_cons, List.filterMap_append, ← List.map_reverse, hmap, Waited.read]
  simp [FlashAccess.statusOf]

/-- What a call of a wait function returns is exact for the statuses of its bank that it reads. -/
def FlashWait.Exact (f : FlashWait) (timeout : Nat) (inputs : FlashInputs) (s : FlashState) : Prop :=
  let run := (f.body timeout).exec (s.begin inputs)
  WaitExact (run.2.statuses f.bank) run.1

theorem FlashWait.exact_iff (f : FlashWait) (timeout : Nat) (inputs : FlashInputs)
    (s : FlashState) : f.Exact timeout inputs s ↔ ¬ FinishesLast (inputs.sts f.bank) timeout 0 := by
  simp only [FlashWait.Exact, FlashWait.body_eq, flashWaitForBankProcess_exec, begin_waited_statuses]
  exact waitAt_exact (inputs.sts f.bank) timeout 0

end At32
