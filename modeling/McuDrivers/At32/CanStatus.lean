import McuDrivers.At32.Can

set_option autoImplicit false

/-! # AT32F4xx: the CAN status bits that a control bit takes along

`TSTS |= ARQn` and `RFx |= RRFM` store what they read, and so write a 1 to every status bit that is set.
`CAN_CancelTransmit` spares another mailbox just when what it reported does not depend on the bits that
are cleared, and the release of a FIFO spares its flags just when none is set. -/

namespace At32

variable {rcW1 rw : Word} {i : Nat}

/-! ## Reading, setting a bit and storing -/

/-- A status bit that was set has a 1 written to it. -/
theorem storeStatus_rcW1 (h : rcW1.getLsbD i = true) (h' : rw.getLsbD i = false) (reg bits : Word) :
    (storeStatus rcW1 rw (reg ||| bits) reg).getLsbD i = false := by
  simp only [storeStatus, BitVec.getLsbD_or, BitVec.getLsbD_and, BitVec.getLsbD_not, h, h']
  cases reg.getLsbD i <;> simp

/-- What is neither a status bit nor stored keeps its value. -/
theorem storeStatus_other (h : rcW1.getLsbD i = false) (h' : rw.getLsbD i = false) (reg v : Word) :
    (storeStatus rcW1 rw v reg).getLsbD i = reg.getLsbD i := by
  simp only [storeStatus, BitVec.getLsbD_or, BitVec.getLsbD_and, BitVec.getLsbD_not, h, h']
  cases hi : reg.getLsbD i with
  | false => simp
  | true => simp [BitVec.lt_of_getLsbD hi]

/-! ## The three mailboxes -/

/-- The bits of mailbox `n`: request completed, transmission OK, empty. -/
def mailboxBits (n : Nat) (rqc tok tsme : Bool) : Word :=
  (if rqc then canTstsRqc0 <<< (8 * n) else 0) ||| (if tok then canTstsTok0 <<< (8 * n) else 0) |||
    (if tsme then canTstsTsme0 <<< n else 0)

def rqcBit (n : Nat) : Nat := 8 * n
def tokBit (n : Nat) : Nat := 8 * n + 1
def tsmeBit (n : Nat) : Nat := 26 + n

theorem mailboxBit_eq : ∀ n : Fin 3,
    canTstsRqc0 <<< (8 * n.val) = BitVec.twoPow 32 (rqcBit n) ∧
      canTstsTok0 <<< (8 * n.val) = BitVec.twoPow 32 (tokBit n) ∧
        canTstsTsme0 <<< n.val = BitVec.twoPow 32 (tsmeBit n) := by
  decide

theorem and_mailboxBits (n : Fin 3) (tsts : Word) :
    tsts &&& mailboxBits n true true true = mailboxBits n (tsts.getLsbD (rqcBit n))
      (tsts.getLsbD (tokBit n)) (tsts.getLsbD (tsmeBit n)) := by
  obtain ⟨hrqc, htok, htsme⟩ := mailboxBit_eq n
  simp only [mailboxBits, hrqc, htok, htsme, if_true, BitVec.and_or_distrib_left, BitVec.and_twoPow]
  rfl

theorem canTransmitStatus_eq (n : Fin 3) (tsts : Word) :
    canTransmitStatus n tsts = canTxStatus (mailboxBits n (tsts.getLsbD (rqcBit n))
      (tsts.getLsbD (tokBit n)) (tsts.getLsbD (tsmeBit n))) := by
  rw [← and_mailboxBits]
  match n with
  | 0 => rfl
  | 1 => rfl
  | 2 => rfl

/-- Without its completion bits a mailbox reports the same only if it was pending, or empty and not
    reported as sent. -/
theorem canTxStatus_cleared : ∀ (n : Fin 3) (rqc tok tsme : Bool),
    canTxStatus (mailboxBits n false false tsme) = canTxStatus (mailboxBits n rqc tok tsme) ↔
      if tsme then ¬ (rqc ∧ tok) else ¬ rqc ∧ ¬ tok := by
  decide

/-! ## Cancelling a request -/

/-- The bits of the register that report on mailboxes. -/
theorem mailboxBit_kinds : ∀ n : Fin 3,
    canTstsRcW1.getLsbD (rqcBit n) = true ∧ canTstsArq.getLsbD (rqcBit n) = false ∧
      canTstsRcW1.getLsbD (tokBit n) = true ∧ canTstsArq.getLsbD (tokBit n) = false ∧
        canTstsRcW1.getLsbD (tsmeBit n) = false ∧ canTstsArq.getLsbD (tsmeBit n) = false := by
  decide

/-- The completion bits of every mailbox go, whichever request is set. -/
theorem setTsts_status (n : Fin 3) (bits : Word) (s : Can) :
    canTransmitStatus n ((setTsts bits).exec s).2.tsts =
      canTxStatus (mailboxBits n false false (s.tsts.getLsbD (tsmeBit n))) := by
  obtain ⟨hrqc, hrqc', htok, htok', htsme, htsme'⟩ := mailboxBit_kinds n
  have hstored : ((setTsts bits).exec s).2.tsts =
      storeStatus canTstsRcW1 canTstsArq (s.tsts ||| bits) s.tsts := rfl
  rw [canTransmitStatus_eq, hstored, storeStatus_rcW1 hrqc hrqc', storeStatus_rcW1 htok htok',
    storeStatus_other htsme htsme']

/-- Mailbox `n` reports the same without its completion bits: it is empty and has not both of them, or
    it is not empty and has neither. -/
def StatusSurvives (n : Nat) (tsts : Word) : Prop :=
  if tsts.getLsbD (tsmeBit n) then ¬ (tsts.getLsbD (rqcBit n) ∧ tsts.getLsbD (tokBit n))
  else ¬ tsts.getLsbD (rqcBit n) ∧ ¬ tsts.getLsbD (tokBit n)

instance (n : Nat) (tsts : Word) : Decidable (StatusSurvives n tsts) :=
  inferInstanceAs (Decidable (ite _ _ _))

theorem setTsts_keeps (n : Fin 3) (bits : Word) (s : Can) :
    canTransmitStatus n ((setTsts bits).exec s).2.tsts = canTransmitStatus n s.tsts ↔
      StatusSurvives n s.tsts := by
  rw [setTsts_status, canTransmitStatus_eq n s.tsts]
  exact canTxStatus_cleared n _ _ _

/-! ## Releasing a FIFO -/

def Can.rf (fifoNumber : Fin 2) (s : Can) : Word :=
  if fifoNumber = canFifo0 then s.rf0 else s.rf1

def canRfFlags : Word := canRfRffu ||| canRfRfov

theorem canFifoRelease_rf (fifoNumber : Fin 2) (s : Can) :
    ((canFifoRelease fifoNumber).exec s).2.rf fifoNumber =
      storeRf (s.rf fifoNumber ||| canRfRrfm) (s.rf fifoNumber) := by
  match fifoNumber with
  | 0 => rfl
  | 1 => rfl

/-- The release takes both flags along. -/
theorem storeRf_flags (reg bits : Word) : storeRf (reg ||| bits) reg &&& canRfFlags = 0 := by
  apply BitVec.eq_of_getLsbD_eq
  intro i hi
  rw [BitVec.getLsbD_and]
  cases hflag : canRfFlags.getLsbD i with
  | false => simp
  | true =>
      have hrrfm : canRfRrfm.getLsbD i = false := by
        have hdisj : canRfFlags &&& canRfRrfm = 0 := by decide
        have hbit := congrArg (·.getLsbD i) hdisj
        simpa [hflag] using hbit
      have hgone : (storeRf (reg ||| bits) reg).getLsbD i = false :=
        storeStatus_rcW1 hflag hrrfm reg bits
      simp [hgone]

/-! ## Calls -/

inductive CanCall where
  | cancelTransmit (mailbox : Nat)
  | receive (fifoNumber : Fin 2) (rx : CanRxMsg)
  | fifoRelease (fifoNumber : Fin 2)

def CanCall.after : CanCall → Can → Can
  | cancelTransmit mailbox, s => ((canCancelTransmit mailbox).exec s).2
  | receive fifoNumber rx, s => ((canReceive fifoNumber rx).exec s).2
  | fifoRelease fifoNumber, s => ((canFifoRelease fifoNumber).exec s).2

/-- The other mailboxes report what they reported, and the FIFO has the flags that it had, before the
    hardware acts on the release. -/
def CanCall.KeepsStatus (s s' : Can) : CanCall → Prop
  | cancelTransmit mailbox => ∀ other : Fin 3, other.val ≠ mailbox →
      canTransmitStatus other s'.tsts = canTransmitStatus other s.tsts
  | receive fifoNumber _ => s'.rf fifoNumber &&& canRfFlags = s.rf fifoNumber &&& canRfFlags
  | fifoRelease fifoNumber => s'.rf fifoNumber &&& canRfFlags = s.rf fifoNumber &&& canRfFlags

/-- When there is nothing to lose. -/
def CanCall.Spares (s : Can) : CanCall → Prop
  | cancelTransmit mailbox =>
      mailbox < 3 → ∀ other : Fin 3, other.val ≠ mailbox → StatusSurvives other s.tsts
  | receive fifoNumber _ => s.rf fifoNumber &&& canRfFlags = 0
  | fifoRelease fifoNumber => s.rf fifoNumber &&& canRfFlags = 0

theorem release_keeps (fifoNumber : Fin 2) (s : Can) :
    ((canFifoRelease fifoNumber).exec s).2.rf fifoNumber &&& canRfFlags =
        s.rf fifoNumber &&& canRfFlags ↔
      s.rf fifoNumber &&& canRfFlags = 0 := by
  rw [canFifoRelease_rf, storeRf_flags, eq_comm]

theorem canCancelTransmit_eq {mailbox : Nat} (h : mailbox < 3) :
    ∃ bits, canCancelTransmit mailbox = setTsts bits := by
  match mailbox, h with
  | 0, _ => exact ⟨_, rfl⟩
  | 1, _ => exact ⟨_, rfl⟩
  | 2, _ => exact ⟨_, rfl⟩

theorem canCancelTransmit_none {mailbox : Nat} (h : ¬ mailbox < 3) :
    canCancelTransmit mailbox = .ret () := by
  match mailbox with
  | 0 | 1 | 2 => omega
  | _ + 3 => rfl

/-- **A call spares the status of the other mailboxes, or the flags of its FIFO, if and only if each of
    those mailboxes would report the same without its completion bits, or no flag was set.** -/
theorem can_status_iff (c : CanCall) (s : Can) : c.KeepsStatus s (c.after s) ↔ c.Spares s := by
  cases c with
  | cancelTransmit mailbox =>
      by_cases h : mailbox < 3
      · obtain ⟨bits, hbits⟩ := canCancelTransmit_eq h
        simp only [CanCall.KeepsStatus, CanCall.after, CanCall.Spares, hbits, setTsts_keeps, h,
          true_imp_iff]
      · have hnone := canCancelTransmit_none h
        simp [CanCall.KeepsStatus, CanCall.after, CanCall.Spares, hnone, h]
  | receive fifoNumber rx =>
      have hafter : (CanCall.receive fifoNumber rx).after s =
          ((canFifoRelease fifoNumber).exec s).2 := by
        simp [CanCall.after, canReceive]
      rw [hafter]
      exact release_keeps fifoNumber s
  | fifoRelease fifoNumber => exact release_keeps fifoNumber s

/-- Mailbox 1 has been sent when the request of mailbox 0 is cancelled. -/
theorem can_status_fails : ¬ ∀ (c : CanCall) (s : Can), c.KeepsStatus s (c.after s) := by
  intro h
  let s : Can := {
    tsts := canTstsRqc1 ||| canTstsTok1 ||| canTstsTsme1 ||| canTstsTsme2
    rf0 := 0
    rf1 := 0
    txMailBox := fun _ => ⟨0, 0, 0, 0⟩
    fifoMailBox := fun _ => ⟨0, 0, 0, 0⟩
    fm := 0
    fm1 := 0
    fs1 := 0
    ffa1 := 0
    fa1 := 0
    filterRegister := fun _ => ⟨0, 0⟩
    disturbed := 0 }
  have hspares := (can_status_iff (.cancelTransmit 0) s).mp (h _ _)
  exact absurd (hspares (by decide) 1 (by decide)) (by decide)

end At32
