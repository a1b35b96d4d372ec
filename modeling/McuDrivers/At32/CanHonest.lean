import McuDrivers.At32.CanMessage
import McuDrivers.At32.CanStatus

set_option autoImplicit false

/-! # AT32F4xx: what `CAN_TransmitStatus` says of a mailbox

The function makes a result of the bits of the mailbox, and of a mailbox that does not exist it makes
`CAN_TxStatus_Failed`, the number 0, which is then taken for bits that are all clear. -/

namespace At32

variable {mailbox : Nat} {tsts : Word} {m : CanTxMsg} {s : Can}

/-! ## The bits of a mailbox -/

/-- The mailbox exists, and its request is on the way. -/
def MailboxClear (mailbox : Nat) (tsts : Word) : Prop :=
  mailbox < 3 ∧ tsts.getLsbD (rqcBit mailbox) = false ∧ tsts.getLsbD (tokBit mailbox) = false ∧
    tsts.getLsbD (tsmeBit mailbox) = false

/-- The mailbox exists, and its message has been sent. -/
def MailboxSent (mailbox : Nat) (tsts : Word) : Prop :=
  mailbox < 3 ∧ tsts.getLsbD (rqcBit mailbox) = true ∧ tsts.getLsbD (tokBit mailbox) = true ∧
    tsts.getLsbD (tsmeBit mailbox) = true

/-- What is reported is what the bits of the mailbox say. -/
structure HonestStatus (mailbox : Nat) (tsts : Word) : Prop where
  pending : canTransmitStatus mailbox tsts = canTxStatusPending → MailboxClear mailbox tsts
  ok : canTransmitStatus mailbox tsts = canTxStatusOk ↔ MailboxSent mailbox tsts
  failed : ¬ MailboxClear mailbox tsts → ¬ MailboxSent mailbox tsts →
    canTransmitStatus mailbox tsts = canTxStatusFailed

/-- The patterns of the three mailboxes are not mixed up. -/
theorem canTxStatus_bits : ∀ (n : Fin 3) (rqc tok tsme : Bool),
    canTxStatus (mailboxBits n rqc tok tsme) =
      if rqc = false ∧ tok = false ∧ tsme = false then canTxStatusPending
      else if rqc = true ∧ tok = true ∧ tsme = true then canTxStatusOk
      else canTxStatusFailed := by
  decide

/-- A mailbox that does not exist is always pending. -/
theorem canTransmitStatus_none (h : ¬ mailbox < 3) (tsts : Word) :
    canTransmitStatus mailbox tsts = canTxStatusPending := by
  match mailbox with
  | 0 | 1 | 2 => omega
  | _ + 3 => rfl

theorem honestStatus_of_lt (h : mailbox < 3) (tsts : Word) : HonestStatus mailbox tsts := by
  have hstatus := canTransmitStatus_eq ⟨mailbox, h⟩ tsts
  rw [canTxStatus_bits] at hstatus
  simp only at hstatus
  constructor <;> rw [hstatus]
  · intro hpending
    split at hpending
    · next hclear => exact ⟨h, hclear⟩
    · split at hpending <;> cases hpending
  · constructor
    · intro hok
      split at hok
      · cases hok
      · split at hok
        · next hsent => exact ⟨h, hsent⟩
        · cases hok
    · rintro ⟨-, hsent⟩
      rw [if_neg (by simp [hsent.1]), if_pos hsent]
  · intro hclear hsent
    rw [if_neg fun hcontra => hclear ⟨h, hcontra⟩, if_neg fun hcontra => hsent ⟨h, hcontra⟩]

theorem honestStatus_iff (mailbox : Nat) (tsts : Word) : HonestStatus mailbox tsts ↔ mailbox < 3 := by
  constructor
  · intro h
    by_contra hnone
    exact hnone (h.pending (canTransmitStatus_none hnone tsts)).1
  · intro h
    exact honestStatus_of_lt h tsts

/-! ## Waiting for a transmission -/

/-- The transmission of what is in the mailbox is requested. -/
def Can.Requested (s : Can) (mailbox : Nat) : Prop :=
  ∃ n : Fin 3, mailbox = n.val ∧ (s.txMailBox n).tmi &&& tmidxrTxrq = tmidxrTxrq

/-- Whoever polls the mailbox that `CAN_Transmit` returned, and is told that it is pending, waits for a
    request that was made. -/
def HonestWait (m : CanTxMsg) (s : Can) : Prop :=
  let sent := (canTransmit m).exec s
  ∀ tsts, canTransmitStatus sent.1 tsts = canTxStatusPending → sent.2.Requested sent.1

theorem canTransmit_full (h : ¬ ∃ n, s.Empties n) (m : CanTxMsg) :
    (canTransmit m).exec s = (canTxStatusNoMailBox, s) := by
  have hread : ∀ s : Can, readTsts.exec s = (s.tsts, s) := fun _ => rfl
  have h0 : ¬ s.tsts &&& canTstsTsme0 = canTstsTsme0 := fun h0 => h ⟨0, h0⟩
  have h1 : ¬ s.tsts &&& canTstsTsme1 = canTstsTsme1 := fun h1 => h ⟨1, h1⟩
  have h2 : ¬ s.tsts &&& canTstsTsme2 = canTstsTsme2 := fun h2 => h ⟨2, h2⟩
  have hnone : canEmptyMailBox.exec s = (none, s) := by
    simp only [canEmptyMailBox, Prog.exec_bind, hread, if_neg h0, if_neg h1, if_neg h2]
    rfl
  simp only [canTransmit, Prog.exec_bind, hnone]
  rfl

theorem canTransmit_requested (h : ∃ n, s.Empties n) (m : CanTxMsg) :
    ((canTransmit m).exec s).2.Requested ((canTransmit m).exec s).1 := by
  obtain ⟨n, hn⟩ := Can.exists_firstEmpty h
  have hexec : (canTransmit m).exec s = (n.val,
      { s with txMailBox := Function.update s.txMailBox n (m.encode (s.txMailBox n)) }) := by
    simp only [canTransmit, Prog.exec_bind, canEmptyMailBox_exec hn, canFillMailBox_exec]
    rfl
  rw [hexec]
  refine ⟨n, rfl, ?_⟩
  simp only [Function.update_self]
  exact Mask.or_and_of_subset _ (by decide)

theorem honestWait_iff (m : CanTxMsg) (s : Can) : HonestWait m s ↔ ∃ n, s.Empties n := by
  constructor
  · intro hwait
    by_contra hfull
    unfold HonestWait at hwait
    rw [canTransmit_full hfull] at hwait
    have hnone : ¬ canTxStatusNoMailBox < 3 := by decide
    obtain ⟨n, hn, -⟩ := hwait 0 (canTransmitStatus_none hnone 0)
    have hlt := n.isLt
    rw [← hn] at hlt
    exact hnone hlt
  · intro hfree tsts _
    exact canTransmit_requested hfree m

/-- **The status of a mailbox is honest if and only if the mailbox exists, and a wait for a transmission
    if and only if a mailbox was free.** -/
theorem can_honest_iff (transmitMailbox : BitVec 8) (tsts : Word) (m : CanTxMsg) (s : Can) :
    (HonestStatus transmitMailbox.toNat tsts ↔ transmitMailbox.toNat < 3) ∧
      (HonestWait m s ↔ ∃ n, s.Empties n) :=
  ⟨honestStatus_iff transmitMailbox.toNat tsts, honestWait_iff m s⟩

/-- After `CAN_TxStatus_NoMailBox` the status is `CAN_TxStatus_Pending`, whatever `TSTS` is. -/
theorem can_not_honest :
    ¬ ∀ (transmitMailbox : BitVec 8) (tsts : Word), HonestStatus transmitMailbox.toNat tsts := by
  intro h
  have hlt := (honestStatus_iff _ 0).mp (h (.ofNat 8 canTxStatusNoMailBox) 0)
  exact absurd hlt (by decide)

end At32
