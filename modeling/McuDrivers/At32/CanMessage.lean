import McuDrivers.At32.Can
import McuDrivers.Library.BitField
import McuDrivers.Library.Bits

set_option autoImplicit false

/-! # AT32F4xx: a CAN message from the sender to the receiver

What `CAN_Transmit` leaves in a mailbox, read field by field, and what `CAN_Receive` makes of the same
registers. Nothing of the previous message shows: `TMI` keeps no bit but `TXRQ`, and of `TDT` only the
`DLC` field goes to the receiver. -/

namespace At32

/-! ## The fields of `TMI` and `RFI` -/

namespace CanTmi

def stdId : BitField 32 := ⟨21, 11, by decide⟩
def extId : BitField 32 := ⟨3, 29, by decide⟩
def idt : BitField 32 := .bit 2 (by decide)
def rtr : BitField 32 := .bit 1 (by decide)

end CanTmi

/-- A message whose parameters the asserts accept. -/
structure CanTxMsg.Accepted (m : CanTxMsg) : Prop where
  idt : m.idt = canIdStandard ∨ m.idt = canIdExtended
  rtr : m.rtr = canRtrData ∨ m.rtr = canRtrRemote
  dlc : m.dlc ≤ 8
  stdId : m.idt = canIdStandard → m.stdId ≤ 0x7FF
  extId : m.idt = canIdExtended → m.extId ≤ 0x1FFFFFFF

/-- What `CAN_Transmit` leaves in a mailbox that held `b`. -/
def CanTxMsg.encode (m : CanTxMsg) (b : CanTxMailBox) : CanTxMailBox where
  tmi := ((b.tmi &&& tmidxrTxrq) ||| m.idBits) ||| tmidxrTxrq
  tdt := (b.tdt &&& 0xFFFFFFF0) ||| (m.dlc &&& 0x0F).setWidth 32
  tdl := m.tdl
  tdh := m.tdh

variable {m : CanTxMsg} {b : CanTxMailBox} {f : BitField 32}

/-- Outside of `TXRQ` there is only the identifier. -/
theorem encode_get (hf : f.get tmidxrTxrq = 0) : f.get (m.encode b).tmi = f.get m.idBits := by
  simp [CanTxMsg.encode, BitField.get_or, BitField.get_and, hf]

theorem rtr_get (hm : m.Accepted) (hf : f.get (canRtrRemote.setWidth 32) = 0) :
    f.get (m.rtr.setWidth 32) = 0 := by
  rcases hm.rtr with h | h
  · rw [h]
    exact BitField.get_eq_zero (BitVec.zero_and)
  · rw [h, hf]

/-! ## Standard identifiers -/

theorem standard_stdId (hm : m.Accepted) (h : m.idt = canIdStandard) :
    CanTmi.stdId.get (m.encode b).tmi = m.stdId.setWidth 11 := by
  have hshift : CanTmi.stdId.get (m.stdId <<< 21) = m.stdId.setWidth 11 :=
    BitField.get_shiftLeft CanTmi.stdId m.stdId
  rw [encode_get (by decide), CanTxMsg.idBits, if_pos h, BitField.get_or, hshift,
    rtr_get hm (by decide)]
  exact BitVec.or_zero

theorem standard_idt (hm : m.Accepted) (h : m.idt = canIdStandard) :
    CanTmi.idt.get (m.encode b).tmi = 0 := by
  rw [encode_get (by decide), CanTxMsg.idBits, if_pos h, BitField.get_or,
    BitField.get_shiftLeft_of_le (by decide), rtr_get hm (by decide)]
  exact BitVec.or_zero

/-! ## Extended identifiers -/

theorem extended_extId (hm : m.Accepted) (h : m.idt = canIdExtended) :
    CanTmi.extId.get (m.encode b).tmi = m.extId.setWidth 29 := by
  have hnot : m.idt ≠ canIdStandard := by rw [h]; decide
  have hshift : CanTmi.extId.get (m.extId <<< 3) = m.extId.setWidth 29 :=
    BitField.get_shiftLeft CanTmi.extId m.extId
  have hidt : CanTmi.extId.get (m.idt.setWidth 32) = 0 := by rw [h]; decide
  rw [encode_get (by decide), CanTxMsg.idBits, if_neg hnot, BitField.get_or, BitField.get_or, hshift,
    hidt, rtr_get hm (by decide)]
  exact BitVec.or_zero.trans BitVec.or_zero

theorem extended_idt (hm : m.Accepted) (h : m.idt = canIdExtended) :
    CanTmi.idt.get (m.encode b).tmi = 1 := by
  have hnot : m.idt ≠ canIdStandard := by rw [h]; decide
  have hidt : CanTmi.idt.get (m.idt.setWidth 32) = 1 := by rw [h]; decide
  rw [encode_get (by decide), CanTxMsg.idBits, if_neg hnot, BitField.get_or, BitField.get_or,
    BitField.get_shiftLeft_of_le (by decide), hidt, rtr_get hm (by decide)]
  decide

/-! ## Remote frames -/

theorem encode_rtr (hm : m.Accepted) :
    CanTmi.rtr.get (m.encode b).tmi = CanTmi.rtr.get (m.rtr.setWidth 32) := by
  rw [encode_get (by decide), CanTxMsg.idBits]
  split
  · rw [BitField.get_or, BitField.get_shiftLeft_of_le (by decide)]
    exact BitVec.zero_or
  · rename_i hnot
    have hidt : CanTmi.rtr.get (m.idt.setWidth 32) = 0 := by
      rw [hm.idt.resolve_left hnot]
      decide
    rw [BitField.get_or, BitField.get_or, BitField.get_shiftLeft_of_le (by decide), hidt]
    exact BitVec.zero_or

/-! ## Data bytes -/

theorem byteOf_getLsbD (v : Word) (k : Nat) {i : Nat} (hi : i < 8) :
    (byteOf v k).getLsbD i = v.getLsbD (8 * k + i) := by
  have hmask : (0xFF : Word) = (BitVec.allOnes 8).setWidth 32 := by decide
  have hi' : i < 32 := by omega
  simp only [byteOf, hmask, BitVec.getLsbD_setWidth, BitVec.getLsbD_and, BitVec.getLsbD_allOnes,
    BitVec.getLsbD_ushiftRight, hi, hi', decide_true, Bool.true_and]

/-- Byte `k` of a word that is zero but for byte `j`. -/
theorem shifted_getLsbD (v : BitVec 8) {j k i : Nat} (hk : k < 4) (hi : i < 8) :
    (v.setWidth 32 <<< (8 * j)).getLsbD (8 * k + i) = (decide (k = j) && v.getLsbD i) := by
  have hlt : 8 * k + i < 32 := by omega
  rw [BitVec.getLsbD_shiftLeft, BitVec.getLsbD_setWidth]
  rcases Nat.lt_trichotomy k j with h | rfl | h
  · have hbelow : 8 * k + i < 8 * j := by omega
    have hne : k ≠ j := by omega
    simp only [hbelow, hne, decide_true, decide_false, Bool.not_true, Bool.and_false, Bool.false_and]
  · have hnot : ¬ 8 * k + i < 8 * k := by omega
    have hi' : i < 32 := by omega
    simp only [hlt, hnot, hi', Nat.add_sub_cancel_left, decide_true, decide_false, Bool.not_false,
      Bool.true_and]
  · have hne : k ≠ j := by omega
    have habove : v.getLsbD (8 * k + i - 8 * j) = false := BitVec.getLsbD_of_ge v _ (by omega)
    simp only [habove, hne, decide_false, Bool.and_false, Bool.false_and]

theorem byteOf_wordOfBytes (bytes : Fin 4 → BitVec 8) (k : Fin 4) :
    byteOf (wordOfBytes (bytes 0) (bytes 1) (bytes 2) (bytes 3)) k = bytes k := by
  have hword : wordOfBytes (bytes 0) (bytes 1) (bytes 2) (bytes 3) =
      (bytes 3).setWidth 32 <<< (8 * 3) ||| (bytes 2).setWidth 32 <<< (8 * 2) |||
        (bytes 1).setWidth 32 <<< (8 * 1) ||| (bytes 0).setWidth 32 <<< (8 * 0) := by
    simp [wordOfBytes]
  apply BitVec.eq_of_getLsbD_eq
  intro i hi
  rw [byteOf_getLsbD _ _ hi, hword]
  simp only [BitVec.getLsbD_or, shifted_getLsbD _ k.isLt hi]
  match k with
  | 0 | 1 | 2 | 3 => simp

/-! ## Reception -/

/-- The registers of a receive mailbox to which `b` was copied: of `TDT` the `DLC` field. -/
structure CopiedTo (b : CanTxMailBox) (r : CanFifoMailBox) : Prop where
  rfi : r.rfi = b.tmi
  rdt : r.rdt &&& 0x0F = b.tdt &&& 0x0F
  rdl : r.rdl = b.tdl
  rdh : r.rdh = b.tdh

/-- What was received is what was sent. -/
structure CanRxMsg.Carries (rx : CanRxMsg) (m : CanTxMsg) : Prop where
  idt : rx.idt = m.idt
  stdId : m.idt = canIdStandard → rx.stdId = m.stdId
  extId : m.idt = canIdExtended → rx.extId = m.extId
  rtr : rx.rtr = m.rtr
  dlc : rx.dlc = m.dlc
  data : rx.data = m.data

variable {r : CanFifoMailBox} {rx : CanRxMsg}

theorem message_idt (h : CopiedTo (m.encode b) r) (hm : m.Accepted) (rx : CanRxMsg) :
    (r.message rx).idt = m.idt := by
  have hplace : (0x04 : Word) &&& r.rfi = (CanTmi.idt.get (m.encode b).tmi).setWidth 32 <<< 2 := by
    rw [h.rfi, BitVec.and_comm]
    exact BitField.and_mask CanTmi.idt _
  show ((0x04 : Word) &&& r.rfi).setWidth 8 = m.idt
  rw [hplace]
  rcases hm.idt with hidt | hidt
  · rw [standard_idt hm hidt, hidt]
    rfl
  · rw [extended_idt hm hidt, hidt]
    rfl

theorem message_rtr (h : CopiedTo (m.encode b) r) (hm : m.Accepted) : (r.message rx).rtr = m.rtr := by
  have hplace : (0x02 : Word) &&& r.rfi = (CanTmi.rtr.get (m.encode b).tmi).setWidth 32 <<< 1 := by
    rw [h.rfi, BitVec.and_comm]
    exact BitField.and_mask CanTmi.rtr _
  show ((0x02 : Word) &&& r.rfi).setWidth 8 = m.rtr
  rw [hplace, encode_rtr hm]
  rcases hm.rtr with hrtr | hrtr
  · rw [hrtr]
    decide
  · rw [hrtr]
    decide

/-- An identifier that fits the field comes back from it. -/
theorem setWidth_of_le {n : Nat} {v bound : Word} (h : v ≤ bound) (hn : bound.toNat < 2 ^ n) :
    (v.setWidth n).setWidth 32 = v := by
  have hlt : v.toNat < 2 ^ n := Nat.lt_of_le_of_lt h hn
  apply BitVec.eq_of_toNat_eq
  rw [BitVec.toNat_setWidth, BitVec.toNat_setWidth, Nat.mod_eq_of_lt hlt, Nat.mod_eq_of_lt v.isLt]

theorem message_stdId (h : CopiedTo (m.encode b) r) (hm : m.Accepted)
    (hidt : m.idt = canIdStandard) : (r.message rx).stdId = m.stdId := by
  have hstd : ((0x04 : Word) &&& r.rfi).setWidth 8 = canIdStandard := (message_idt h hm rx).trans hidt
  have hfield : (0x000007FF : Word) &&& (r.rfi >>> 21) =
      (CanTmi.stdId.get (m.encode b).tmi).setWidth 32 := by
    rw [h.rfi, BitVec.and_comm]
    exact BitField.shiftRight_and CanTmi.stdId _
  simp only [CanFifoMailBox.message, hstd, if_true]
  rw [hfield, standard_stdId hm hidt]
  exact setWidth_of_le (hm.stdId hidt) (by decide)

theorem message_extId (h : CopiedTo (m.encode b) r) (hm : m.Accepted)
    (hidt : m.idt = canIdExtended) : (r.message rx).extId = m.extId := by
  have hext : ((0x04 : Word) &&& r.rfi).setWidth 8 = canIdExtended := (message_idt h hm rx).trans hidt
  have hnot : ¬ canIdExtended = canIdStandard := by decide
  have hfield : (0x1FFFFFFF : Word) &&& (r.rfi >>> 3) =
      (CanTmi.extId.get (m.encode b).tmi).setWidth 32 := by
    rw [h.rfi, BitVec.and_comm]
    exact BitField.shiftRight_and CanTmi.extId _
  simp only [CanFifoMailBox.message, hext, hnot, if_false]
  rw [hfield, extended_extId hm hidt]
  exact setWidth_of_le (hm.extId hidt) (by decide)

theorem dlc_kept : ∀ dlc : BitVec 8, dlc ≤ 8 →
    ((dlc &&& 0x0F).setWidth 32 &&& (0x0F : Word)).setWidth 8 = dlc := by
  decide

theorem message_dlc (h : CopiedTo (m.encode b) r) (hm : m.Accepted) : (r.message rx).dlc = m.dlc := by
  show ((0x0F : Word) &&& r.rdt).setWidth 8 = m.dlc
  have hold : b.tdt &&& 0xFFFFFFF0 &&& 0x0F = 0 := Mask.and_and_of_disjoint b.tdt (by decide)
  rw [BitVec.and_comm, h.rdt, CanTxMsg.encode, BitVec.and_or_distrib_right, hold]
  rw [BitVec.ofNat_eq_ofNat, BitVec.zero_or]
  exact dlc_kept m.dlc hm.dlc

theorem message_data (h : CopiedTo (m.encode b) r) : (r.message rx).data = m.data := by
  have hlow := byteOf_wordOfBytes fun k => m.data ⟨k, by omega⟩
  have hhigh := byteOf_wordOfBytes fun k => m.data ⟨k + 4, by omega⟩
  funext i
  show (if i.val < 4 then byteOf r.rdl i.val else byteOf r.rdh (i.val - 4)) = m.data i
  rw [h.rdl, h.rdh]
  split
  · rename_i hi
    exact hlow ⟨i.val, hi⟩
  · rename_i hi
    have hback : i.val - 4 + 4 = i.val := by omega
    have hbyte := hhigh ⟨i.val - 4, by omega⟩
    simp only [hback] at hbyte
    exact hbyte

theorem message_carries (h : CopiedTo (m.encode b) r) (hm : m.Accepted) (rx : CanRxMsg) :
    (r.message rx).Carries m where
  idt := message_idt h hm rx
  stdId := message_stdId h hm
  extId := message_extId h hm
  rtr := message_rtr h hm
  dlc := message_dlc h hm
  data := message_data h

/-! ## Transmission -/

/-- Mailbox `n` is empty. -/
def Can.Empties (n : Fin 3) (s : Can) : Prop :=
  s.tsts &&& (canTstsTsme0 <<< n.val) = canTstsTsme0 <<< n.val

/-- It is the first of those that are. -/
structure Can.FirstEmpty (n : Fin 3) (s : Can) : Prop where
  empties : s.Empties n
  first : ∀ j < n, ¬ s.Empties j

theorem Can.exists_firstEmpty {s : Can} (h : ∃ n, s.Empties n) : ∃ n, s.FirstEmpty n := by
  by_cases h0 : s.Empties 0
  · exact ⟨0, h0, fun j hj => by omega⟩
  by_cases h1 : s.Empties 1
  · refine ⟨1, h1, fun j hj => ?_⟩
    have hj0 : j = 0 := by omega
    rwa [hj0]
  · obtain ⟨n, hn⟩ := h
    match n, hn with
    | 0, hn => exact absurd hn h0
    | 1, hn => exact absurd hn h1
    | 2, hn =>
        refine ⟨2, hn, fun j hj => ?_⟩
        match j, hj with
        | 0, _ => exact h0
        | 1, _ => exact h1

theorem canEmptyMailBox_exec {s : Can} {n : Fin 3} (h : s.FirstEmpty n) :
    canEmptyMailBox.exec s = (some n, s) := by
  have hread : ∀ s : Can, readTsts.exec s = (s.tsts, s) := fun _ => rfl
  match n, h with
  | 0, h =>
      have h0 : s.tsts &&& canTstsTsme0 = canTstsTsme0 := h.empties
      simp only [canEmptyMailBox, Prog.exec_bind, hread, if_pos h0]
      rfl
  | 1, h =>
      have h0 : ¬ s.tsts &&& canTstsTsme0 = canTstsTsme0 := h.first 0 (by decide)
      have h1 : s.tsts &&& canTstsTsme1 = canTstsTsme1 := h.empties
      simp only [canEmptyMailBox, Prog.exec_bind, hread, if_neg h0, if_pos h1]
      rfl
  | 2, h =>
      have h0 : ¬ s.tsts &&& canTstsTsme0 = canTstsTsme0 := h.first 0 (by decide)
      have h1 : ¬ s.tsts &&& canTstsTsme1 = canTstsTsme1 := h.first 1 (by decide)
      have h2 : s.tsts &&& canTstsTsme2 = canTstsTsme2 := h.empties
      simp only [canEmptyMailBox, Prog.exec_bind, hread, if_neg h0, if_neg h1, if_pos h2]
      rfl

theorem canFillMailBox_exec (n : Fin 3) (m : CanTxMsg) (s : Can) :
    (canFillMailBox n m).exec s =
      ((), { s with txMailBox := Function.update s.txMailBox n (m.encode (s.txMailBox n)) }) := by
  simp [canFillMailBox, editMailBox, CanTxMsg.encode, Function.update_self, Function.update_idem]

/-- **A message is put in the first empty mailbox, nothing else is written, and whoever receives a copy
    of the mailbox receives the message.** -/
theorem can_round_trip (m : CanTxMsg) (hm : m.Accepted) (s : Can) (h : ∃ n, s.Empties n) :
    ∃ n b, s.FirstEmpty n ∧
      (canTransmit m).exec s =
        (n.val, { s with txMailBox := Function.update s.txMailBox n b }) ∧
      ∀ (receiver : Can) (fifoNumber : Fin 2) (rx : CanRxMsg),
        CopiedTo b (receiver.fifoMailBox fifoNumber) →
          ((canReceive fifoNumber rx).exec receiver).1.Carries m := by
  obtain ⟨n, hn⟩ := Can.exists_firstEmpty h
  refine ⟨n, m.encode (s.txMailBox n), hn, ?_, fun receiver fifoNumber rx hcopied => ?_⟩
  · simp only [canTransmit, Prog.exec_bind, canEmptyMailBox_exec hn, canFillMailBox_exec]
    rfl
  · have hreceived : ((canReceive fifoNumber rx).exec receiver).1 =
        (receiver.fifoMailBox fifoNumber).message rx := by
      simp [canReceive]
    rw [hreceived]
    exact message_carries hcopied hm rx

/-- An extended remote frame, with mailboxes 1 and 2 empty. -/
theorem can_round_trip_extended :
    let m : CanTxMsg := ⟨0, 0x1ABCDEF5, canIdExtended, canRtrRemote, 3, fun i => .ofNat 8 (i.val + 1)⟩
    let s : Can := {
      tsts := canTstsTsme1 ||| canTstsTsme2
      rf0 := 0
      rf1 := 0
      txMailBox := fun _ => ⟨0xFFFFFFFE, 0xFFFFFFFF, 0, 0⟩
      fifoMailBox := fun _ => ⟨0, 0, 0, 0⟩
      fm := 0
      fm1 := 0
      fs1 := 0
      ffa1 := 0
      fa1 := 0
      filterRegister := fun _ => ⟨0, 0⟩
      disturbed := 0 }
    ∃ n b, s.FirstEmpty n ∧
      (canTransmit m).exec s =
        (n.val, { s with txMailBox := Function.update s.txMailBox n b }) ∧
      ∀ (receiver : Can) (fifoNumber : Fin 2) (rx : CanRxMsg),
        CopiedTo b (receiver.fifoMailBox fifoNumber) →
          ((canReceive fifoNumber rx).exec receiver).1.Carries m := by
  refine can_round_trip _ ?_ _ ⟨1, ?_⟩
  · constructor <;> decide
  · unfold Can.Empties
    decide

end At32
