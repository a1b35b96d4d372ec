import McuDrivers.At32.Flash
import McuDrivers.Library.Bits
import McuDrivers.Library.Calls
import McuDrivers.Library.Slots

set_option autoImplicit false

/-! # AT32F4xx: the sequencers of an ADC

The regular sequencer has sixteen ranks in `RSQ1` to `RSQ3`, and its length in `RSQ1`. The injected one
has four slots and its length in `JSQ`, and converts its ranks from the last slots. Where a rank goes is
worked out from the length, and a rank that is one more than it goes to the bits of the length itself. -/

namespace At32

open Calls

/-! ## Constants and registers -/

def adcCtrl1ClearMask : Word := 0xFFF0FEFF
def adcCtrl2ClearMsk : Word := 0xFDF1F7FD
def rsq3SqSet : Word := 0x0000001F
def rsq2SqSet : Word := 0x0000001F
def rsq1SqSet : Word := 0x0000001F
def rsq1ClearMsk : Word := 0xFF0FFFFF
def jsqrJsqSet : Word := 0x0000001F
def jsqrJlenSet : Word := 0x00300000
def jsqrJlenRst : Word := 0xFFCFFFFF
def smpt1SmpSet : Word := 0x00000007
def smpt2SmpSet : Word := 0x00000007

def adcChannel9 : BitVec 8 := 0x09

def isAdcChannel (channel : BitVec 8) : Prop := channel ≤ 0x11
def isAdcSampleTime (time : BitVec 8) : Prop := time ≤ 0x07
def isAdcInjectedLength (length : BitVec 8) : Prop := length ≥ 0x1 ∧ length ≤ 0x4
def isAdcInjectedRank (rank : BitVec 8) : Prop := rank ≥ 0x1 ∧ rank ≤ 0x4
def isAdcRegularLength (length : BitVec 8) : Prop := length ≥ 0x1 ∧ length ≤ 0x10
def isAdcRegularRank (rank : BitVec 8) : Prop := rank ≥ 0x1 ∧ rank ≤ 0x10

/-- `ADC_InitType` -/
structure AdcInitType where
  mode : Word
  scanMode : Bool
  continuousMode : Bool
  externalTrig : Word
  dataAlign : Word
  numOfChannel : BitVec 8

structure Adc where
  ctrl1 : Word
  ctrl2 : Word
  smpt1 : Word
  smpt2 : Word
  rsq1 : Word
  rsq2 : Word
  rsq3 : Word
  jsq : Word

/-! ## Functions -/

def adcInit (init : AdcInitType) (s : Adc) : Adc :=
  let s := { s with
    ctrl1 := (s.ctrl1 &&& adcCtrl1ClearMask) |||
      (init.mode ||| ((if init.scanMode then 1 else 0 : Word) <<< 8)) }
  let s := { s with
    ctrl2 := (s.ctrl2 &&& adcCtrl2ClearMsk) |||
      (init.dataAlign ||| init.externalTrig ||| ((if init.continuousMode then 1 else 0 : Word) <<< 1)) }
  let tmpreg2 := init.numOfChannel - 1
  { s with rsq1 := (s.rsq1 &&& rsq1ClearMsk) ||| (tmpreg2.setWidth 32 <<< 20) }

/-- The bits of `set` are cleared, and `v` stored in their place. -/
def adcStore (set v : Word) (pos : Nat) (tmpreg1 : Word) : Word :=
  let tmpreg2 := set <<< pos
  let tmpreg1 := tmpreg1 &&& ~~~tmpreg2
  let tmpreg2 := v <<< pos
  tmpreg1 ||| tmpreg2

/-- The sample time, as both functions for a channel store it first. -/
def adcStoreSampleTime (channel sampleTime : BitVec 8) (s : Adc) : Adc :=
  if channel > adcChannel9 then
    { s with
      smpt1 := adcStore smpt1SmpSet (sampleTime.setWidth 32) (3 * (channel.toNat - 10)) s.smpt1 }
  else
    { s with smpt2 := adcStore smpt2SmpSet (sampleTime.setWidth 32) (3 * channel.toNat) s.smpt2 }

def adcRegularChannelConfig (channel rank sampleTime : BitVec 8) (s : Adc) : Adc :=
  let s := adcStoreSampleTime channel sampleTime s
  if rank < 7 then
    { s with rsq3 := adcStore rsq3SqSet (channel.setWidth 32) (5 * (rank.toNat - 1)) s.rsq3 }
  else if rank < 13 then
    { s with rsq2 := adcStore rsq2SqSet (channel.setWidth 32) (5 * (rank.toNat - 7)) s.rsq2 }
  else
    { s with rsq1 := adcStore rsq1SqSet (channel.setWidth 32) (5 * (rank.toNat - 13)) s.rsq1 }

def adcInjectedChannelConfig (channel rank sampleTime : BitVec 8) (s : Adc) : Adc :=
  let s := adcStoreSampleTime channel sampleTime s
  let tmpreg3 := (s.jsq &&& jsqrJlenSet) >>> 20
  -- from 0 to 3 for a rank of the sequence; nothing is asked of one beyond it
  let slot := ((rank.setWidth 32 + 3) - (tmpreg3 + 1)).setWidth 8
  { s with jsq := adcStore jsqrJsqSet (channel.setWidth 32) (5 * slot.toNat) s.jsq }

def adcInjectedSequencerLengthConfig (length : BitVec 8) (s : Adc) : Adc :=
  let tmpreg1 := s.jsq &&& jsqrJlenRst
  let tmpreg2 := length.setWidth 32 - 1
  { s with jsq := tmpreg1 ||| (tmpreg2 <<< 20) }

/-! ## Calls -/

inductive AdcCall where
  | init (init : AdcInitType)
  | regularChannelConfig (channel rank sampleTime : BitVec 8)
  | injectedSequencerLengthConfig (length : BitVec 8)
  | injectedChannelConfig (channel rank sampleTime : BitVec 8)

namespace AdcCall

def step : AdcCall → Adc → Adc
  | init i => adcInit i
  | regularChannelConfig channel rank sampleTime => adcRegularChannelConfig channel rank sampleTime
  | injectedSequencerLengthConfig length => adcInjectedSequencerLengthConfig length
  | injectedChannelConfig channel rank sampleTime => adcInjectedChannelConfig channel rank sampleTime

/-- What the asserts ask of the arguments that the sequencers depend on. -/
def Accepted : AdcCall → Prop
  | init i => isAdcRegularLength i.numOfChannel
  | regularChannelConfig channel rank sampleTime =>
      isAdcChannel channel ∧ isAdcRegularRank rank ∧ isAdcSampleTime sampleTime
  | injectedSequencerLengthConfig length => isAdcInjectedLength length
  | injectedChannelConfig channel rank sampleTime =>
      isAdcChannel channel ∧ isAdcInjectedRank rank ∧ isAdcSampleTime sampleTime

instance (c : AdcCall) : Decidable c.Accepted :=
  match c with
  | init _ => inferInstanceAs (Decidable (_ ∧ _))
  | regularChannelConfig _ _ _ => inferInstanceAs (Decidable (_ ≤ _ ∧ (_ ∧ _) ∧ _ ≤ _))
  | injectedSequencerLengthConfig _ => inferInstanceAs (Decidable (_ ∧ _))
  | injectedChannelConfig _ _ _ => inferInstanceAs (Decidable (_ ≤ _ ∧ (_ ∧ _) ∧ _ ≤ _))

/-- The regular length that a call sets, -/
def regularLength : AdcCall → Option Nat
  | init i => some i.numOfChannel.toNat
  | _ => none

/-- the injected length, -/
def injectedLength : AdcCall → Option Nat
  | injectedSequencerLengthConfig length => some length.toNat
  | _ => none

/-- the channel for a regular rank, -/
def regular (r : Nat) : AdcCall → Option Nat
  | regularChannelConfig channel rank _ => if rank.toNat = r then some channel.toNat else none
  | _ => none

/-- the channel for an injected rank, which the next length leaves without one, -/
def injected (r : Nat) : AdcCall → Option (Option Nat)
  | injectedChannelConfig channel rank _ => if rank.toNat = r then some (some channel.toNat) else none
  | injectedSequencerLengthConfig _ => some none
  | _ => none

/-- and the sample time of a channel. -/
def sampleTime (c : Nat) : AdcCall → Option Nat
  | regularChannelConfig channel _ time => if channel.toNat = c then some time.toNat else none
  | injectedChannelConfig channel _ time => if channel.toNat = c then some time.toNat else none
  | _ => none

end AdcCall

/-! ## What the registers hold -/

namespace Adc

/-- Both lengths are at the same place, in registers of their own. -/
def lengthField (len : Fin 5) : BitField 32 := ⟨20, len, by omega⟩

def rlen : BitField 32 := lengthField 4
def jlen : BitField 32 := lengthField 2

def regularLength (s : Adc) : Nat := (rlen.get s.rsq1).toNat + 1

def injectedLength (s : Adc) : Nat := (jlen.get s.jsq).toNat + 1

/-- The channel of a regular rank, from 1 on. -/
def regular (r : Nat) (s : Adc) : Nat :=
  if r < 7 then (Slots.get 5 (r - 1) s.rsq3).toNat
  else if r < 13 then (Slots.get 5 (r - 7) s.rsq2).toNat
  else (Slots.get 5 (r - 13) s.rsq1).toNat

/-- The channel in a slot of the injected sequencer, from 1 on. -/
def injectedSlot (slot : Nat) (s : Adc) : Nat := (Slots.get 5 (slot - 1) s.jsq).toNat

def sampleTime (c : Nat) (s : Adc) : Nat :=
  if c > 9 then (Slots.get 3 (c - 10) s.smpt1).toNat else (Slots.get 3 c s.smpt2).toNat

/-- The registers are as the calls have configured them. -/
structure Configured (start : Adc) (calls : List AdcCall) (s : Adc) : Prop where
  regularLength : s.regularLength = last AdcCall.regularLength calls start.regularLength
  injectedLength : s.injectedLength = last AdcCall.injectedLength calls start.injectedLength
  regular : ∀ r, 1 ≤ r → r ≤ 16 → s.regular r = last (AdcCall.regular r) calls (start.regular r)
  injected : ∀ r, 1 ≤ r → r ≤ s.injectedLength → ∀ channel,
    last (AdcCall.injected r) calls none = some channel →
      s.injectedSlot (r + 4 - s.injectedLength) = channel
  sampleTime : ∀ c, c ≤ 17 → s.sampleTime c = last (AdcCall.sampleTime c) calls (start.sampleTime c)

end Adc

/-- Where the injected length is `n`: the call is not for the rank after the last, or its channel has
    that length in its low bits. -/
def AdcCall.Fits (n : Nat) : AdcCall → Prop
  | injectedChannelConfig channel rank _ => rank.toNat = n + 1 → channel.toNat % 4 + 1 = n
  | _ => True

variable {channel rank time length : BitVec 8} {s : Adc} {r c i j : Nat}

/-! ## Stores to slots -/

theorem adcStore_channel (channel : BitVec 8) (i : Nat) (v : Word) :
    adcStore 0x0000001F (channel.setWidth 32) (5 * i) v = Slots.put 5 i (channel.setWidth 32) v := rfl

theorem adcStore_time (time : BitVec 8) (i : Nat) (v : Word) :
    adcStore 0x00000007 (time.setWidth 32) (3 * i) v = Slots.put 3 i (time.setWidth 32) v := rfl

theorem isAdcChannel.lt (h : isAdcChannel channel) : (channel.setWidth 32).toNat < 2 ^ 5 := by
  have hle : channel.toNat ≤ 0x11 := h
  rw [BitVec.toNat_setWidth_of_le (by decide)]
  omega

theorem isAdcSampleTime.lt (h : isAdcSampleTime time) : (time.setWidth 32).toNat < 2 ^ 3 := by
  have hle : time.toNat ≤ 0x07 := h
  rw [BitVec.toNat_setWidth_of_le (by decide)]
  omega

/-- A value of few bits comes back from its slot. -/
theorem toNat_slot {n : Nat} {v : BitVec 8} (hv : (v.setWidth 32).toNat < 2 ^ n) :
    ((v.setWidth 32).setWidth n).toNat = v.toNat := by
  rw [BitVec.toNat_setWidth, Nat.mod_eq_of_lt hv, BitVec.toNat_setWidth_of_le (by decide)]

theorem toNat_get_put {n : Nat} {v : BitVec 8} (hv : (v.setWidth 32).toNat < 2 ^ n)
    (hfits : n * j + n ≤ 32) (w : Word) :
    (Slots.get n j (Slots.put n i (v.setWidth 32) w)).toNat =
      if i = j then v.toNat else (Slots.get n j w).toNat := by
  split
  · next h =>
      subst h
      rw [Slots.get_put_self hfits hv, toNat_slot hv]
  · next h => rw [Slots.get_put_of_ne h hv]

/-- The same for a store that is made in one of several registers. -/
theorem toNat_get_if_put {n : Nat} {v : BitVec 8} {stored same : Prop} [Decidable stored]
    [Decidable same] (hv : (v.setWidth 32).toNat < 2 ^ n) (hfits : n * j + n ≤ 32)
    (hsame : same ↔ stored ∧ i = j) (w : Word) :
    (Slots.get n j (if stored then Slots.put n i (v.setWidth 32) w else w)).toNat =
      if same then v.toNat else (Slots.get n j w).toNat := by
  split
  · next hstored =>
      rw [toNat_get_put hv hfits]
      simp only [hsame, hstored, true_and]
  · next hstored => rw [if_neg fun h => hstored (hsame.mp h).1]

/-! ## The sample times -/

/-- The sample time of the channel is stored, and those of the others are kept. -/
theorem sampleTime_store (hchannel : isAdcChannel channel) (htime : isAdcSampleTime time) (s : Adc)
    (hc : c ≤ 17) : (adcStoreSampleTime channel time s).sampleTime c =
      if channel.toNat = c then time.toNat else s.sampleTime c := by
  have hle : channel.toNat ≤ 17 := hchannel
  have hhigh : channel > adcChannel9 ↔ channel.toNat > 9 := Iff.rfl
  unfold adcStoreSampleTime
  simp only [smpt1SmpSet, smpt2SmpSet, adcStore_time, hhigh]
  by_cases hch : channel.toNat > 9 <;> by_cases hc9 : c > 9
  · have hsame : channel.toNat - 10 = c - 10 ↔ channel.toNat = c := by omega
    simp only [Adc.sampleTime, if_pos hch, if_pos hc9, toNat_get_put htime.lt
      (show 3 * (c - 10) + 3 ≤ 32 by omega), hsame]
  · simp only [Adc.sampleTime, if_pos hch, if_neg hc9, if_neg (show ¬ channel.toNat = c by omega)]
  · simp only [Adc.sampleTime, if_neg hch, if_pos hc9, if_neg (show ¬ channel.toNat = c by omega)]
  · simp only [Adc.sampleTime, if_neg hch, if_neg hc9, toNat_get_put htime.lt
      (show 3 * c + 3 ≤ 32 by omega)]

/-- The sequencers are kept. -/
theorem sequencers_store (channel time : BitVec 8) (s : Adc) :
    (adcStoreSampleTime channel time s).rsq1 = s.rsq1 ∧
      (adcStoreSampleTime channel time s).rsq2 = s.rsq2 ∧
      (adcStoreSampleTime channel time s).rsq3 = s.rsq3 ∧
      (adcStoreSampleTime channel time s).jsq = s.jsq := by
  unfold adcStoreSampleTime
  split <;> exact ⟨rfl, rfl, rfl, rfl⟩

/-! ## The regular sequencer -/

/-- One of the three registers is stored to. -/
theorem rsq_regularChannelConfig (channel rank time : BitVec 8) (s : Adc) :
    (adcRegularChannelConfig channel rank time s).rsq3 = (if rank < 7 then
        Slots.put 5 (rank.toNat - 1) (channel.setWidth 32) s.rsq3 else s.rsq3) ∧
      (adcRegularChannelConfig channel rank time s).rsq2 = (if ¬ rank < 7 ∧ rank < 13 then
        Slots.put 5 (rank.toNat - 7) (channel.setWidth 32) s.rsq2 else s.rsq2) ∧
      (adcRegularChannelConfig channel rank time s).rsq1 = (if ¬ rank < 7 ∧ ¬ rank < 13 then
        Slots.put 5 (rank.toNat - 13) (channel.setWidth 32) s.rsq1 else s.rsq1) := by
  obtain ⟨hrsq1, hrsq2, hrsq3, -⟩ := sequencers_store channel time s
  unfold adcRegularChannelConfig
  simp only [rsq1SqSet, rsq2SqSet, rsq3SqSet, adcStore_channel]
  by_cases h7 : rank < 7
  · simp only [h7, not_true_eq_false, false_and, if_true, if_false, hrsq1, hrsq2, hrsq3, and_self]
  · by_cases h13 : rank < 13 <;>
      simp only [h7, h13, not_true_eq_false, not_false_eq_true, and_false, if_true, if_false,
        hrsq1, hrsq2, hrsq3, and_self]

theorem regular_regularChannelConfig (hchannel : isAdcChannel channel) (hrank : isAdcRegularRank rank)
    (time : BitVec 8) (s : Adc) (hr : 1 ≤ r) (hr' : r ≤ 16) :
    (adcRegularChannelConfig channel rank time s).regular r =
      if rank.toNat = r then channel.toNat else s.regular r := by
  obtain ⟨hrsq3, hrsq2, hrsq1⟩ := rsq_regularChannelConfig channel rank time s
  have hpos : 1 ≤ rank.toNat := hrank.1
  have hle : rank.toNat ≤ 16 := hrank.2
  have hlow : rank < 7 ↔ rank.toNat < 7 := Iff.rfl
  have hmid : rank < 13 ↔ rank.toNat < 13 := Iff.rfl
  unfold Adc.regular
  rw [hrsq3, hrsq2, hrsq1]
  by_cases hr7 : r < 7
  · have hsame : rank.toNat = r ↔ rank < 7 ∧ rank.toNat - 1 = r - 1 := by
      rw [hlow]
      omega
    simp only [if_pos hr7]
    exact toNat_get_if_put hchannel.lt (by omega) hsame s.rsq3
  · by_cases hr13 : r < 13
    · have hsame : rank.toNat = r ↔ (¬ rank < 7 ∧ rank < 13) ∧ rank.toNat - 7 = r - 7 := by
        rw [hlow, hmid]
        omega
      simp only [if_neg hr7, if_pos hr13]
      exact toNat_get_if_put hchannel.lt (by omega) hsame s.rsq2
    · have hsame : rank.toNat = r ↔ (¬ rank < 7 ∧ ¬ rank < 13) ∧ rank.toNat - 13 = r - 13 := by
        rw [hlow, hmid]
        omega
      simp only [if_neg hr7, if_neg hr13]
      exact toNat_get_if_put hchannel.lt (by omega) hsame s.rsq1

/-- The regular length is beside the ranks, and is kept. -/
theorem regularLength_regularChannelConfig (hchannel : isAdcChannel channel)
    (hrank : isAdcRegularRank rank) (time : BitVec 8) (s : Adc) :
    (adcRegularChannelConfig channel rank time s).regularLength = s.regularLength := by
  have hle : rank.toNat ≤ 16 := hrank.2
  have hput := Slots.field_put (f := Adc.rlen) (n := 5) (i := rank.toNat - 13)
    (Or.inr (show 5 * (rank.toNat - 13) + 5 ≤ 20 by omega)) hchannel.lt s.rsq1
  unfold Adc.regularLength
  rw [(rsq_regularChannelConfig channel rank time s).2.2]
  split
  · rw [hput]
  · rfl

/-- The length is a slot of four bits above the ranks. -/
theorem rsq1_init (init : AdcInitType) (s : Adc) :
    (adcInit init s).rsq1 = Slots.put 4 5 ((init.numOfChannel - 1).setWidth 32) s.rsq1 := rfl

theorem isAdcRegularLength.pred (h : isAdcRegularLength length) :
    ((length - 1).setWidth 32).toNat < 2 ^ 4 ∧ (length - 1).toNat + 1 = length.toNat := by
  have hpos : 1 ≤ length.toNat := h.1
  have hle : length.toNat ≤ 16 := h.2
  constructor
  · bv_omega
  · bv_omega

theorem regularLength_init (init : AdcInitType) (h : isAdcRegularLength init.numOfChannel) (s : Adc) :
    (adcInit init s).regularLength = init.numOfChannel.toNat := by
  obtain ⟨hlt, hpred⟩ := h.pred
  unfold Adc.regularLength
  rw [rsq1_init, Slots.field_put_within (f := Adc.rlen) rfl (Nat.le_refl 4) hlt, ← hpred]
  exact congrArg (· + 1) (toNat_slot hlt)

theorem regular_init (init : AdcInitType) (h : isAdcRegularLength init.numOfChannel) (s : Adc)
    (hr : r ≤ 16) : (adcInit init s).regular r = s.regular r := by
  have hbeside := Slots.get_put_of_disjoint (n := 4) (i := 5) (m := 5) (j := r - 13)
    (Or.inl (by omega)) h.pred.1 s.rsq1
  unfold Adc.regular
  rw [rsq1_init, hbeside]
  rfl

/-! ## The injected sequencer -/

theorem jsq_length (length : BitVec 8) (s : Adc) :
    (adcInjectedSequencerLengthConfig length s).jsq = Slots.put 2 10 (length.setWidth 32 - 1) s.jsq :=
  rfl

theorem injectedLength_length (h : isAdcInjectedLength length) (s : Adc) :
    (adcInjectedSequencerLengthConfig length s).injectedLength = length.toNat := by
  have hpos : 1 ≤ length.toNat := h.1
  have hle : length.toNat ≤ 4 := h.2
  have hpred : (length.setWidth 32 - 1).toNat = length.toNat - 1 := by bv_omega
  unfold Adc.injectedLength
  rw [jsq_length, Slots.field_put_within (f := Adc.jlen) rfl (Nat.le_refl 2) (by omega),
    BitVec.toNat_setWidth, hpred]
  change (length.toNat - 1) % 4 + 1 = length.toNat
  omega

theorem injectedLength_pos (s : Adc) : 1 ≤ s.injectedLength ∧ s.injectedLength ≤ 4 := by
  have hlt : (Adc.jlen.get s.jsq).toNat < 4 := (Adc.jlen.get s.jsq).isLt
  unfold Adc.injectedLength
  omega

/-- The length, read from the register that is edited. -/
theorem toNat_jlen (jsq : Word) :
    ((jsq &&& jsqrJlenSet) >>> 20).toNat = (Adc.jlen.get jsq).toNat := by
  have hlt : (Adc.jlen.get jsq).toNat < 4 := (Adc.jlen.get jsq).isLt
  rw [show jsqrJlenSet = Adc.jlen.mask by decide, BitField.and_mask,
    show Adc.jlen.lsb = 20 from rfl, Mask.shiftLeft_ushiftRight_self]
  · exact BitVec.toNat_setWidth_of_le (by decide)
  · rw [BitVec.toNat_setWidth_of_le (by decide)]
    omega

/-- A rank goes to the slot that is as far from the fourth as the rank is from the last. -/
theorem jsq_injectedChannelConfig (channel : BitVec 8) (hrank : isAdcInjectedRank rank)
    (time : BitVec 8) (s : Adc) :
    (adcInjectedChannelConfig channel rank time s).jsq =
      Slots.put 5 (rank.toNat + 3 - s.injectedLength) (channel.setWidth 32) s.jsq := by
  obtain ⟨-, -, -, hjsq⟩ := sequencers_store channel time s
  have hpos : 1 ≤ rank.toNat := hrank.1
  have hle : rank.toNat ≤ 4 := hrank.2
  have hlength := injectedLength_pos s
  have hjlen := toNat_jlen s.jsq
  have hslot : (((rank.setWidth 32 + (3 : Word)) - ((s.jsq &&& jsqrJlenSet) >>> 20 + 1)).setWidth 8).toNat =
      rank.toNat + 3 - s.injectedLength := by
    unfold Adc.injectedLength at hlength ⊢
    generalize (s.jsq &&& jsqrJlenSet) >>> 20 = tmpreg3 at hjlen ⊢
    bv_omega
  unfold adcInjectedChannelConfig
  simp only [jsqrJsqSet, adcStore_channel, hjsq, hslot]

/-- The rank after the last goes to the bits of the length; no other rank does. -/
theorem injectedLength_injectedChannelConfig (hchannel : isAdcChannel channel)
    (hrank : isAdcInjectedRank rank) (time : BitVec 8) (s : Adc) :
    (adcInjectedChannelConfig channel rank time s).injectedLength =
      if rank.toNat = s.injectedLength + 1 then channel.toNat % 4 + 1 else s.injectedLength := by
  have hlength := injectedLength_pos s
  rw [Adc.injectedLength, jsq_injectedChannelConfig channel hrank]
  split
  · next hafter =>
      have hslot : rank.toNat + 3 - s.injectedLength = 4 := by omega
      rw [hslot, Slots.field_put_within (f := Adc.jlen) (n := 5) (i := 4) rfl (by decide) hchannel.lt,
        BitVec.toNat_setWidth, BitVec.toNat_setWidth_of_le (by decide)]
      rfl
  · next hother =>
      have hout : 20 + 2 ≤ 5 * (rank.toNat + 3 - s.injectedLength) ∨
          5 * (rank.toNat + 3 - s.injectedLength) + 5 ≤ 20 := by omega
      rw [Slots.field_put (f := Adc.jlen) hout hchannel.lt]
      rfl

theorem injectedSlot_injectedChannelConfig (hchannel : isAdcChannel channel)
    (hrank : isAdcInjectedRank rank) (time : BitVec 8) (s : Adc) {slot : Nat} (hpos : 1 ≤ slot)
    (hle : slot ≤ 4) : (adcInjectedChannelConfig channel rank time s).injectedSlot slot =
      if rank.toNat + 4 - s.injectedLength = slot then channel.toNat else s.injectedSlot slot := by
  have hlength := injectedLength_pos s
  have hrank' : 1 ≤ rank.toNat := hrank.1
  have hsame : rank.toNat + 3 - s.injectedLength = slot - 1 ↔
      rank.toNat + 4 - s.injectedLength = slot := by omega
  unfold Adc.injectedSlot
  rw [jsq_injectedChannelConfig channel hrank,
    toNat_get_put hchannel.lt (show 5 * (slot - 1) + 5 ≤ 32 by omega)]
  simp only [hsame]

/-! ## One call -/

theorem regularLength_step {c : AdcCall} (hc : c.Accepted) (s : Adc) :
    (c.step s).regularLength = c.regularLength.getD s.regularLength := by
  cases c with
  | init init => exact regularLength_init init hc s
  | regularChannelConfig channel rank time =>
      exact regularLength_regularChannelConfig hc.1 hc.2.1 time s
  | injectedSequencerLengthConfig length => rfl
  | injectedChannelConfig channel rank time =>
      exact congrArg (fun v => (Adc.rlen.get v).toNat + 1) (sequencers_store channel time s).1

theorem regular_step {c : AdcCall} (hc : c.Accepted) (s : Adc) (hr : 1 ≤ r) (hr' : r ≤ 16) :
    (c.step s).regular r = (c.regular r).getD (s.regular r) := by
  cases c with
  | init init => exact regular_init init hc s hr'
  | regularChannelConfig channel rank time =>
      rw [AdcCall.step, regular_regularChannelConfig hc.1 hc.2.1 time s hr hr', AdcCall.regular]
      split <;> rfl
  | injectedSequencerLengthConfig length => rfl
  | injectedChannelConfig channel rank time =>
      obtain ⟨hrsq1, hrsq2, hrsq3, -⟩ := sequencers_store channel time s
      simp only [AdcCall.step, adcInjectedChannelConfig, Adc.regular, hrsq1, hrsq2, hrsq3,
        AdcCall.regular, Option.getD_none]

theorem sampleTime_step {c : AdcCall} (hc : c.Accepted) (s : Adc) {n : Nat} (hn : n ≤ 17) :
    (c.step s).sampleTime n = (c.sampleTime n).getD (s.sampleTime n) := by
  cases c with
  | init init => rfl
  | regularChannelConfig channel rank time =>
      have hkeeps : (adcRegularChannelConfig channel rank time s).sampleTime n =
          (adcStoreSampleTime channel time s).sampleTime n := by
        unfold adcRegularChannelConfig
        simp only
        split_ifs <;> rfl
      rw [AdcCall.step, hkeeps, sampleTime_store hc.1 hc.2.2 s hn, AdcCall.sampleTime]
      split <;> rfl
  | injectedSequencerLengthConfig length => rfl
  | injectedChannelConfig channel rank time =>
      have hkeeps : (adcInjectedChannelConfig channel rank time s).sampleTime n =
          (adcStoreSampleTime channel time s).sampleTime n := rfl
      rw [AdcCall.step, hkeeps, sampleTime_store hc.1 hc.2.2 s hn, AdcCall.sampleTime]
      split <;> rfl

/-- A call leaves `JSQ` alone unless it is about the injected sequencer. -/
theorem jsq_regularChannelConfig (channel rank time : BitVec 8) (s : Adc) :
    (adcRegularChannelConfig channel rank time s).jsq = s.jsq := by
  unfold adcRegularChannelConfig
  simp only
  split_ifs <;> exact (sequencers_store channel time s).2.2.2

/-- The injected length is the last one that was set just if the call fits. -/
theorem injectedLength_step_iff {c : AdcCall} (hc : c.Accepted) (s : Adc) :
    (c.step s).injectedLength = c.injectedLength.getD s.injectedLength ↔ c.Fits s.injectedLength := by
  cases c with
  | init init => exact iff_of_true rfl trivial
  | regularChannelConfig channel rank time =>
      refine iff_of_true ?_ trivial
      exact congrArg (fun v => (Adc.jlen.get v).toNat + 1) (jsq_regularChannelConfig channel rank time s)
  | injectedSequencerLengthConfig length => exact iff_of_true (injectedLength_length hc s) trivial
  | injectedChannelConfig channel rank time =>
      change (adcInjectedChannelConfig channel rank time s).injectedLength = s.injectedLength ↔
        (rank.toNat = s.injectedLength + 1 → channel.toNat % 4 + 1 = s.injectedLength)
      rw [injectedLength_injectedChannelConfig hc.1 hc.2.1 time s]
      split
      · next hafter => exact ⟨fun h _ => h, fun h => h hafter⟩
      · next hother => exact iff_of_true rfl fun hafter => absurd hafter hother

/-- While the length is the one that was set, the ranks stay where they were put. -/
theorem injected_step {c : AdcCall} (hc : c.Accepted) {s : Adc}
    (hlength : (c.step s).injectedLength = c.injectedLength.getD s.injectedLength)
    {past : List AdcCall} (hpast : r ≤ s.injectedLength → ∀ channel,
      last (AdcCall.injected r) past none = some channel →
        s.injectedSlot (r + 4 - s.injectedLength) = channel)
    (hr : 1 ≤ r) (hr' : r ≤ (c.step s).injectedLength) {channel : Nat}
    (hlast : last (AdcCall.injected r) (past ++ [c]) none = some channel) :
    (c.step s).injectedSlot (r + 4 - (c.step s).injectedLength) = channel := by
  rw [last_append_singleton] at hlast
  rw [hlength] at hr' ⊢
  cases c with
  | init init => exact hpast hr' channel hlast
  | regularChannelConfig ch rank time =>
      rw [← hpast hr' channel hlast]
      exact congrArg (fun v => (Slots.get 5 _ v).toNat) (jsq_regularChannelConfig ch rank time s)
  | injectedSequencerLengthConfig length => cases hlast
  | injectedChannelConfig ch rank time =>
      have hbounds := injectedLength_pos s
      simp only [AdcCall.injectedLength, Option.getD_none] at hr' ⊢
      rw [AdcCall.step, injectedSlot_injectedChannelConfig hc.1 hc.2.1 time s (by omega) (by omega)]
      have hsame : rank.toNat + 4 - s.injectedLength = r + 4 - s.injectedLength ↔ rank.toNat = r := by
        omega
      simp only [AdcCall.injected, hsame] at hlast ⊢
      split at hlast
      · next heq =>
          rw [if_pos heq]
          exact Option.some.inj hlast
      · next hne =>
          rw [if_neg hne]
          exact hpast hr' channel hlast

/-! ## Sequences of calls -/

/-- A call keeps what was configured just if it fits the injected length. -/
theorem Adc.Configured.append_iff {start : Adc} {past : List AdcCall} {c : AdcCall}
    (h : Adc.Configured start past s) (hc : c.Accepted) :
    Adc.Configured start (past ++ [c]) (c.step s) ↔
      c.Fits (last AdcCall.injectedLength past start.injectedLength) := by
  rw [← h.injectedLength, ← injectedLength_step_iff hc s]
  constructor
  · intro hconfigured
    rw [hconfigured.injectedLength, last_append_singleton, h.injectedLength]
  · intro hlength
    constructor
    case regularLength => rw [regularLength_step hc, last_append_singleton, h.regularLength]
    case injectedLength => rw [hlength, last_append_singleton, h.injectedLength]
    case regular =>
      intro r hr hr'
      rw [regular_step hc s hr hr', last_append_singleton, h.regular r hr hr']
    case injected =>
      intro r hr hr' channel hlast
      exact injected_step hc hlength (h.injected r hr) hr hr' hlast
    case sampleTime =>
      intro n hn
      rw [sampleTime_step hc s hn, last_append_singleton, h.sampleTime n hn]

/-- **The sequencers are as configured at every moment if and only if no call gives the injected rank
    after the last a channel that does not fit.** -/
theorem adc_sequencers_iff (start : Adc) (calls : List AdcCall) (hcalls : ∀ c ∈ calls, c.Accepted) :
    (∀ past, past <+: calls → Adc.Configured start past (after AdcCall.step past start)) ↔
      ∀ past c, past ++ [c] <+: calls →
        c.Fits (last AdcCall.injectedLength past start.injectedLength) := by
  refine prefixes_iff ?_ fun past c hpre hpast => ?_
  · exact ⟨rfl, rfl, fun _ _ _ => rfl, fun _ _ _ _ hlast => absurd hlast (by simp), fun _ _ => rfl⟩
  · rw [after_append_singleton]
    exact hpast.append_iff (hcalls c (hpre.subset (by simp)))

/-- Two injected ranks, the second of them with a sample time. -/
theorem adc_sequencers_iff_two :
    let start : Adc := ⟨0, 0, 0, 0, 0, 0, 0, 0⟩
    let calls : List AdcCall := [.injectedSequencerLengthConfig 2, .injectedChannelConfig 5 1 0,
      .injectedChannelConfig 3 2 7]
    Adc.Configured start calls (after AdcCall.step calls start) := by
  intro start calls
  have hcalls : ∀ c ∈ calls, c.Accepted := by decide
  refine (adc_sequencers_iff start calls hcalls).mpr ?_ calls (List.prefix_refl calls)
  intro past c hpre
  rcases past with _ | ⟨c₁, _ | ⟨c₂, _ | ⟨c₃, past⟩⟩⟩ <;> simp [calls, List.prefix_cons_iff] at hpre
  · obtain rfl := hpre
    trivial
  · obtain ⟨rfl, rfl⟩ := hpre
    exact fun hafter => absurd hafter (by decide)
  · obtain ⟨rfl, rfl, rfl⟩ := hpre
    exact fun hafter => absurd hafter (by decide)

/-- The second rank of one, for channel 3: the length becomes 4. -/
theorem adc_sequencers_not_configured :
    let start : Adc := ⟨0, 0, 0, 0, 0, 0, 0, 0⟩
    let calls : List AdcCall := [.injectedChannelConfig 3 2 0]
    (∀ c ∈ calls, c.Accepted) ∧ ¬ Adc.Configured start calls (after AdcCall.step calls start) := by
  intro start calls
  exact ⟨by decide, fun h => absurd h.injectedLength (by decide)⟩

end At32
