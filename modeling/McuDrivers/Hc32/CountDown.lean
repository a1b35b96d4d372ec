import McuDrivers.Hc32.Flash
import McuDrivers.Library.BitField
import McuDrivers.Library.Poll

set_option autoImplicit false

/-! # HC32L13x: waits that count down

The functions of `pcnt.c` that have the pulse counter synchronise a register, and `Lptim_Init`. All of
them poll a flag in a loop that counts 1000 down, and take a counter of 0 after the loop for a timeout.
The counter is 0 when the last poll has seen the flag, and wraps around when none has. -/

namespace Hc32

/-- `u16TimeOut` before the loop. -/
def countDownPolls : Nat := 1000

/-! ## The pulse counter -/

/-- A bit of `CMD`, and of `SR2`, where it is set until the hardware has done what it was told. -/
inductive PcntSync where
  | t2c
  | b2t
  | b2c

def PcntSync.pos : PcntSync → Nat
  | t2c => 0
  | b2t => 1
  | b2c => 2

def PcntSync.bit (sync : PcntSync) : BitField 32 := .bit sync.pos (by cases sync <;> decide)

structure Pcnt where
  buf : Word
  cmd : Word
  /-- the number of times that `SR2` was read -/
  reads : Nat

/-- The bit of `SR2` is seen clear. -/
def PcntSync.done (sync : PcntSync) (sr2 : Word) : Bool := sync.bit.get sr2 = 0

section Pcnt

-- what `SR2` reads as, read by read
variable (sr2 : Nat → Word)

def pcntPoll (sync : PcntSync) (s : Pcnt) : Bool × Pcnt :=
  (sync.done (sr2 s.reads), { s with reads := s.reads + 1 })

/-- The command, and the wait until it is done. -/
def pcntSync (sync : PcntSync) (s : Pcnt) : EnResult × Pcnt :=
  let s := { s with cmd := sync.bit.set 1 s.cmd }
  let (u16TimeOut, s) := pollDown 16 (pcntPoll sr2 sync) countDownPolls s
  if u16TimeOut = 0 then (.errorTimeout, s) else (.ok, s)

def pcntSetB2T (value : BitVec 16) (s : Pcnt) : EnResult × Pcnt :=
  pcntSync sr2 .b2t { s with buf := value.setWidth 32 }

def pcntSetB2C (value : BitVec 16) (s : Pcnt) : EnResult × Pcnt :=
  pcntSync sr2 .b2c { s with buf := value.setWidth 32 }

def pcntSetT2C (s : Pcnt) : EnResult × Pcnt := pcntSync sr2 .t2c s

end Pcnt

/-! ## The low-power timer -/

inductive LptimTcksel where
  | pclk
  | xtl
  | rcl

def LptimTcksel.value : LptimTcksel → BitVec 2
  | pclk => 0
  | xtl => 2
  | rcl => 3

inductive LptimGatep where
  | low
  | high

def LptimGatep.value : LptimGatep → BitVec 1
  | low => 0
  | high => 1

inductive LptimGate where
  | low
  | high

def LptimGate.value : LptimGate → BitVec 1
  | low => 0
  | high => 1

inductive LptimTogen where
  | low
  | high

def LptimTogen.value : LptimTogen → BitVec 1
  | low => 0
  | high => 1

inductive LptimCt where
  | timerFun
  | cntFun

def LptimCt.value : LptimCt → BitVec 1
  | timerFun => 0
  | cntFun => 1

inductive LptimMd where
  | mode1
  | mode2

def LptimMd.value : LptimMd → BitVec 1
  | mode1 => 0
  | mode2 => 1

/-- `stc_lptim_cfg_t` -/
structure LptimCfg where
  enTcksel : LptimTcksel
  enGatep : LptimGatep
  enGate : LptimGate
  enTogen : LptimTogen
  enCt : LptimCt
  enMd : LptimMd
  u16Arr : BitVec 16

/-- A field of `CR` that is set. -/
inductive LptimCr where
  | md
  | ct
  | togEn
  | tckSel
  | gate
  | gateP

namespace LptimCr

def lsb : LptimCr → Nat
  | md => 1
  | ct => 2
  | togEn => 3
  | tckSel => 4
  | gate => 8
  | gateP => 9

def len : LptimCr → Nat
  | tckSel => 2
  | _ => 1

def bits (f : LptimCr) : BitField 32 := ⟨f.lsb, f.len, by cases f <;> decide⟩

end LptimCr

structure Lptim where
  /-- `CR` but for `WT_FLAG` -/
  cr : Word
  /-- the number of times that `WT_FLAG` was polled -/
  polls : Nat
  /-- what was stored to `ARR`, in order -/
  arrStores : List (BitVec 16)

section Lptim

-- what `WT_FLAG` reads as, poll by poll
variable (wtFlag : Nat → Bool)

def lptimPoll (s : Lptim) : Bool × Lptim := (wtFlag s.polls, { s with polls := s.polls + 1 })

/-- The settings, one after the other. -/
def lptimSet (init : LptimCfg) (s : Lptim) : Lptim :=
  let s := { s with cr := LptimCr.tckSel.bits.set init.enTcksel.value s.cr }
  let s := { s with cr := LptimCr.gateP.bits.set init.enGatep.value s.cr }
  let s := { s with cr := LptimCr.gate.bits.set init.enGate.value s.cr }
  let s := { s with cr := LptimCr.togEn.bits.set init.enTogen.value s.cr }
  let s := { s with cr := LptimCr.ct.bits.set init.enCt.value s.cr }
  { s with cr := LptimCr.md.bits.set init.enMd.value s.cr }

def lptimInit (init : LptimCfg) (s : Lptim) : EnResult × Lptim :=
  let s := lptimSet init s
  let (u16TimeOut, s) := pollDown 16 (lptimPoll wtFlag) countDownPolls s
  if u16TimeOut = 0 then (.errorTimeout, s)
  else (.ok, { s with arrStores := s.arrStores ++ [init.u16Arr] })

end Lptim

/-! ## What the waits decide -/

inductive PcntCall where
  | setB2T (value : BitVec 16)
  | setB2C (value : BitVec 16)
  | setT2C

namespace PcntCall

def run (sr2 : Nat → Word) : PcntCall → Pcnt → EnResult × Pcnt
  | setB2T value => pcntSetB2T sr2 value
  | setB2C value => pcntSetB2C sr2 value
  | setT2C => pcntSetT2C sr2

/-- The bit that the call waits for. -/
def sync : PcntCall → PcntSync
  | setB2T _ => .b2t
  | setB2C _ => .b2c
  | setT2C => .t2c

/-- One of the polls that the call made has seen the bit clear. -/
def Seen (sr2 : Nat → Word) (c : PcntCall) (s : Pcnt) : Prop :=
  ∃ j, s.reads ≤ j ∧ j < (c.run sr2 s).2.reads ∧ c.sync.done (sr2 j) = true

end PcntCall

/-- One of the polls that the call made has seen `WT_FLAG` set. -/
def LptimSeen (wtFlag : Nat → Bool) (init : LptimCfg) (s : Lptim) : Prop :=
  ∃ j, s.polls ≤ j ∧ j < (lptimInit wtFlag init s).2.polls ∧ wtFlag j = true

/-- `seen` says whether what the wait was for was seen. -/
structure WaitDecides (r : EnResult) (seen : Prop) : Prop where
  timeout : r = .errorTimeout ↔ ¬ seen
  ok : r = .ok ↔ seen

structure LptimDecides (wtFlag : Nat → Bool) (init : LptimCfg) (s : Lptim) : Prop where
  wait : WaitDecides (lptimInit wtFlag init s).1 (LptimSeen wtFlag init s)
  /-- `ARR` is written, -/
  arr : LptimSeen wtFlag init s → (lptimInit wtFlag init s).2.arrStores = s.arrStores ++ [init.u16Arr]
  /-- or left alone. -/
  noArr : ¬ LptimSeen wtFlag init s → (lptimInit wtFlag init s).2.arrStores = s.arrStores

theorem pcntPolls (sr2 : Nat → Word) (sync : PcntSync) :
    PollsNext (pcntPoll sr2 sync) Pcnt.reads sync.done sr2 where
  met _ := rfl
  next _ := rfl

theorem lptimPolls (wtFlag : Nat → Bool) : PollsNext (lptimPoll wtFlag) Lptim.polls id wtFlag where
  met _ := rfl
  next _ := rfl

/-- A call is a command, which reads nothing, and a wait. -/
theorem PcntCall.run_eq (sr2 : Nat → Word) (c : PcntCall) (s : Pcnt) :
    ∃ s₁ : Pcnt, s₁.reads = s.reads ∧
      (c.run sr2 s).2 = (pollDown 16 (pcntPoll sr2 c.sync) countDownPolls s₁).2 ∧
      (c.run sr2 s).1 = if (pollDown 16 (pcntPoll sr2 c.sync) countDownPolls s₁).1 = 0 then
        .errorTimeout else .ok := by
  have hsync (sync : PcntSync) (s : Pcnt) : ∃ s₁ : Pcnt, s₁.reads = s.reads ∧
      (pcntSync sr2 sync s).2 = (pollDown 16 (pcntPoll sr2 sync) countDownPolls s₁).2 ∧
      (pcntSync sr2 sync s).1 = if (pollDown 16 (pcntPoll sr2 sync) countDownPolls s₁).1 = 0 then
        .errorTimeout else .ok := by
    refine ⟨{ s with cmd := sync.bit.set 1 s.cmd }, rfl, ?_⟩
    unfold pcntSync
    simp only
    split <;> exact ⟨rfl, rfl⟩
  cases c with
  | setB2T value => exact hsync .b2t { s with buf := value.setWidth 32 }
  | setB2C value => exact hsync .b2c { s with buf := value.setWidth 32 }
  | setT2C => exact hsync .t2c s

/-- The wait writes nothing to `ARR`. -/
theorem arrStores_pollDown (wtFlag : Nat → Bool) (n : Nat) (s : Lptim) :
    (pollDown 16 (lptimPoll wtFlag) n s).2.arrStores = s.arrStores := by
  induction n generalizing s with
  | zero => rfl
  | succ n ih =>
      rw [pollDown]
      split
      · rfl
      · rw [ih, lptimPoll]

theorem lptimInit_eq (wtFlag : Nat → Bool) (init : LptimCfg) (s : Lptim) :
    (lptimInit wtFlag init s).2.polls =
        (pollDown 16 (lptimPoll wtFlag) countDownPolls (lptimSet init s)).2.polls ∧
      (lptimInit wtFlag init s).1 =
        (if (pollDown 16 (lptimPoll wtFlag) countDownPolls (lptimSet init s)).1 = 0 then
          .errorTimeout else .ok) ∧
      (lptimInit wtFlag init s).2.arrStores =
        (if (pollDown 16 (lptimPoll wtFlag) countDownPolls (lptimSet init s)).1 = 0 then
          s.arrStores else s.arrStores ++ [init.u16Arr]) := by
  have hkeeps := arrStores_pollDown wtFlag countDownPolls (lptimSet init s)
  unfold lptimInit
  simp only
  split
  · exact ⟨rfl, rfl, hkeeps⟩
  · exact ⟨rfl, rfl, congrArg (· ++ [init.u16Arr]) hkeeps⟩

/-- What a wait of 1000 polls tells. -/
theorem countDown_tells_iff {σ α : Type} {poll : σ → Bool × σ} {pos : σ → Nat} {p : α → Bool}
    {answers : Nat → α} (h : PollsNext poll pos p answers) (s : σ) :
    ((pollDown 16 poll countDownPolls s).1 = 0 ↔ ¬ ∃ j, pos s ≤ j ∧
        j < pos (pollDown 16 poll countDownPolls s).2 ∧ p (answers j) = true) ↔
      ∃ j, j < 999 ∧ p (answers (pos s + j)) = true :=
  h.pollDown_tells_iff (n := 999) (by decide) (by decide) s

/-- A result that is taken from a test is right where the test is. -/
theorem waitDecides_iff {P seen : Prop} [Decidable P] {r : EnResult}
    (hr : r = if P then .errorTimeout else .ok) : WaitDecides r seen ↔ (P ↔ ¬ seen) := by
  have htimeout : r = .errorTimeout ↔ P := by
    rw [hr]
    split <;> simp [*]
  have hok : r = .ok ↔ ¬ P := by
    rw [hr]
    split <;> simp [*]
  constructor
  · intro h
    rw [← htimeout]
    exact h.timeout
  · intro h
    refine ⟨htimeout.trans h, hok.trans ?_⟩
    rw [h]
    exact not_not

theorem PcntCall.decides_iff (sr2 : Nat → Word) (c : PcntCall) (s : Pcnt) :
    WaitDecides (c.run sr2 s).1 (c.Seen sr2 s) ↔
      ∃ j, j < 999 ∧ c.sync.done (sr2 (s.reads + j)) = true := by
  obtain ⟨s₁, hreads, hstate, hresult⟩ := c.run_eq sr2 s
  have htells := countDown_tells_iff (pcntPolls sr2 c.sync) s₁
  rw [← hstate, hreads] at htells
  rw [waitDecides_iff hresult]
  exact htells

theorem lptim_decides_iff (wtFlag : Nat → Bool) (init : LptimCfg) (s : Lptim) :
    LptimDecides wtFlag init s ↔ ∃ j, j < 999 ∧ wtFlag (s.polls + j) = true := by
  obtain ⟨hpolls, hresult, harr⟩ := lptimInit_eq wtFlag init s
  have htells := countDown_tells_iff (lptimPolls wtFlag) (lptimSet init s)
  rw [← hpolls] at htells
  refine Iff.trans ?_ htells
  constructor
  · intro h
    exact (waitDecides_iff hresult).mp h.wait
  · intro h
    refine ⟨(waitDecides_iff hresult).mpr h, ?_, ?_⟩
    · intro hseen
      rw [harr, if_neg fun hzero => h.mp hzero hseen]
    · intro hseen
      rw [harr, if_pos (h.mpr hseen)]

/-- **The waits decide correctly if and only if one of the first 999 polls would see what they wait
    for.** -/
theorem count_down_decides_iff (sr2 : Nat → Word) (c : PcntCall) (s : Pcnt) (wtFlag : Nat → Bool)
    (init : LptimCfg) (t : Lptim) :
    (WaitDecides (c.run sr2 s).1 (c.Seen sr2 s) ↔
        ∃ j, j < 999 ∧ c.sync.done (sr2 (s.reads + j)) = true) ∧
      (LptimDecides wtFlag init t ↔ ∃ j, j < 999 ∧ wtFlag (t.polls + j) = true) :=
  ⟨c.decides_iff sr2 s, lptim_decides_iff wtFlag init t⟩

/-- `Pcnt_SetT2C`, where the bit is never seen clear: the counter wraps around, and is not 0. -/
theorem count_down_not_decides :
    ¬ WaitDecides (PcntCall.setT2C.run (fun _ => 1) ⟨0, 0, 0⟩).1
      (PcntCall.setT2C.Seen (fun _ => 1) ⟨0, 0, 0⟩) := by
  intro h
  obtain ⟨j, -, hdone⟩ := (PcntCall.decides_iff (fun _ => 1) .setT2C ⟨0, 0, 0⟩).mp h
  exact absurd hdone (by decide)

end Hc32
