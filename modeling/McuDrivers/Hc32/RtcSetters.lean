import McuDrivers.Hc32.Rtc

set_option autoImplicit false

/-! # HC32L13x: setters of the RTC

A setter is all-or-nothing if it returns `Ok` exactly when it has written all that it was asked for, and
has left every register as it was when it returns something else; and `Rtc_SetAlarmTime` is meant to
accept the alarms that the clock can reach. Validation and stores are interleaved in the three setters,
in a different order in each: for each it is worked out for which registers and arguments it keeps the
rule.

What the hours of the 12-hour mode look like is not in the source: `shows12` says which values of
`HOUR` the clock shows in it. -/

namespace Hc32

variable {s : Rtc}

/-! ## The rule -/

inductive SetterCall where
  | setCyc (pstCyc : StcRtcCyccfg)
  | compCfg (compVlue : BitVec 16) (newStatus : Word)
  | setAlarmTime (pstcAlarmTime : StcRtcAlarmtime)

def SetterCall.body : SetterCall → RtcProg RtcResult
  | setCyc pstCyc => rtcSetCyc pstCyc
  | compCfg compVlue newStatus => rtcCompCfg compVlue newStatus
  | setAlarmTime pstcAlarmTime => rtcSetAlarmTime pstcAlarmTime

/-- `CR1.ALMEN` -/
def almenOf (cr1 : Word) : Bool := cr1.getLsbD 7

/-- The registers that hold what a call asks for. -/
def SetterCall.registers : SetterCall → List RtcReg
  | setCyc _ => [.cr0]
  | compCfg _ _ => [.compen]
  | setAlarmTime _ => [.almmin, .almhour, .almweek, .cr1]

/-- The registers hold all that a call asks for. -/
def SetterCall.HeldBy (regs : RtcReg → Word) : SetterCall → Prop
  | setCyc pstCyc =>
      (RtcCr0.prdsel.get (regs .cr0)).toNat = pstCyc.rtcPrdsel.toNat ∧
        (pstCyc.rtcPrdsel = prdselPrds →
          (RtcCr0.prds.get (regs .cr0)).toNat = pstCyc.rtcPrds.toNat) ∧
        (pstCyc.rtcPrdsel = prdselPrdx →
          (RtcCr0.prdx.get (regs .cr0)).toNat = pstCyc.rtcPrdx.toNat)
  | compCfg compVlue newStatus =>
      (RtcCompen.cr.get (regs .compen)).toNat = compVlue.toNat ∧
        (RtcCompen.en.get (regs .compen)).toNat = newStatus.toNat
  | setAlarmTime pstcAlarmTime =>
      regs .almmin = pstcAlarmTime.rtcAlarmMinute.setWidth 32 ∧
        regs .almhour = pstcAlarmTime.rtcAlarmHour.setWidth 32 ∧
        regs .almweek = pstcAlarmTime.rtcAlarmWeek.setWidth 32 ∧ almenOf (regs .cr1) = true

/-- The whole of what a call asks for has been written. -/
def SetterCall.Written (c : SetterCall) (s : Rtc) : Prop :=
  (∀ r ∈ c.registers, .write r ∈ s.log) ∧ c.HeldBy s.regs

/-- `n` in BCD. -/
def bcd (n : Nat) : BitVec 8 := BitVec.ofNat 8 (n / 10 * 16 + n % 10)

/-- The clock can show this minute and hour in the mode that `CR0` says. -/
def StcRtcAlarmtime.Shown (shows12 : BitVec 8 → Prop) (cr0 : Word) (a : StcRtcAlarmtime) : Prop :=
  (∃ n, n < 60 ∧ a.rtcAlarmMinute = bcd n) ∧
    if ampmOf cr0 = rtcAm then shows12 a.rtcAlarmHour
    else ∃ n, n < 24 ∧ a.rtcAlarmHour = bcd n

/-- What is asked of a call, from the state `s`. -/
structure AllOrNothing (shows12 : BitVec 8 → Prop) (c : SetterCall) (s : Rtc) : Prop where
  ok_iff : (c.body.exec s).1 = .ok ↔ c.Written (c.body.exec s).2
  kept : (c.body.exec s).1 ≠ .ok → (c.body.exec s).2.regs = s.regs
  alarm : ∀ a, c = .setAlarmTime a →
    ((c.body.exec s).1 = .ok ↔ a.Shown shows12 (s.regs .cr0))

theorem AllOrNothing.iff_of_exec {shows12 : BitVec 8 → Prop} {c : SetterCall} {r : RtcResult}
    {t : Rtc} (h : c.body.exec s = (r, t)) :
    AllOrNothing shows12 c s ↔ (r = .ok ↔ c.Written t) ∧ (r ≠ .ok → t.regs = s.regs) ∧
      ∀ a, c = .setAlarmTime a → (r = .ok ↔ a.Shown shows12 (s.regs .cr0)) := by
  constructor
  · rintro ⟨hok, hkept, halarm⟩
    rw [h] at hok hkept halarm
    exact ⟨hok, hkept, halarm⟩
  · rintro ⟨hok, hkept, halarm⟩
    refine ⟨?_, ?_, ?_⟩ <;> rw [h] <;> assumption

/-! ## What a store to a field does -/

/-- The state after `r.field = v`. -/
def Rtc.withField {n : Nat} (r : RtcReg) (field : BitField 32) (v : BitVec n) (s : Rtc) : Rtc :=
  { s with
    regs := Function.update s.regs r (field.set (v.setWidth field.len) (s.regs r) &&& r.mask)
    log := .write r :: .read r :: s.log }

section Field

variable {n : Nat} (field : BitField 32) (v : BitVec n) (s : Rtc)

@[simp] theorem writeField_exec (r : RtcReg) :
    (writeField r field v).exec s = ((), s.withField r field v) := rfl

theorem Rtc.withField_log (r : RtcReg) : .write r ∈ (s.withField r field v).log :=
  List.mem_cons_self

theorem Rtc.withField_self {r : RtcReg} (hr : r.mask = 0xFFFFFFFF) :
    (s.withField r field v).regs r = field.set (v.setWidth field.len) (s.regs r) := by
  simp only [Rtc.withField, Function.update_self, hr]
  rw [show (0xFFFFFFFF : Word) = BitVec.allOnes 32 by decide, BitVec.and_allOnes]

@[simp] theorem Rtc.withField_cr0 :
    (s.withField .cr0 field v).regs .cr0 = field.set (v.setWidth field.len) (s.regs .cr0) :=
  Rtc.withField_self field v s rfl

@[simp] theorem Rtc.withField_compen :
    (s.withField .compen field v).regs .compen =
      field.set (v.setWidth field.len) (s.regs .compen) :=
  Rtc.withField_self field v s rfl

end Field

/-- Nothing changes where the register stays the same. -/
theorem Rtc.withField_regs_iff {n : Nat} {r : RtcReg} {field : BitField 32} {v : BitVec n} :
    (s.withField r field v).regs = s.regs ↔ (s.withField r field v).regs r = s.regs r := by
  constructor
  · intro h
    rw [h]
  · intro h
    funext r'
    by_cases hr : r' = r
    · rw [hr, h]
    · exact Function.update_of_ne hr _ _

/-- A value stored to a field is held by it if it fits. -/
theorem toNat_setWidth_eq_iff {m n : Nat} (v : BitVec n) :
    (v.setWidth m).toNat = v.toNat ↔ v.toNat < 2 ^ m := by
  rw [BitVec.toNat_setWidth]
  exact Nat.mod_eq_iff_lt (Nat.two_pow_pos m).ne'

/-! ## Rtc_SetCyc -/

/-- When `Rtc_SetCyc` keeps the rule. -/
def StcRtcCyccfg.Kept (cr0 : Word) (p : StcRtcCyccfg) : Prop :=
  if p.rtcPrdsel = prdselPrds then p.rtcPrds.toNat < 8
  else p.rtcPrdsel = prdselPrdx ∧ (p.rtcPrdx.toNat < 64 ∨ (RtcCr0.prdsel.get cr0).toNat = 1)

/-- What one of the two branches that store it writes is held if it fits. -/
theorem rtcSetCyc_stored {p : StcRtcCyccfg} {field : BitField 32} {n : Nat} {v : BitVec n}
    (hfield : RtcCr0.prdsel.Disjoint field) (hsel : p.rtcPrdsel.toNat < 2)
    (hheld : ∀ regs : RtcReg → Word, (SetterCall.setCyc p).HeldBy regs ↔
      (RtcCr0.prdsel.get (regs .cr0)).toNat = p.rtcPrdsel.toNat ∧
        (field.get (regs .cr0)).toNat = v.toNat) :
    (SetterCall.setCyc p).Written
      ((s.withField .cr0 RtcCr0.prdsel p.rtcPrdsel).withField .cr0 field v) ↔
        v.toNat < 2 ^ field.len := by
  have hlog : ∀ r ∈ (SetterCall.setCyc p).registers, .write r ∈
      ((s.withField .cr0 RtcCr0.prdsel p.rtcPrdsel).withField .cr0 field v).log := by
    intro r hr
    rw [SetterCall.registers, List.mem_singleton] at hr
    rw [hr]
    exact Rtc.withField_log _ _ _ _
  have hfits : (p.rtcPrdsel.setWidth RtcCr0.prdsel.len).toNat = p.rtcPrdsel.toNat :=
    (toNat_setWidth_eq_iff _).mpr hsel
  rw [SetterCall.Written, hheld, Rtc.withField_cr0, Rtc.withField_cr0,
    BitField.get_set_of_disjoint hfield, BitField.get_set, BitField.get_set,
    toNat_setWidth_eq_iff v]
  exact ⟨fun h => h.2.2, fun h => ⟨hlog, hfits, h⟩⟩

/-- The period source is switched before the count is looked at. -/
theorem rtcSetCyc_refused {p : StcRtcCyccfg} (hprdx : p.rtcPrdsel = prdselPrdx) :
    (s.withField .cr0 RtcCr0.prdsel p.rtcPrdsel).regs = s.regs ↔
      (RtcCr0.prdsel.get (s.regs .cr0)).toNat = 1 := by
  have hone : (p.rtcPrdsel.setWidth RtcCr0.prdsel.len).toNat = 1 := by
    rw [hprdx]
    decide
  rw [Rtc.withField_regs_iff, Rtc.withField_cr0, BitField.set_eq_self_iff, ← hone]
  exact BitVec.toNat_inj.symm

/-- No count of 64 or more is held. -/
theorem setCyc_prdx_unheld {p : StcRtcCyccfg} (hprdx : p.rtcPrdsel = prdselPrdx)
    (hfit : ¬ p.rtcPrdx.toNat < 64) (t : Rtc) : ¬ (SetterCall.setCyc p).Written t := by
  rintro ⟨-, -, -, hcount⟩
  have hlt := (RtcCr0.prdx.get (t.regs .cr0)).isLt
  rw [hcount hprdx] at hlt
  exact hfit hlt

/-- No source but the two is held. -/
theorem setCyc_prdsel_unheld {p : StcRtcCyccfg} (hprds : p.rtcPrdsel ≠ prdselPrds)
    (hprdx : p.rtcPrdsel ≠ prdselPrdx) (t : Rtc) : ¬ (SetterCall.setCyc p).Written t := by
  rintro ⟨-, hsel, -⟩
  have hlt := (RtcCr0.prdsel.get (t.regs .cr0)).isLt
  rw [hsel] at hlt
  have hcases : p.rtcPrdsel.toNat = 0 ∨ p.rtcPrdsel.toNat = 1 := by
    change p.rtcPrdsel.toNat < 2 at hlt
    omega
  rcases hcases with h0 | h1
  · exact hprds (BitVec.eq_of_toNat_eq h0)
  · exact hprdx (BitVec.eq_of_toNat_eq h1)

theorem rtcSetCyc_iff (shows12 : BitVec 8 → Prop) (p : StcRtcCyccfg) (s : Rtc) :
    AllOrNothing shows12 (.setCyc p) s ↔ p.Kept (s.regs .cr0) := by
  unfold StcRtcCyccfg.Kept
  split
  · rename_i hprds
    have hexec : (SetterCall.setCyc p).body.exec s = (.ok,
        (s.withField .cr0 RtcCr0.prdsel p.rtcPrdsel).withField .cr0 RtcCr0.prds p.rtcPrds) := by
      simp [SetterCall.body, rtcSetCyc, hprds]
    rw [AllOrNothing.iff_of_exec hexec, rtcSetCyc_stored (by decide) (by rw [hprds]; decide)]
    · simp [RtcCr0.prds]
    · intro regs
      simp [SetterCall.HeldBy, hprds, prdselPrds, prdselPrdx]
  · rename_i hprds
    by_cases hprdx : p.rtcPrdsel = prdselPrdx
    · have hne : ¬ prdselPrdx = prdselPrds := by decide
      by_cases hfit : p.rtcPrdx.toNat < 64
      · have hexec : (SetterCall.setCyc p).body.exec s = (.ok,
            (s.withField .cr0 RtcCr0.prdsel p.rtcPrdsel).withField .cr0 RtcCr0.prdx
              p.rtcPrdx) := by
          simp [SetterCall.body, rtcSetCyc, hprdx, hne, Nat.not_le.mpr hfit]
        rw [AllOrNothing.iff_of_exec hexec,
          rtcSetCyc_stored (by decide) (by rw [hprdx]; decide)]
        · simp [RtcCr0.prdx, hfit, hprdx]
        · intro regs
          simp [SetterCall.HeldBy, hprdx, hne]
      · have hexec : (SetterCall.setCyc p).body.exec s = (.errorInvalidParameter,
            s.withField .cr0 RtcCr0.prdsel p.rtcPrdsel) := by
          simp [SetterCall.body, rtcSetCyc, hprdx, hne, Nat.not_lt.mp hfit]
        rw [AllOrNothing.iff_of_exec hexec, rtcSetCyc_refused hprdx]
        simp [setCyc_prdx_unheld hprdx hfit, hfit, hprdx]
    · have hexec : (SetterCall.setCyc p).body.exec s =
          (.ok, s.withField .cr0 RtcCr0.prdsel p.rtcPrdsel) := by
        simp [SetterCall.body, rtcSetCyc, hprdx, hprds]
      rw [AllOrNothing.iff_of_exec hexec]
      simp [setCyc_prdsel_unheld hprds hprdx, hprdx]

/-! ## Rtc_CompCfg -/

/-- When `Rtc_CompCfg` keeps the rule: it returns `Error` for each value that it stores. -/
def CompKept (compen : Word) (compVlue : BitVec 16) (newStatus : Word) : Prop :=
  256 < compVlue.toNat ∨
    2 ≤ newStatus.toNat ∧ RtcCompen.en.get compen = newStatus.setWidth _ ∧
      RtcCompen.cr.get compen = compVlue.setWidth _

/-- The state after the two fields of `COMPEN` were stored. -/
def Rtc.withComp (compVlue : BitVec 16) (newStatus : Word) (s : Rtc) : Rtc :=
  (s.withField .compen RtcCompen.en newStatus).withField .compen RtcCompen.cr compVlue

/-- A status of one bit is held, and so is a value that passed the check. -/
theorem compCfg_written_iff {compVlue : BitVec 16} (newStatus : Word) (hvalue : compVlue.toNat ≤ 256) :
    (SetterCall.compCfg compVlue newStatus).Written (s.withComp compVlue newStatus) ↔
      newStatus.toNat < 2 := by
  have hfits : (compVlue.setWidth RtcCompen.cr.len).toNat = compVlue.toNat := by
    rw [toNat_setWidth_eq_iff]
    change compVlue.toNat < 512
    omega
  simp only [Rtc.withComp, SetterCall.Written, SetterCall.HeldBy, SetterCall.registers,
    List.mem_singleton, forall_eq, Rtc.withField_log, Rtc.withField_compen, BitField.get_set, hfits,
    true_and, BitField.get_set_of_disjoint (show RtcCompen.en.Disjoint RtcCompen.cr by decide)]
  exact toNat_setWidth_eq_iff newStatus

/-- Nothing changes where both fields held this before. -/
theorem compCfg_regs_iff (compVlue : BitVec 16) (newStatus : Word) :
    (s.withComp compVlue newStatus).regs = s.regs ↔
      RtcCompen.en.get (s.regs .compen) = newStatus.setWidth _ ∧
        RtcCompen.cr.get (s.regs .compen) = compVlue.setWidth _ := by
  rw [← BitField.set_set_eq_self_iff (by decide), ← Rtc.withField_compen, ← Rtc.withField_compen]
  constructor
  · intro h
    rw [← Rtc.withComp, h]
  · intro h
    funext r
    by_cases hr : r = .compen
    · rw [hr, ← h, Rtc.withComp]
    · exact (Function.update_of_ne hr _ _).trans (Function.update_of_ne hr _ _)

theorem rtcCompCfg_iff (shows12 : BitVec 8 → Prop) (compVlue : BitVec 16) (newStatus : Word)
    (hlog : s.log = []) : AllOrNothing shows12 (.compCfg compVlue newStatus) s ↔
      CompKept (s.regs .compen) compVlue newStatus := by
  unfold CompKept
  by_cases hvalue : compVlue.toNat ≤ 256
  · have hexec : (SetterCall.compCfg compVlue newStatus).body.exec s =
        (.error, s.withComp compVlue newStatus) := by
      simp [SetterCall.body, rtcCompCfg, hvalue, Rtc.withComp]
    rw [AllOrNothing.iff_of_exec hexec, compCfg_written_iff newStatus hvalue, compCfg_regs_iff]
    constructor
    · rintro ⟨hok, hsame, -⟩
      refine .inr ⟨?_, hsame (by decide)⟩
      by_contra hnarrow
      have herror : RtcResult.error = .ok := hok.mpr (by omega)
      cases herror
    · rintro (hlarge | ⟨hwide, hsame⟩)
      · omega
      · exact ⟨iff_of_false (by decide) (by omega), fun _ => hsame, fun a ha => nomatch ha⟩
  · have hexec : (SetterCall.compCfg compVlue newStatus).body.exec s =
        (.errorInvalidParameter, s) := by
      simp [SetterCall.body, rtcCompCfg, hvalue]
    have hunwritten : ¬ (SetterCall.compCfg compVlue newStatus).Written s := by
      rintro ⟨hstored, -⟩
      have hmem := hstored .compen List.mem_cons_self
      rw [hlog] at hmem
      cases hmem
    rw [AllOrNothing.iff_of_exec hexec]
    simp [hunwritten, Nat.lt_of_not_le hvalue]

/-! ## Rtc_SetAlarmTime -/

/-- The state after `Rtc_AlmEnCmd`. -/
def Rtc.withAlmen (newState : Bool) (s : Rtc) : Rtc := ((rtcAlmEnCmd newState).exec s).2

theorem rtcAlmEnCmd_exec (newState : Bool) (s : Rtc) :
    (rtcAlmEnCmd newState).exec s = ((), s.withAlmen newState) := rfl

@[simp] theorem Rtc.withAlmen_of_ne {r : RtcReg} (hr : r ≠ .cr1) (newState : Bool) (s : Rtc) :
    (s.withAlmen newState).regs r = s.regs r := by
  cases newState <;> exact Rtc.storeCr1_of_ne hr _ _

@[simp] theorem Rtc.withAlmen_cr1 (newState : Bool) (s : Rtc) :
    almenOf ((s.withAlmen newState).regs .cr1) = newState := by
  cases newState
  · change almenOf ((s.storeCr1 ((s.regs .cr1 &&& ~~~((1 : Word) <<< 7)) ||| 0)).regs .cr1) = false
    rw [Rtc.storeCr1_cr1]
    simp [almenOf, cr1Stored, RtcCr1.events, RtcCr1.waitf]
  · change almenOf ((s.storeCr1 ((s.regs .cr1 &&& BitVec.allOnes 32) ||| (1 : Word) <<< 7)).regs
      .cr1) = true
    rw [Rtc.storeCr1_cr1]
    simp [almenOf, cr1Stored, RtcCr1.events, RtcCr1.waitf]

/-- A change that keeps the event flags stores what it read, edited. -/
theorem cr1Stored_and {keep : Word} (hkeep : keep ||| RtcCr1.events ||| RtcCr1.waitf = keep)
    (old : Word) : cr1Stored old ((old &&& keep) ||| 0) = old &&& keep := by
  apply BitVec.eq_of_getLsbD_eq
  intro i hi
  have hbit := congrArg (·.getLsbD i) hkeep
  simp only [BitVec.getLsbD_or] at hbit
  simp only [cr1Stored, BitVec.getLsbD_or, BitVec.getLsbD_and, BitVec.getLsbD_not, hi, decide_true,
    Bool.true_and, BitVec.ofNat_eq_ofNat, BitVec.getLsbD_zero, Bool.or_false]
  revert hbit
  cases old.getLsbD i <;> cases keep.getLsbD i <;> cases RtcCr1.events.getLsbD i <;>
    cases RtcCr1.waitf.getLsbD i <;> simp

theorem and_not_bit_of_clear {x : Word} {n : Nat} (h : x.getLsbD n = false) :
    x &&& ~~~((1 : Word) <<< n) = x := by
  rw [show (1 : Word) <<< n = BitVec.twoPow 32 n from (BitVec.twoPow_eq 32 n).symm]
  apply BitVec.eq_of_getLsbD_eq
  intro i hi
  rw [BitVec.getLsbD_and, BitVec.getLsbD_not, BitVec.getLsbD_twoPow]
  by_cases hn : n = i
  · subst hn
    simp [h]
  · simp [hn, hi]

/-- Disabling an alarm that is not enabled changes nothing. -/
theorem Rtc.withAlmen_regs_iff :
    (s.withAlmen false).regs = s.regs ↔ almenOf (s.regs .cr1) = false := by
  constructor
  · intro h
    rw [← h]
    exact Rtc.withAlmen_cr1 false s
  · intro h
    funext r
    by_cases hr : r = .cr1
    · subst hr
      change (s.storeCr1 ((s.regs .cr1 &&& ~~~((1 : Word) <<< 7)) ||| 0)).regs .cr1 = _
      rw [Rtc.storeCr1_cr1, cr1Stored_and (by decide)]
      exact and_not_bit_of_clear h
    · exact Rtc.withAlmen_of_ne hr _ _

/-- The check of the minute and the hour, in the mode that `CR0` says. -/
def StcRtcAlarmtime.accepted (cr0 : Word) (a : StcRtcAlarmtime) : Bool :=
  checkBcdFormat a.rtcAlarmHour 0x00 (alarmHourLimit cr0) &&
    checkBcdFormat a.rtcAlarmMinute 0x00 0x59

/-- The state after a byte was written to `r`. -/
def Rtc.withByte (r : RtcReg) (v : BitVec 8) (s : Rtc) : Rtc := ((writeByte r v).exec s).2

/-- The state after the three alarm registers were written. -/
def Rtc.withAlarm (a : StcRtcAlarmtime) (s : Rtc) : Rtc :=
  ((s.withByte .almmin (a.rtcAlarmMinute &&& 0x7f)).withByte .almhour
    (a.rtcAlarmHour &&& 0x3f)).withByte .almweek a.rtcAlarmWeek

/-- The state in which the checks are made. -/
def Rtc.alarmOff (s : Rtc) : Rtc :=
  { s.withAlmen false with log := .read .cr0 :: (s.withAlmen false).log }

theorem rtcSetAlarmTime_exec (a : StcRtcAlarmtime) (s : Rtc) :
    (rtcSetAlarmTime a).exec s =
      if a.accepted (s.regs .cr0) then (.ok, (s.alarmOff.withAlarm a).withAlmen true)
      else (.error, s.alarmOff) := by
  have hcr0 : (s.withAlmen false).regs .cr0 = s.regs .cr0 := Rtc.withAlmen_of_ne (by decide) _ _
  simp only [rtcSetAlarmTime, Prog.exec_bind, rtcAlmEnCmd_exec, readReg, Prog.act_bind,
    Prog.exec_act, Prog.ret_bind, hcr0, StcRtcAlarmtime.accepted]
  by_cases hhour : checkBcdFormat a.rtcAlarmHour 0x00 (alarmHourLimit (s.regs .cr0)) = true
  · by_cases hminute : checkBcdFormat a.rtcAlarmMinute 0x00 0x59 = true
    · simp only [hhour, hminute, Bool.and_true, if_true, Prog.exec_bind]
      rfl
    · rw [Bool.not_eq_true] at hminute
      simp only [hhour, hminute, Bool.and_false, Bool.false_eq_true, if_true, if_false]
      rfl
  · rw [Bool.not_eq_true] at hhour
    simp only [hhour, Bool.false_and, Bool.false_eq_true, if_false]
    rfl

/-- The number that a byte in BCD stands for. -/
def ofBcd (b : BitVec 8) : Nat := b.toNat / 16 * 10 + b.toNat % 16

theorem bcd_ofBcd_minute : ∀ b : BitVec 8, checkBcdFormat b 0x00 0x59 = true →
    ofBcd b < 60 ∧ b = bcd (ofBcd b) := by
  decide +kernel

theorem bcd_ofBcd_hour : ∀ b : BitVec 8, checkBcdFormat b 0x00 0x24 = true ∧ b ≠ 0x24 →
    ofBcd b < 24 ∧ b = bcd (ofBcd b) := by
  decide +kernel

/-- What the check of the minute lets through. -/
theorem checkBcdFormat_minute : ∀ b : BitVec 8,
    checkBcdFormat b 0x00 0x59 = true ↔ ∃ n, n < 60 ∧ b = bcd n := by
  have hback : ∀ n, n < 60 → checkBcdFormat (bcd n) 0x00 0x59 = true := by decide +kernel
  intro b
  constructor
  · intro h
    exact ⟨ofBcd b, bcd_ofBcd_minute b h⟩
  · rintro ⟨n, hn, rfl⟩
    exact hback n hn

/-- The check of the hour in 24-hour mode lets 24 through as well. -/
theorem checkBcdFormat_hour : ∀ b : BitVec 8,
    (∃ n, n < 24 ∧ b = bcd n) ↔ checkBcdFormat b 0x00 0x24 = true ∧ b ≠ 0x24 := by
  have hback : ∀ n, n < 24 → checkBcdFormat (bcd n) 0x00 0x24 = true ∧ bcd n ≠ 0x24 := by
    decide +kernel
  intro b
  constructor
  · rintro ⟨n, hn, rfl⟩
    exact hback n hn
  · intro h
    exact ⟨ofBcd b, bcd_ofBcd_hour b h⟩

/-- The three bytes of an accepted alarm as the registers hold them. -/
theorem minute_held : ∀ b : BitVec 8, checkBcdFormat b 0x00 0x59 = true →
    (b &&& 0x7f).setWidth 32 &&& RtcReg.mask .almmin = b.setWidth 32 := by
  decide +kernel

theorem hour_held : ∀ b : BitVec 8,
    checkBcdFormat b 0x00 0x12 = true ∨ checkBcdFormat b 0x00 0x24 = true →
      (b &&& 0x3f).setWidth 32 &&& RtcReg.mask .almhour = b.setWidth 32 := by
  decide +kernel

theorem week_held : ∀ b : BitVec 8,
    b.setWidth 32 &&& RtcReg.mask .almweek = b.setWidth 32 ↔ b < 0x80 := by
  decide +kernel

theorem accepted_hour {cr0 : Word} {b : BitVec 8}
    (h : checkBcdFormat b 0x00 (alarmHourLimit cr0) = true) :
    checkBcdFormat b 0x00 0x12 = true ∨ checkBcdFormat b 0x00 0x24 = true := by
  unfold alarmHourLimit at h
  split at h
  · exact .inl h
  · exact .inr h

/-- The minute and the hour of an accepted alarm are held as they are. -/
theorem withAlarm_held {a : StcRtcAlarmtime} {cr0 : Word} (h : a.accepted cr0 = true) (s : Rtc) :
    (s.withAlarm a).regs .almmin = a.rtcAlarmMinute.setWidth 32 ∧
      (s.withAlarm a).regs .almhour = a.rtcAlarmHour.setWidth 32 := by
  rw [StcRtcAlarmtime.accepted, Bool.and_eq_true] at h
  have hminute : (s.withAlarm a).regs .almmin =
      (a.rtcAlarmMinute &&& 0x7f).setWidth 32 &&& RtcReg.mask .almmin := rfl
  have hhour : (s.withAlarm a).regs .almhour =
      (a.rtcAlarmHour &&& 0x3f).setWidth 32 &&& RtcReg.mask .almhour := rfl
  rw [hminute, hhour]
  exact ⟨minute_held _ h.2, hour_held _ (accepted_hour h.1)⟩

/-- An accepted alarm is written whole if the mask of weekdays fits. -/
theorem rtcSetAlarmTime_written {a : StcRtcAlarmtime} {cr0 : Word} (h : a.accepted cr0 = true)
    (s : Rtc) : (SetterCall.setAlarmTime a).Written ((s.withAlarm a).withAlmen true) ↔
      a.rtcAlarmWeek < 0x80 := by
  have hlog : ((s.withAlarm a).withAlmen true).log =
      .write .cr1 :: .write .almweek :: .write .almhour :: .write .almmin :: s.log := rfl
  have hheld := withAlarm_held h s
  have hweek : (s.withAlarm a).regs .almweek = a.rtcAlarmWeek.setWidth 32 ↔
      a.rtcAlarmWeek < 0x80 := week_held _
  simp only [SetterCall.Written, SetterCall.registers, SetterCall.HeldBy, hlog,
    Rtc.withAlmen_of_ne (show RtcReg.almmin ≠ .cr1 by decide),
    Rtc.withAlmen_of_ne (show RtcReg.almhour ≠ .cr1 by decide),
    Rtc.withAlmen_of_ne (show RtcReg.almweek ≠ .cr1 by decide), Rtc.withAlmen_cr1, hheld.1, hheld.2,
    hweek]
  simp

/-- When `Rtc_SetAlarmTime` keeps the rule. -/
def StcRtcAlarmtime.Kept (shows12 : BitVec 8 → Prop) (regs : RtcReg → Word)
    (a : StcRtcAlarmtime) : Prop :=
  if a.accepted (regs .cr0) then
    a.rtcAlarmWeek < 0x80 ∧
      if ampmOf (regs .cr0) = rtcAm then shows12 a.rtcAlarmHour else a.rtcAlarmHour ≠ 0x24
  else
    almenOf (regs .cr1) = false ∧
      (ampmOf (regs .cr0) = rtcAm → (∃ n, n < 60 ∧ a.rtcAlarmMinute = bcd n) →
        ¬ shows12 a.rtcAlarmHour)

theorem shown_of_accepted {shows12 : BitVec 8 → Prop} {cr0 : Word} {a : StcRtcAlarmtime}
    (h : a.accepted cr0 = true) : a.Shown shows12 cr0 ↔
      if ampmOf cr0 = rtcAm then shows12 a.rtcAlarmHour else a.rtcAlarmHour ≠ 0x24 := by
  rw [StcRtcAlarmtime.accepted, Bool.and_eq_true] at h
  rw [StcRtcAlarmtime.Shown, and_iff_right ((checkBcdFormat_minute _).mp h.2)]
  by_cases hmode : ampmOf cr0 = rtcAm
  · rw [if_pos hmode, if_pos hmode]
  · have hcheck := h.1
    rw [alarmHourLimit, if_neg hmode] at hcheck
    rw [if_neg hmode, if_neg hmode, checkBcdFormat_hour, and_iff_right hcheck]

theorem not_shown_of_refused {shows12 : BitVec 8 → Prop} {cr0 : Word} {a : StcRtcAlarmtime}
    (h : a.accepted cr0 = false) : ¬ a.Shown shows12 cr0 ↔
      (ampmOf cr0 = rtcAm → (∃ n, n < 60 ∧ a.rtcAlarmMinute = bcd n) →
        ¬ shows12 a.rtcAlarmHour) := by
  rw [StcRtcAlarmtime.Shown]
  by_cases hmode : ampmOf cr0 = rtcAm
  · simp [hmode]
  · rw [if_neg hmode, checkBcdFormat_hour, ← checkBcdFormat_minute]
    refine iff_of_true ?_ fun hmode' => absurd hmode' hmode
    rintro ⟨hminute, hhour, -⟩
    rw [StcRtcAlarmtime.accepted, alarmHourLimit, if_neg hmode, hhour, hminute] at h
    cases h

theorem rtcSetAlarmTime_iff (shows12 : BitVec 8 → Prop) (a : StcRtcAlarmtime) (s : Rtc) :
    AllOrNothing shows12 (.setAlarmTime a) s ↔ a.Kept shows12 s.regs := by
  have hexec : (SetterCall.setAlarmTime a).body.exec s = _ := rtcSetAlarmTime_exec a s
  have halarm : ∀ {P : StcRtcAlarmtime → Prop},
      (∀ a', SetterCall.setAlarmTime a = .setAlarmTime a' → P a') ↔ P a :=
    ⟨fun h => h a rfl, fun h a' ha => (SetterCall.setAlarmTime.inj ha) ▸ h⟩
  unfold StcRtcAlarmtime.Kept
  cases haccepted : a.accepted (s.regs .cr0) with
  | true =>
      rw [haccepted, if_pos rfl] at hexec
      rw [AllOrNothing.iff_of_exec hexec, rtcSetAlarmTime_written haccepted, halarm,
        shown_of_accepted haccepted]
      simp
  | false =>
      rw [haccepted, if_neg Bool.false_ne_true] at hexec
      have hunheld : ¬ (SetterCall.setAlarmTime a).Written s.alarmOff := by
        rintro ⟨-, -, -, -, halmen⟩
        have hoff : almenOf (s.alarmOff.regs .cr1) = false := Rtc.withAlmen_cr1 false s
        rw [hoff] at halmen
        cases halmen
      have hkept : s.alarmOff.regs = s.regs ↔ almenOf (s.regs .cr1) = false :=
        Rtc.withAlmen_regs_iff
      rw [AllOrNothing.iff_of_exec hexec, halarm, hkept, ← not_shown_of_refused haccepted]
      simp [hunheld]

/-! ## All three -/

def SetterCall.Kept (shows12 : BitVec 8 → Prop) (regs : RtcReg → Word) : SetterCall → Prop
  | setCyc pstCyc => pstCyc.Kept (regs .cr0)
  | compCfg compVlue newStatus => CompKept (regs .compen) compVlue newStatus
  | setAlarmTime pstcAlarmTime => pstcAlarmTime.Kept shows12 regs

/-- **A setter is all-or-nothing, and accepts the alarms that can fire, exactly under its own condition on
    the registers and the arguments.** -/
theorem rtc_setters_iff (shows12 : BitVec 8 → Prop) (c : SetterCall) (s : Rtc) :
    AllOrNothing shows12 c s.fresh ↔ c.Kept shows12 s.regs := by
  cases c with
  | setCyc pstCyc => exact rtcSetCyc_iff shows12 pstCyc s.fresh
  | compCfg compVlue newStatus => exact rtcCompCfg_iff shows12 compVlue newStatus rfl
  | setAlarmTime pstcAlarmTime => exact rtcSetAlarmTime_iff shows12 pstcAlarmTime s.fresh

/-- A wrong minute: the call is refused, and the alarm that was enabled is not any more. -/
theorem rtc_setters_fail : ¬ ∃ shows12, ∀ c s, AllOrNothing shows12 c (Rtc.fresh s) := by
  rintro ⟨shows12, h⟩
  let s : Rtc :=
    { regs := fun r => if r = .cr1 then 0x80 else 0x08
      pending := none
      waitf := fun _ => false
      polls := 0
      log := [] }
  let a : StcRtcAlarmtime := ⟨0x60, 0x07, 0x01⟩
  have hkept := (rtcSetAlarmTime_iff shows12 a s.fresh).mp (h _ s)
  have hrefused : a.accepted (s.fresh.regs .cr0) = false := by decide
  rw [StcRtcAlarmtime.Kept, hrefused, if_neg Bool.false_ne_true] at hkept
  exact absurd hkept.1 (by decide)

end Hc32
