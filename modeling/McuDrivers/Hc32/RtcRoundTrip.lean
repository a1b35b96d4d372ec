import McuDrivers.Hc32.RtcAccess
import McuDrivers.Hc32.RtcSetters

set_option autoImplicit false

/-! # HC32L13x: what was set is read back

`Rtc_SetTime` writes the whole hour, `Rtc_ReadDateTime` leaves out bit 5 of it in 12-hour mode, which is
the bit of the afternoon. So a time comes back as it was set in 24-hour mode, and in 12-hour mode if its
hour has not that bit. An alarm comes back always. -/

namespace Hc32

variable {s : Rtc}

/-! ## Values that fit their registers -/

/-- `r` holds all of `v`. -/
def RtcReg.Holds (r : RtcReg) (v : BitVec 8) : Prop := (v.setWidth 32 &&& r.mask).setWidth 8 = v

instance (r : RtcReg) (v : BitVec 8) : Decidable (r.Holds v) :=
  inferInstanceAs (Decidable (_ = _))

/-- Each field fits the register that it is written to. -/
structure StcRtcTime.Fits (time : StcRtcTime) : Prop where
  second : RtcReg.sec.Holds time.u8Second
  minute : RtcReg.min.Holds time.u8Minute
  hour : RtcReg.hour.Holds time.u8Hour
  dayOfWeek : RtcReg.week.Holds time.u8DayOfWeek
  day : RtcReg.day.Holds time.u8Day
  month : RtcReg.mon.Holds time.u8Month
  year : RtcReg.year.Holds time.u8Year

/-- The fields other than the hour are BCD values of a clock and a calendar, and the hour has 6 bits. -/
structure StcRtcTime.Valid (time : StcRtcTime) : Prop where
  second : checkBcdFormat time.u8Second 0x00 0x59 = true
  minute : checkBcdFormat time.u8Minute 0x00 0x59 = true
  hour : time.u8Hour < 0x40
  dayOfWeek : checkBcdFormat time.u8DayOfWeek 0x00 0x06 = true
  day : checkBcdFormat time.u8Day 0x01 0x31 = true
  month : checkBcdFormat time.u8Month 0x01 0x12 = true
  year : checkBcdFormat time.u8Year 0x00 0x99 = true

theorem RtcReg.holds_of_bcd : ∀ v : BitVec 8,
    (checkBcdFormat v 0x00 0x59 = true → RtcReg.sec.Holds v ∧ RtcReg.min.Holds v) ∧
    (v < 0x40 → RtcReg.hour.Holds v) ∧ (checkBcdFormat v 0x00 0x06 = true → RtcReg.week.Holds v) ∧
    (checkBcdFormat v 0x01 0x31 = true → RtcReg.day.Holds v) ∧
    (checkBcdFormat v 0x01 0x12 = true → RtcReg.mon.Holds v) ∧ RtcReg.year.Holds v := by
  decide +kernel

theorem StcRtcTime.Valid.fits {time : StcRtcTime} (h : time.Valid) : time.Fits where
  second := ((RtcReg.holds_of_bcd _).1 h.second).1
  minute := ((RtcReg.holds_of_bcd _).1 h.minute).2
  hour := (RtcReg.holds_of_bcd _).2.1 h.hour
  dayOfWeek := (RtcReg.holds_of_bcd _).2.2.1 h.dayOfWeek
  day := (RtcReg.holds_of_bcd _).2.2.2.1 h.day
  month := (RtcReg.holds_of_bcd _).2.2.2.2.1 h.month
  year := (RtcReg.holds_of_bcd _).2.2.2.2.2

/-- In 12-hour mode the afternoon is read as the morning. -/
theorem hour12_iff : ∀ v : BitVec 8, RtcReg.hour.Holds v → (v &&& 0x1f = v ↔ v &&& 0x20 = 0) := by
  decide +kernel

/-! ## What the access to the calendar leaves alone -/

/-- No register but `CR1` changes. -/
def KeepsRegs (s s' : Rtc) : Prop := ∀ r, r ≠ .cr1 → s'.regs r = s.regs r

theorem keepsRegs_exec {α : Type} {p : RtcProg α} (hp : p.Accesses KeepsRegs) (s : Rtc) :
    KeepsRegs s (p.exec s).2 :=
  Prog.exec_of_accesses hp (fun _ _ _ => rfl) (fun h h' r hr => (h' r hr).trans (h r hr)) s

theorem readReg_keepsRegs (r : RtcReg) : (readReg r).Accesses KeepsRegs :=
  ⟨fun _ _ _ => rfl, fun _ => trivial⟩

theorem readWaitf_keepsRegs : readWaitf.Accesses KeepsRegs :=
  ⟨fun _ _ _ => rfl, fun _ => trivial⟩

theorem writeWait_keepsRegs (v : Bool) : (writeWait v).Accesses KeepsRegs :=
  ⟨fun _ _ _ => rfl, fun _ => ⟨fun s _ hr => s.storeCr1_of_ne hr _, fun _ => trivial⟩⟩

theorem requestAccess_keepsRegs (spent : Word) (offset n : Nat) :
    (requestAccess (pollLoop spent offset n)).Accesses KeepsRegs :=
  requestAccess_accesses (readReg_keepsRegs _) (writeWait_keepsRegs _)
    (pollLoop_accesses readWaitf_keepsRegs spent offset n)

theorem releaseAccess_keepsRegs (rounds : Nat) : (releaseAccess rounds).Accesses KeepsRegs :=
  releaseAccess_accesses (readReg_keepsRegs _) (writeWait_keepsRegs _) readWaitf_keepsRegs rounds

/-! ## The time -/

/-- A register as a byte. -/
def byteOf (regs : RtcReg → Word) (r : RtcReg) : BitVec 8 := (regs r).setWidth 8

/-- The time that the registers show. -/
def timeOf (regs : RtcReg → Word) : StcRtcTime where
  u8Second := byteOf regs .sec
  u8Minute := byteOf regs .min
  u8Hour := if ampmOf (regs .cr0) = rtcPm then byteOf regs .hour else byteOf regs .hour &&& 0x1f
  u8DayOfWeek := byteOf regs .week
  u8Day := byteOf regs .day
  u8Month := byteOf regs .mon
  u8Year := byteOf regs .year

theorem readTime_exec (s : Rtc) : (readTime.exec s).1 = timeOf s.regs := rfl

theorem timeOf_congr {regs regs' : RtcReg → Word} (h : ∀ r, r ≠ .cr1 → regs' r = regs r) :
    timeOf regs' = timeOf regs := by
  simp only [timeOf, byteOf, h .cr0 (by decide), h .sec (by decide), h .min (by decide),
    h .hour (by decide), h .week (by decide), h .day (by decide), h .mon (by decide),
    h .year (by decide)]

/-- What is shown once a time that fits was written. -/
theorem timeOf_writeTime {time : StcRtcTime} (hfits : time.Fits) (s : Rtc) :
    timeOf ((writeTime time).exec s).2.regs =
      { time with u8Hour :=
          if ampmOf (s.regs .cr0) = rtcPm then time.u8Hour else time.u8Hour &&& 0x1f } := by
  have hhour : byteOf ((writeTime time).exec s).2.regs .hour = time.u8Hour := hfits.hour
  have hcr0 : ((writeTime time).exec s).2.regs .cr0 = s.regs .cr0 := rfl
  rw [timeOf, hhour, hcr0]
  congr 1
  · exact hfits.second
  · exact hfits.minute
  · exact hfits.dayOfWeek
  · exact hfits.day
  · exact hfits.month
  · exact hfits.year

/-- If `Rtc_SetTime` returns `Ok`, the registers show what it was given. -/
theorem rtcSetTime_shown {time : StcRtcTime} {rounds : Nat} (hfits : time.Fits)
    (h : ((rtcSetTime rounds time).exec s).1 = some .ok) :
    timeOf ((rtcSetTime rounds time).exec s).2.regs =
        { time with u8Hour :=
            if ampmOf (s.regs .cr0) = rtcPm then time.u8Hour else time.u8Hour &&& 0x1f } := by
  have hkeeps := keepsRegs_exec (requestAccess_keepsRegs 0 1 999) s
  rcases hreq : (requestAccess countThenPoll).exec s with ⟨granted, t⟩
  have hcr0 : t.regs .cr0 = s.regs .cr0 := by
    rw [show t = ((requestAccess countThenPoll).exec s).2 by rw [hreq]]
    exact hkeeps .cr0 (by decide)
  cases granted with
  | false =>
      have hexec : (rtcSetTime rounds time).exec s = _ :=
        AccessCall.body_refused (c := .setTime time) hreq rounds
      rw [hexec] at h
      cases h
  | true =>
      have hexec : (rtcSetTime rounds time).exec s = _ :=
        AccessCall.body_granted (c := .setTime time) hreq rounds
      rw [hexec, ← hcr0, ← timeOf_writeTime hfits t]
      exact timeOf_congr (keepsRegs_exec (releaseAccess_keepsRegs rounds) _)

/-- If `Rtc_ReadDateTime` returns `Ok`, it has read what the registers show. -/
theorem rtcReadDateTime_shown {out read : StcRtcTime} {rounds : Nat}
    (h : ((rtcReadDateTime rounds out).exec s).1 = some (.ok, read)) : read = timeOf s.regs := by
  have hkeeps :=
    keepsRegs_exec (requestAccess_keepsRegs 0xFFFFFFFF 0 1000) s
  rw [rtcReadDateTime, Prog.exec_bind] at h
  change ((if ((requestAccess pollThenCount).exec s).1 = true then _ else _ : RtcProg _).exec
    ((requestAccess pollThenCount).exec s).2).1 = _ at h
  split at h
  · simp only [Prog.exec_bind, readTime_exec, Prog.pure_eq, Prog.exec_ret] at h
    split at h
    · simp only [Option.some.injEq, Prod.mk.injEq, true_and] at h
      rw [← h]
      exact timeOf_congr hkeeps
    · cases h
  · cases h

/-! ## The alarm -/

/-- An accepted alarm whose weekdays fit is read back. -/
def AlarmRoundTrip (s : Rtc) (a : StcRtcAlarmtime) : Prop :=
  ((rtcSetAlarmTime a).exec s).1 = .ok → RtcReg.almweek.Holds a.rtcAlarmWeek →
    (rtcGetAlarmTime.exec ((rtcSetAlarmTime a).exec s).2).1 = a

theorem rtcGetAlarmTime_exec (s : Rtc) : (rtcGetAlarmTime.exec s).1 =
    ⟨byteOf s.regs .almmin, byteOf s.regs .almhour, byteOf s.regs .almweek⟩ := rfl

theorem alarmRoundTrip (s : Rtc) (a : StcRtcAlarmtime) : AlarmRoundTrip s a := by
  intro hok hweek
  rw [rtcSetAlarmTime_exec] at hok ⊢
  cases haccepted : a.accepted (s.regs .cr0) with
  | false =>
      rw [haccepted] at hok
      cases hok
  | true =>
      obtain ⟨hminute, hhour⟩ := withAlarm_held haccepted s.alarmOff
      have hmask : byteOf (s.alarmOff.withAlarm a).regs .almweek = a.rtcAlarmWeek := hweek
      rw [if_pos rfl, rtcGetAlarmTime_exec]
      simp only [byteOf] at hmask ⊢
      rw [Rtc.withAlmen_of_ne (by decide), Rtc.withAlmen_of_ne (by decide),
        Rtc.withAlmen_of_ne (by decide), hminute, hhour, hmask]
      simp

/-! ## Both -/

/-- **A time that was set is read back exactly in 24-hour mode, or if bit 5 of its hour is clear; an alarm
    is read back always.** -/
theorem rtc_roundTrip_iff {time out read : StcRtcTime} {rounds rounds' : Nat} (hfits : time.Fits)
    (hset : ((rtcSetTime rounds time).exec s).1 = some .ok)
    (hread : ((rtcReadDateTime rounds' out).exec ((rtcSetTime rounds time).exec s).2).1 =
      some (.ok, read)) :
    (read = time ↔ ampmOf (s.regs .cr0) = rtcPm ∨ time.u8Hour &&& 0x20 = 0) ∧
      ∀ t a, AlarmRoundTrip t a := by
  refine ⟨?_, alarmRoundTrip⟩
  rw [rtcReadDateTime_shown hread, rtcSetTime_shown hfits hset]
  by_cases hmode : ampmOf (s.regs .cr0) = rtcPm
  · rw [if_pos hmode]
    exact iff_of_true rfl (.inl hmode)
  · rw [if_neg hmode, ← hour12_iff _ hfits.hour]
    constructor
    · intro h
      exact .inr (congrArg StcRtcTime.u8Hour h)
    · rintro (h | h)
      · exact absurd h hmode
      · rw [h]

/-- The clock is stopped; `cr0` says which mode it is in. -/
def stoppedRtc (cr0 : Word) : Rtc where
  regs := fun r => if r = .cr0 then cr0 else 0
  pending := none
  waitf := fun _ => false
  polls := 0
  log := []

/-- One o'clock in the afternoon, as the 12-hour mode counts it. -/
def oneInTheAfternoon : StcRtcTime where
  u8Second := 0x30
  u8Minute := 0x59
  u8Hour := 0x21
  u8DayOfWeek := 0x02
  u8Day := 0x15
  u8Month := 0x06
  u8Year := 0x24

theorem oneInTheAfternoon_valid : oneInTheAfternoon.Valid := by
  constructor <;> decide

/-- In 24-hour mode the same hour is 21 o'clock, and is read back. -/
theorem rtc_roundTrip_evening :
    (oneInTheAfternoon = oneInTheAfternoon ↔ ampmOf 0x08 = rtcPm ∨
      oneInTheAfternoon.u8Hour &&& 0x20 = 0) ∧ ∀ t a, AlarmRoundTrip t a :=
  @rtc_roundTrip_iff (stoppedRtc 0x08) oneInTheAfternoon oneInTheAfternoon oneInTheAfternoon 0 0
    oneInTheAfternoon_valid.fits (by decide) (by decide)

/-- What a following `Rtc_ReadDateTime` returns is what `Rtc_SetTime` was given. -/
def TimeRoundTrip (s : Rtc) (time : StcRtcTime) : Prop :=
  ∀ rounds rounds' out read, ((rtcSetTime rounds time).exec s).1 = some .ok →
    ((rtcReadDateTime rounds' out).exec ((rtcSetTime rounds time).exec s).2).1 = some (.ok, read) →
      read = time

/-- In 12-hour mode it is read back as one in the morning. -/
theorem rtc_roundTrip_fails : ¬ ∀ s time, StcRtcTime.Valid time → TimeRoundTrip s time := by
  intro h
  have hread := h (stoppedRtc 0) oneInTheAfternoon oneInTheAfternoon_valid 0 0 oneInTheAfternoon
    { oneInTheAfternoon with u8Hour := 0x01 } (by decide) (by decide)
  exact absurd (congrArg StcRtcTime.u8Hour hread) (by decide)

end Hc32
