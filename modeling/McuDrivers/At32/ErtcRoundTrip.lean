import McuDrivers.At32.ErtcProtect

set_option autoImplicit false

/-! # AT32F4xx: what was set is read back

`ERTC_SetTimeValue`, `ERTC_SetDateValue` and `ERTC_SetAlarmValue` put a structure right before they check
it: without AM and PM the half of the day is dropped, and a month given in binary as if it were BCD is
brought to its number. What they check fits the register, each part beside the others, so that the
structure they leave is what is read back, in either format. -/

namespace At32

variable {α : Type} {s s' : Ertc}

/-! ## Two digits in a byte -/

/-- The loop of `ERTC_ByteToBcd2`. -/
def byteToBcd2Loop (bcdhigh value : BitVec 8) : BitVec 8 :=
  if 10 ≤ value then byteToBcd2Loop (bcdhigh + 1) (value - 10) else bcdhigh <<< 4 ||| value
termination_by value.toNat
decreasing_by
  rename_i h
  have hle : 10 ≤ value.toNat := h
  have hsub : (value - 10).toNat = value.toNat - 10 := BitVec.toNat_sub_of_le h
  omega

theorem byteToBcd2Loop_eq (bcdhigh value : BitVec 8) :
    byteToBcd2Loop bcdhigh value =
      (bcdhigh + BitVec.ofNat 8 (value.toNat / 10)) <<< 4 ||| BitVec.ofNat 8 (value.toNat % 10) := by
  fun_induction byteToBcd2Loop bcdhigh value with
  | case1 bcdhigh value h ih =>
      have hle : 10 ≤ value.toNat := h
      have hsub : (value - 10).toNat = value.toNat - 10 := BitVec.toNat_sub_of_le h
      have hdiv : value.toNat / 10 = (value.toNat - 10) / 10 + 1 := by omega
      have hmod : (value.toNat - 10) % 10 = value.toNat % 10 := by omega
      rw [ih, hsub, hmod, hdiv, BitVec.ofNat_add, BitVec.add_assoc, BitVec.add_comm 1]
      rfl
  | case2 bcdhigh value h =>
      have hlt : value.toNat < 10 := Nat.lt_of_not_le h
      rw [Nat.div_eq_of_lt hlt, Nat.mod_eq_of_lt hlt]
      simp

theorem ertcByteToBcd2_loop (value : BitVec 8) : byteToBcd2Loop 0 value = ertcByteToBcd2 value := by
  simp [byteToBcd2Loop_eq, ertcByteToBcd2]

/-- The number that a byte stands for in a format. -/
def ErtcFormat.toByte : ErtcFormat → BitVec 8 → BitVec 8
  | bin, value => value
  | bcd, value => ertcBcd2ToByte value

/-- The byte of format `g` for the number that `value` is in format `f`, digit by digit. -/
def ErtcFormat.convert (f g : ErtcFormat) (value : BitVec 8) : BitVec 8 :=
  match f, g with
  | bin, bcd => BitVec.ofNat 8 (value.toNat / 10 * 16 + value.toNat % 10)
  | bcd, bin => BitVec.ofNat 8 (value.toNat / 16 * 10 + value.toNat % 16)
  | _, _ => value

theorem ertcByteToBcd2_digits : ∀ value : BitVec 8, value ≤ 99 →
    ertcByteToBcd2 value = BitVec.ofNat 8 (value.toNat / 10 * 16 + value.toNat % 10) ∧
      ertcBcd2ToByte (ertcByteToBcd2 value) = value := by
  decide +kernel

theorem ertcBcd2ToByte_digits : ∀ value : BitVec 8,
    ertcBcd2ToByte value = BitVec.ofNat 8 (value.toNat / 16 * 10 + value.toNat % 16) := by
  decide +kernel

/-- What is written in one format is returned in the other as the same number. -/
theorem ErtcFormat.fromBcd_toBcd {f : ErtcFormat} {value : BitVec 8} (h : f.toByte value ≤ 99)
    (g : ErtcFormat) : g.fromBcd (f.toBcd value) = f.convert g value := by
  cases f with
  | bin =>
      obtain ⟨hdigits, hback⟩ := ertcByteToBcd2_digits value h
      cases g with
      | bin => exact hback
      | bcd => exact hdigits
  | bcd =>
      cases g with
      | bin => exact ertcBcd2ToByte_digits value
      | bcd => rfl

/-! ## What the setters check -/

def isErtcHour12 (hour : BitVec 8) : Bool := 0 < hour ∧ hour ≤ 12

def isErtcHour24 (hour : BitVec 8) : Bool := hour ≤ 23

/-- Minutes and seconds. -/
def isErtcMinutes (minutes : BitVec 8) : Bool := minutes ≤ 59

def isErtcH12 (ampm : BitVec 8) : Bool := ampm = 0x00 ∨ ampm = 0x40

def isErtcYear (year : BitVec 8) : Bool := year ≤ 99

def isErtcMonth (month : BitVec 8) : Bool := 1 ≤ month ∧ month ≤ 12

def isErtcDate (date : BitVec 8) : Bool := 1 ≤ date ∧ date ≤ 31

def isErtcWeek (week : BitVec 8) : Bool := 1 ≤ week ∧ week ≤ 7

def isAlarmMask (mask : Word) : Bool := mask &&& 0x7F7F7F7F = 0

def isErtcAlarmDateWeekSel (sel : Word) : Bool := sel = 0x00000000 ∨ sel = 0x40000000

def isErtcAlarm (alarm : Word) : Bool := alarm = 0x00000100 ∨ alarm = 0x00000200

/-- The time as `ERTC_SetTimeValue` and `ERTC_SetAlarmValue` leave it in the structure. -/
def ErtcTime.left (ctrl : Word) (t : ErtcTime) : ErtcTime :=
  if ctrl &&& ctrlHfm ≠ 0 then t else { t with ampm := 0x00 }

/-- The date as `ERTC_SetDateValue` leaves it in the structure. -/
def ErtcDate.left (format : ErtcFormat) (d : ErtcDate) : ErtcDate :=
  if format = .bin ∧ d.month &&& 0x10 = 0x10 then
    { d with month := (d.month &&& ~~~0x10) + 0x0A } else d

def ErtcAlarm.left (ctrl : Word) (a : ErtcAlarm) : ErtcAlarm :=
  { a with alarmTime := a.alarmTime.left ctrl }

structure ErtcTime.Accepted (ctrl : Word) (format : ErtcFormat) (t : ErtcTime) : Prop where
  hours : if ctrl &&& ctrlHfm ≠ 0 then isErtcHour12 (format.toByte t.hours) ∧ isErtcH12 t.ampm
    else isErtcHour24 (format.toByte t.hours)
  minutes : isErtcMinutes (format.toByte t.minutes)
  seconds : isErtcMinutes (format.toByte t.seconds)

structure ErtcDate.Accepted (format : ErtcFormat) (d : ErtcDate) : Prop where
  year : isErtcYear (format.toByte d.year)
  month : isErtcMonth (format.toByte (d.left format).month)
  date : isErtcDate (format.toByte d.date)
  weekDay : isErtcWeek d.weekDay

structure ErtcAlarm.Accepted (ctrl : Word) (format : ErtcFormat) (a : ErtcAlarm) : Prop where
  alarmTime : a.alarmTime.Accepted ctrl format
  alarmMask : isAlarmMask a.alarmMask
  alarmDateWeekSel : isErtcAlarmDateWeekSel a.alarmDateWeekSel
  alarmDateWeek : if a.alarmDateWeekSel = 0 then isErtcDate (format.toByte a.alarmDateWeek)
    else isErtcWeek (format.toByte a.alarmDateWeek)

/-- Each field in format `g` that `t` has in format `f`. -/
def ErtcTime.convert (f g : ErtcFormat) (t : ErtcTime) : ErtcTime where
  hours := f.convert g t.hours
  minutes := f.convert g t.minutes
  seconds := f.convert g t.seconds
  ampm := t.ampm

def ErtcDate.convert (f g : ErtcFormat) (d : ErtcDate) : ErtcDate where
  weekDay := d.weekDay
  month := f.convert g d.month
  date := f.convert g d.date
  year := f.convert g d.year

def ErtcAlarm.convert (f g : ErtcFormat) (a : ErtcAlarm) : ErtcAlarm where
  alarmTime := a.alarmTime.convert f g
  alarmMask := a.alarmMask
  alarmDateWeekSel := a.alarmDateWeekSel
  alarmDateWeek := f.convert g a.alarmDateWeek

/-! ## What is accepted fits its register -/

/-- The digits of a number take no more bits than those of the greatest that is accepted. -/
theorem ErtcFormat.toBcd_fits (f : ErtcFormat) : ∀ value : BitVec 8,
    f.toBcd value &&& 0xFF = f.toBcd value ∧
    (f.toByte value ≤ 59 → f.toBcd value &&& 0x7F = f.toBcd value) ∧
    (f.toByte value ≤ 31 → f.toBcd value &&& 0x3F = f.toBcd value) ∧
    (f.toByte value ≤ 12 → f.toBcd value &&& 0x1F = f.toBcd value) := by
  cases f <;> decide +kernel

/-- The fields of the time, in the register and in an alarm. -/
def ErtcTime.parts (f : ErtcFormat) (t : ErtcTime) : List (Word × Word) :=
  [(0x003F0000, (f.toBcd t.hours).setWidth 32 <<< 16),
    (0x00007F00, (f.toBcd t.minutes).setWidth 32 <<< 8),
    (0x0000007F, (f.toBcd t.seconds).setWidth 32), (0x00400000, t.ampm.setWidth 32 <<< 16)]

def ErtcDate.parts (f : ErtcFormat) (d : ErtcDate) : List (Word × Word) :=
  [(0x00FF0000, (f.toBcd d.year).setWidth 32 <<< 16),
    (0x00001F00, (f.toBcd d.month).setWidth 32 <<< 8),
    (0x0000003F, (f.toBcd d.date).setWidth 32), (0x0000E000, d.weekDay.setWidth 32 <<< 13)]

def ErtcAlarm.parts (f : ErtcFormat) (a : ErtcAlarm) : List (Word × Word) :=
  (0x3F000000, (f.toBcd a.alarmDateWeek).setWidth 32 <<< 24) ::
    (0x40000000, a.alarmDateWeekSel) :: (0x80808080, a.alarmMask) :: a.alarmTime.parts f

theorem ErtcTime.word_eq (f : ErtcFormat) (t : ErtcTime) : t.word f = Mask.pack (t.parts f) := by
  simp [ErtcTime.word, ErtcTime.parts, Mask.pack, BitVec.or_assoc]

theorem ErtcDate.word_eq (f : ErtcFormat) (d : ErtcDate) : d.word f = Mask.pack (d.parts f) := by
  simp [ErtcDate.word, ErtcDate.parts, Mask.pack, BitVec.or_assoc]

theorem ErtcAlarm.word_eq (f : ErtcFormat) (a : ErtcAlarm) : a.word f = Mask.pack (a.parts f) := by
  rw [ErtcAlarm.word, ErtcTime.word_eq, ErtcAlarm.parts, Mask.pack_cons, Mask.pack_cons,
    Mask.pack_cons]
  simp only [BitVec.or_assoc]
  rw [BitVec.or_comm]
  simp only [BitVec.or_assoc]

/-- What the checks of a time say in numbers, once it is put right. -/
structure ErtcTime.InRange (f : ErtcFormat) (t : ErtcTime) : Prop where
  hours : f.toByte t.hours ≤ 31
  minutes : f.toByte t.minutes ≤ 59
  seconds : f.toByte t.seconds ≤ 59
  ampm : t.ampm &&& 0x40 = t.ampm

theorem ErtcTime.Accepted.inRange {ctrl : Word} {f : ErtcFormat} {t : ErtcTime}
    (h : t.Accepted ctrl f) : (t.left ctrl).InRange f := by
  obtain ⟨hhours, hminutes, hseconds⟩ := h
  simp only [isErtcMinutes, decide_eq_true_eq] at hminutes hseconds
  unfold ErtcTime.left
  by_cases hhfm : ctrl &&& ctrlHfm ≠ 0
  · rw [if_pos hhfm] at hhours ⊢
    simp only [isErtcHour12, isErtcH12, decide_eq_true_eq] at hhours
    obtain ⟨⟨-, hle⟩, hampm⟩ := hhours
    refine ⟨BitVec.le_trans hle (by decide), hminutes, hseconds, ?_⟩
    rcases hampm with hampm | hampm
    · rw [hampm]
      decide
    · rw [hampm]
      decide
  · rw [if_neg hhfm] at hhours ⊢
    simp only [isErtcHour24, decide_eq_true_eq] at hhours
    exact ⟨BitVec.le_trans hhours (by decide), hminutes, hseconds, BitVec.zero_and⟩

theorem ErtcTime.InRange.within {f : ErtcFormat} {t : ErtcTime} (h : t.InRange f) :
    ∀ p ∈ t.parts f, p.2 &&& p.1 = p.2 := by
  simp only [ErtcTime.parts, List.forall_mem_cons, List.not_mem_nil, false_imp_iff, implies_true,
    and_true]
  exact ⟨Mask.shifted_and_shifted ((f.toBcd_fits _).2.2.1 h.hours) 16,
    Mask.shifted_and_shifted ((f.toBcd_fits _).2.1 h.minutes) 8,
    Mask.widened_and_widened ((f.toBcd_fits _).2.1 h.seconds),
    Mask.shifted_and_shifted h.ampm 16⟩

theorem ErtcTime.InRange.packed {f : ErtcFormat} {t : ErtcTime} (h : t.InRange f) :
    Mask.Packed (t.parts f) :=
  ⟨by simp only [ErtcTime.parts, List.map]; decide, h.within⟩

/-- The same of a date. -/
structure ErtcDate.InRange (f : ErtcFormat) (d : ErtcDate) : Prop where
  year : f.toByte d.year ≤ 99
  month : f.toByte d.month ≤ 12
  date : f.toByte d.date ≤ 31
  weekDay : d.weekDay &&& 0x07 = d.weekDay

theorem isErtcWeek_fits : ∀ week : BitVec 8, isErtcWeek week → week &&& 0x07 = week := by
  decide +kernel

theorem ErtcDate.left_eq (f : ErtcFormat) (d : ErtcDate) :
    d.left f = { d with month := (d.left f).month } := by
  unfold ErtcDate.left
  split <;> rfl

theorem ErtcDate.Accepted.inRange {f : ErtcFormat} {d : ErtcDate} (h : d.Accepted f) :
    (d.left f).InRange f := by
  obtain ⟨hyear, hmonth, hdate, hweekDay⟩ := h
  simp only [isErtcYear, isErtcMonth, isErtcDate, decide_eq_true_eq] at hyear hmonth hdate
  rw [ErtcDate.left_eq]
  exact ⟨hyear, hmonth.2, hdate.2, isErtcWeek_fits _ hweekDay⟩

theorem ErtcDate.InRange.packed {f : ErtcFormat} {d : ErtcDate} (h : d.InRange f) :
    Mask.Packed (d.parts f) := by
  refine ⟨by simp only [ErtcDate.parts, List.map]; decide, ?_⟩
  simp only [ErtcDate.parts, List.forall_mem_cons, List.not_mem_nil, false_imp_iff, implies_true,
    and_true]
  exact ⟨Mask.shifted_and_shifted (f.toBcd_fits _).1 16,
    Mask.shifted_and_shifted ((f.toBcd_fits _).2.2.2 h.month) 8,
    Mask.widened_and_widened ((f.toBcd_fits _).2.2.1 h.date),
    Mask.shifted_and_shifted h.weekDay 13⟩

structure ErtcAlarm.InRange (f : ErtcFormat) (a : ErtcAlarm) : Prop where
  alarmTime : a.alarmTime.InRange f
  alarmMask : a.alarmMask &&& 0x80808080 = a.alarmMask
  alarmDateWeekSel : a.alarmDateWeekSel &&& 0x40000000 = a.alarmDateWeekSel
  alarmDateWeek : f.toByte a.alarmDateWeek ≤ 31

theorem ErtcAlarm.Accepted.inRange {ctrl : Word} {f : ErtcFormat} {a : ErtcAlarm}
    (h : a.Accepted ctrl f) : (a.left ctrl).InRange f := by
  obtain ⟨htime, hmask, hsel, hdateWeek⟩ := h
  simp only [isAlarmMask, isErtcAlarmDateWeekSel, decide_eq_true_eq] at hmask hsel
  refine ⟨htime.inRange, Mask.and_eq_self hmask, ?_, ?_⟩
  · rcases hsel with hsel | hsel
    · exact hsel ▸ BitVec.zero_and
    · exact hsel ▸ BitVec.and_self
  · -- a weekday is a smaller number than a day of the month can be
    simp only [isErtcDate, isErtcWeek] at hdateWeek
    split at hdateWeek
    · simp only [decide_eq_true_eq] at hdateWeek
      exact hdateWeek.2
    · simp only [decide_eq_true_eq] at hdateWeek
      exact BitVec.le_trans hdateWeek.2 (by decide)

theorem ErtcAlarm.InRange.packed {f : ErtcFormat} {a : ErtcAlarm} (h : a.InRange f) :
    Mask.Packed (a.parts f) := by
  refine ⟨by simp only [ErtcAlarm.parts, ErtcTime.parts, List.map]; decide, ?_⟩
  simp only [ErtcAlarm.parts, List.forall_mem_cons]
  exact ⟨Mask.shifted_and_shifted ((f.toBcd_fits _).2.2.1 h.alarmDateWeek) 24, h.alarmDateWeekSel,
    h.alarmMask, h.alarmTime.within⟩

/-! ## What is read from a register -/

/-- `w` shows each part through its mask. -/
def Shown (w : Word) (parts : List (Word × Word)) : Prop := ∀ p ∈ parts, w &&& p.1 = p.2

/-- Bits that no part has are read as zero, whether or not they were written. -/
theorem shown_of_packed {parts : List (Word × Word)} (h : Mask.Packed parts) {reserved : Word}
    (hreserved : ∀ p ∈ parts, reserved &&& p.1 = p.1) :
    Shown ((Mask.pack parts &&& reserved) &&& reserved) parts := by
  intro p hp
  rw [Mask.and_and_of_subset _ (hreserved p hp), Mask.and_and_of_subset _ (hreserved p hp),
    h.unpack hp]

/-- A byte that `w` shows from bit `k` on is returned as its number. -/
theorem fromBcd_shown {f : ErtcFormat} {value : BitVec 8} {w mask : Word} {k : Nat}
    (hw : w &&& mask = (f.toBcd value).setWidth 32 <<< k) (hk : 8 + k ≤ 32)
    (h : f.toByte value ≤ 99) (g : ErtcFormat) :
    g.fromBcd (((w &&& mask) >>> k).setWidth 8) = f.convert g value := by
  rw [hw, Mask.setWidth_shifted _ hk, ErtcFormat.fromBcd_toBcd h]

/-- And one that it shows from the lowest bit on. -/
theorem fromBcd_shown_low {f : ErtcFormat} {value : BitVec 8} {w mask : Word}
    (hw : w &&& mask = (f.toBcd value).setWidth 32) (h : f.toByte value ≤ 99) (g : ErtcFormat) :
    g.fromBcd ((w &&& mask).setWidth 8) = f.convert g value := by
  rw [hw, BitVec.setWidth_setWidth_of_le _ (by decide), BitVec.setWidth_eq,
    ErtcFormat.fromBcd_toBcd h]

/-- The time in `TIME` and in an alarm register. -/
def ErtcTime.ofWord (g : ErtcFormat) (w : Word) : ErtcTime where
  hours := g.fromBcd (((w &&& 0x003F0000) >>> 16).setWidth 8)
  minutes := g.fromBcd (((w &&& 0x00007F00) >>> 8).setWidth 8)
  seconds := g.fromBcd ((w &&& 0x0000007F).setWidth 8)
  ampm := ((w &&& 0x00400000) >>> 16).setWidth 8

theorem ErtcTime.ofWord_eq {f : ErtcFormat} {t : ErtcTime} {w : Word} (h : t.InRange f)
    (hw : Shown w (t.parts f)) (g : ErtcFormat) : ErtcTime.ofWord g w = t.convert f g := by
  simp only [Shown, ErtcTime.parts, List.forall_mem_cons] at hw
  obtain ⟨hhours, hminutes, hseconds, hampm, -⟩ := hw
  rw [ErtcTime.ofWord, ErtcTime.convert,
    fromBcd_shown hhours (by decide) (BitVec.le_trans h.hours (by decide)),
    fromBcd_shown hminutes (by decide) (BitVec.le_trans h.minutes (by decide)),
    fromBcd_shown_low hseconds (BitVec.le_trans h.seconds (by decide)), hampm,
    Mask.setWidth_shifted _ (by decide)]

/-- The date in `DATE`. -/
def ErtcDate.ofWord (g : ErtcFormat) (w : Word) : ErtcDate where
  weekDay := ((w &&& 0x0000E000) >>> 13).setWidth 8
  month := g.fromBcd (((w &&& 0x00001F00) >>> 8).setWidth 8)
  date := g.fromBcd ((w &&& 0x0000003F).setWidth 8)
  year := g.fromBcd (((w &&& 0x00FF0000) >>> 16).setWidth 8)

theorem ErtcDate.ofWord_eq {f : ErtcFormat} {d : ErtcDate} {w : Word} (h : d.InRange f)
    (hw : Shown w (d.parts f)) (g : ErtcFormat) : ErtcDate.ofWord g w = d.convert f g := by
  simp only [Shown, ErtcDate.parts, List.forall_mem_cons] at hw
  obtain ⟨hyear, hmonth, hdate, hweekDay, -⟩ := hw
  rw [ErtcDate.ofWord, ErtcDate.convert, hweekDay, Mask.setWidth_shifted _ (by decide),
    fromBcd_shown hmonth (by decide) (BitVec.le_trans h.month (by decide)),
    fromBcd_shown_low hdate (BitVec.le_trans h.date (by decide)),
    fromBcd_shown hyear (by decide) h.year]

theorem ertcGetTimeValue_eq {f : ErtcFormat} {t : ErtcTime} (h : t.InRange f)
    (hs : s.regs .time = t.word f &&& ertcTimeReservedMask) (g : ErtcFormat) :
    ((ertcGetTimeValue g).exec s).1 = t.convert f g := by
  have hshown : Shown (s.regs .time &&& ertcTimeReservedMask) (t.parts f) := by
    rw [hs, ErtcTime.word_eq]
    refine shown_of_packed h.packed ?_
    simp only [ErtcTime.parts, List.forall_mem_cons, List.not_mem_nil, false_implies, implies_true,
      and_true]
    decide
  exact ErtcTime.ofWord_eq h hshown g

theorem ertcGetDateValue_eq {f : ErtcFormat} {d : ErtcDate} (h : d.InRange f)
    (hs : s.regs .date = d.word f &&& ertcDateReservedMask) (g : ErtcFormat) :
    ((ertcGetDateValue g).exec s).1 = d.convert f g := by
  have hshown : Shown (s.regs .date &&& ertcDateReservedMask) (d.parts f) := by
    rw [hs, ErtcDate.word_eq]
    refine shown_of_packed h.packed ?_
    simp only [ErtcDate.parts, List.forall_mem_cons, List.not_mem_nil, false_implies, implies_true,
      and_true]
    decide
  exact ErtcDate.ofWord_eq h hshown g

/-- The register of an alarm. -/
def alarmReg (alarm : Word) : ErtcReg := if alarm = ertcAlA then .ala else .alb

theorem ertcGetAlarmValue_eq {f : ErtcFormat} {alarm : Word} {a : ErtcAlarm} (h : a.InRange f)
    (hs : s.regs (alarmReg alarm) = a.word f) (g : ErtcFormat) :
    ((ertcGetAlarmValue g alarm).exec s).1 = a.convert f g := by
  have hshown : Shown (s.regs (alarmReg alarm)) (a.parts f) := by
    intro p hp
    rw [hs, ErtcAlarm.word_eq, h.packed.unpack hp]
  simp only [Shown, ErtcAlarm.parts, List.forall_mem_cons] at hshown
  obtain ⟨hdateWeek, hsel, hmask, htime⟩ := hshown
  have hexec : ((ertcGetAlarmValue g alarm).exec s).1 =
      { alarmTime := ErtcTime.ofWord g (s.regs (alarmReg alarm))
        alarmMask := s.regs (alarmReg alarm) &&& 0x80808080
        alarmDateWeekSel := s.regs (alarmReg alarm) &&& 0x40000000
        alarmDateWeek :=
          g.fromBcd (((s.regs (alarmReg alarm) &&& 0x3F000000) >>> 24).setWidth 8) } := rfl
  rw [hexec, ErtcAlarm.convert, ErtcTime.ofWord_eq h.alarmTime htime, hmask, hsel,
    fromBcd_shown hdateWeek (by decide) (BitVec.le_trans h.alarmDateWeek (by decide))]

/-! ## What the setters store -/

/-- No register but `ISTS` and the protection changes. -/
def KeepsRegs (s s' : Ertc) : Prop := s'.regs = s.regs

theorem keepsRegs_exec {p : ErtcProg α} (hp : p.Accesses KeepsRegs) (s : Ertc) :
    (p.exec s).2.regs = s.regs :=
  Prog.exec_of_accesses hp (fun _ => rfl) (fun h h' => h'.trans h) s

theorem readIsts_keepsRegs : readIsts.Accesses KeepsRegs := ⟨fun _ => rfl, fun _ => trivial⟩

theorem writeIsts_keepsRegs (v : Word) : (writeIsts v).Accesses KeepsRegs :=
  ⟨fun _ => rfl, fun _ => trivial⟩

theorem istsAnd_keepsRegs (mask : Word) : (istsAnd mask).Accesses KeepsRegs :=
  ⟨fun _ => rfl, fun _ => writeIsts_keepsRegs _⟩

theorem waitSet_keepsRegs (flag : Word) (tmrout : Nat) :
    (waitSet flag tmrout).Accesses KeepsRegs :=
  waitSet_accesses readIsts_keepsRegs flag tmrout

theorem checkSet_keepsRegs (flag : Word) : (checkSet flag).Accesses KeepsRegs :=
  Prog.accesses_bind readIsts_keepsRegs fun _ => trivial

theorem ertcExitInitMode_keepsRegs : ertcExitInitMode.Accesses KeepsRegs := istsAnd_keepsRegs _

theorem writeWpr_keepsRegs (k : BitVec 8) : (writeWpr k).Accesses KeepsRegs :=
  ⟨fun _ => rfl, fun _ => trivial⟩

theorem unprotected_keepsRegs {body : ErtcProg α} (hbody : body.Accesses KeepsRegs) :
    (unprotected body).Accesses KeepsRegs :=
  Prog.accesses_bind (writeWpr_keepsRegs _) fun _ =>
    Prog.accesses_bind (writeWpr_keepsRegs _) fun _ => Prog.accesses_bind hbody fun _ =>
      Prog.accesses_bind (writeWpr_keepsRegs _) fun _ => trivial

theorem ertcWaitForSynchro_keepsRegs : ertcWaitForSynchro.Accesses KeepsRegs :=
  unprotected_keepsRegs (Prog.accesses_bind (istsAnd_keepsRegs _) fun _ =>
    Prog.accesses_bind (waitSet_keepsRegs _ _) fun _ => checkSet_keepsRegs _)

theorem writeReg_stored (r : ErtcReg) (v : Word) (hoff : s.protection = .off) :
    ((writeReg r v).exec s).2.regs r = v := by
  simp [writeReg, hoff]

theorem inInitMode_stored {r : ErtcReg} {v : Word} (hoff : s.protection = .off)
    (h : ((inInitMode (writeReg r v)).exec s).1 = .success) :
    ((inInitMode (writeReg r v)).exec s).2.regs r = v := by
  have hentered := (ertcEnterInitMode_exec hoff).2
  simp only [inInitMode, Prog.exec_bind] at h ⊢
  split
  · rename_i herror
    simp [herror] at h
  · simp only [Prog.exec_bind, Prog.pure_eq, Prog.exec_ret]
    rw [keepsRegs_exec ertcExitInitMode_keepsRegs]
    exact writeReg_stored r v hentered.protection

/-- A calendar register holds what was written when the call returns `SUCCESS`. -/
theorem setCalendar_stored {r : ErtcReg} {v : Word} (hoff : s.protection = .off)
    (h : ((setCalendar r v).exec s).1 = .success) : ((setCalendar r v).exec s).2.regs r = v := by
  simp only [setCalendar, Prog.exec_bind] at h ⊢
  split
  · rename_i herror
    simp [herror] at h
  · rename_i herror
    have hstored := inInitMode_stored hoff (ErrorStatus.ne_error.mp herror)
    simp only [Prog.exec_bind]
    split
    · rw [keepsRegs_exec ertcWaitForSynchro_keepsRegs]
      exact hstored
    · exact hstored

theorem unprotected_stored {r : ErtcReg} {v : Word} (hs : s.protection ≠ .keyed)
    (h : ((unprotected (setCalendar r v)).exec s).1 = .success) :
    ((unprotected (setCalendar r v)).exec s).2.regs r = v := by
  rw [unprotected_exec] at h ⊢
  exact setCalendar_stored (Ertc.unlocked_off hs) h

/-! ## Round trips -/

/-- An accepted time that was stored is read back in format `g`, as long as `TIME` does not change. -/
def TimeRoundTrip (s : Ertc) (f g : ErtcFormat) (t : ErtcTime) : Prop :=
  t.Accepted (s.regs .ctrl) f → ((ertcSetTimeValue f t).exec s).1 = .success →
    ∀ s' : Ertc, s'.regs .time = ((ertcSetTimeValue f t).exec s).2.regs .time →
      ((ertcGetTimeValue g).exec s').1 = (t.left (s.regs .ctrl)).convert f g

def DateRoundTrip (s : Ertc) (f g : ErtcFormat) (d : ErtcDate) : Prop :=
  d.Accepted f → ((ertcSetDateValue f d).exec s).1 = .success →
    ∀ s' : Ertc, s'.regs .date = ((ertcSetDateValue f d).exec s).2.regs .date →
      ((ertcGetDateValue g).exec s').1 = (d.left f).convert f g

def AlarmRoundTrip (s : Ertc) (f g : ErtcFormat) (alarm : Word) (a : ErtcAlarm) : Prop :=
  isErtcAlarm alarm → a.Accepted (s.regs .ctrl) f →
    ∀ s' : Ertc, s'.regs (alarmReg alarm) =
        ((ertcSetAlarmValue f alarm a).exec s).2.regs (alarmReg alarm) →
      ((ertcGetAlarmValue g alarm).exec s').1 = (a.left (s.regs .ctrl)).convert f g

theorem timeRoundTrip (hs : s.protection ≠ .keyed) (f g : ErtcFormat) (t : ErtcTime) :
    TimeRoundTrip s f g t := by
  intro haccepted hsuccess s' hs'
  have hexec : (ertcSetTimeValue f t).exec s = (unprotected (setCalendar .time
      ((t.left (s.regs .ctrl)).word f &&& ertcTimeReservedMask))).exec s := rfl
  rw [hexec] at hsuccess hs'
  exact ertcGetTimeValue_eq haccepted.inRange (hs'.trans (unprotected_stored hs hsuccess)) g

theorem dateRoundTrip (hs : s.protection ≠ .keyed) (f g : ErtcFormat) (d : ErtcDate) :
    DateRoundTrip s f g d := by
  intro haccepted hsuccess s' hs'
  exact ertcGetDateValue_eq haccepted.inRange (hs'.trans (unprotected_stored hs hsuccess)) g

theorem alarmRoundTrip (hs : s.protection ≠ .keyed) (f g : ErtcFormat) (alarm : Word)
    (a : ErtcAlarm) : AlarmRoundTrip s f g alarm a := by
  intro _ haccepted s' hs'
  have hexec : (ertcSetAlarmValue f alarm a).exec s =
      (unprotected (writeReg (alarmReg alarm) ((a.left (s.regs .ctrl)).word f))).exec s := rfl
  rw [hexec, unprotected_exec] at hs'
  exact ertcGetAlarmValue_eq haccepted.inRange
    (hs'.trans (writeReg_stored _ _ (Ertc.unlocked_off hs))) g

/-- **What a setter accepted and stored is read back as the structure that it left: in the same format
    field by field, in the other one as the same numbers.** -/
theorem ertc_roundTrip (hs : s.protection ≠ .keyed) (f g : ErtcFormat) :
    (∀ t, TimeRoundTrip s f g t) ∧ (∀ d, DateRoundTrip s f g d) ∧
      ∀ alarm a, AlarmRoundTrip s f g alarm a :=
  ⟨timeRoundTrip hs f g, dateRoundTrip hs f g, alarmRoundTrip hs f g⟩

/-- The initialization mode is on, and the shadow registers are bypassed. -/
def answeringErtc (ctrl : Word) : Ertc :=
  { idleErtc with
    regs := fun _ => ctrl ||| ctrlBypshdw
    answers := fun _ => istsInitf }

/-- Two seconds to midnight, in the 12-hour format. -/
def lateEvening : ErtcTime where
  hours := 11
  minutes := 59
  seconds := 58
  ampm := 0x40

theorem lateEvening_accepted : lateEvening.Accepted (ctrlHfm ||| ctrlBypshdw) .bin := by
  constructor <;> decide

/-- It was set in binary and is read in BCD. -/
theorem ertc_roundTrip_evening :
    ((ertcGetTimeValue .bcd).exec
        ((ertcSetTimeValue .bin lateEvening).exec (answeringErtc ctrlHfm)).2).1 =
      { hours := 0x11, minutes := 0x59, seconds := 0x58, ampm := 0x40 } :=
  (ertc_roundTrip (s := answeringErtc ctrlHfm) (by decide) .bin .bcd).1 lateEvening
    lateEvening_accepted (by decide) _ rfl

/-- An accepted time or date that was stored is read back as it was given. -/
def TimeReadBack (s : Ertc) (f g : ErtcFormat) (t : ErtcTime) : Prop :=
  t.Accepted (s.regs .ctrl) f → ((ertcSetTimeValue f t).exec s).1 = .success →
    ∀ s' : Ertc, s'.regs .time = ((ertcSetTimeValue f t).exec s).2.regs .time →
      ((ertcGetTimeValue g).exec s').1 = t.convert f g

def DateReadBack (s : Ertc) (f g : ErtcFormat) (d : ErtcDate) : Prop :=
  d.Accepted f → ((ertcSetDateValue f d).exec s).1 = .success →
    ∀ s' : Ertc, s'.regs .date = ((ertcSetDateValue f d).exec s).2.regs .date →
      ((ertcGetDateValue g).exec s').1 = d.convert f g

theorem lateEvening_accepted_24 : lateEvening.Accepted ctrlBypshdw .bin := by
  constructor <;> decide

/-- The month is the constant for October, which is in BCD. -/
def october : ErtcDate where
  weekDay := 1
  month := 0x10
  date := 1
  year := 18

theorem october_accepted : october.Accepted .bin := by
  constructor <;> decide

/-- In the 24-hour format the afternoon is accepted, and not read back; in binary October is accepted, and
    read back as 10. -/
theorem ertc_roundTrip_fails :
    (¬ ∀ (s : Ertc) (f g : ErtcFormat) (t : ErtcTime),
      s.protection ≠ .keyed → TimeReadBack s f g t) ∧
    ¬ ∀ (s : Ertc) (f g : ErtcFormat) (d : ErtcDate),
      s.protection ≠ .keyed → DateReadBack s f g d := by
  refine ⟨fun h => ?_, fun h => ?_⟩
  · have hread := h (answeringErtc 0) .bin .bin lateEvening (by decide) lateEvening_accepted_24
      (by decide) _ rfl
    exact absurd (congrArg ErtcTime.ampm hread) (by decide)
  · have hread := h (answeringErtc 0) .bin .bin october (by decide) october_accepted (by decide) _ rfl
    exact absurd (congrArg ErtcDate.month hread) (by decide)

end At32
