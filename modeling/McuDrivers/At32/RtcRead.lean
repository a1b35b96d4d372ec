import McuDrivers.At32.Rtc
import McuDrivers.Library.Schedule

set_option autoImplicit false

/-! # AT32F4xx: reading the counter and the divider of the RTC

`RTC_GetCounter` and `RTC_GetDivider` read a value in two halves, and the clock may tick between the two
reads. If the upper half changes in between, the value put together from the halves is off by so many
times 65536 ticks, and the registers held it only if the call leaves the clock that much time, before or
after. -/

namespace At32

/-! ## The functions -/

def rtcGetCounter : RtcProg Word := do
  let tmp ← readRtc .cntl
  let cnth ← readRtc .cnth
  return cnth.setWidth 32 <<< 16 ||| tmp.setWidth 32

def rtcGetDivider : RtcProg Word := do
  let divcnth ← readRtc .divcnth
  let divcntl ← readRtc .divcntl
  return (divcnth.setWidth 32 &&& 0x000F) <<< 16 ||| divcntl.setWidth 32

/-! ## The clock -/

def Rtc.counter (s : Rtc) : Word := s.regs .cnth ++ s.regs .cntl

def Rtc.divider (s : Rtc) : BitVec 20 := (s.regs .divcnth).setWidth 4 ++ s.regs .divcntl

/-- What the divider is loaded with when it has come down to 0. -/
def Rtc.reload (s : Rtc) : BitVec 20 := (s.regs .divh).setWidth 4 ++ s.regs .divl

inductive RtcTick where
  | counter
  | divider
  deriving DecidableEq

def nextDivider (reload divider : BitVec 20) : BitVec 20 :=
  if divider = 0 then reload else divider - 1

def Rtc.setPair (high low : RtcReg) (h l : BitVec 16) (s : Rtc) : Rtc :=
  { s with regs := Function.update (Function.update s.regs high h) low l }

def Rtc.tick : RtcTick → Rtc → Rtc
  | .counter, s =>
      let v := s.counter + 1
      s.setPair .cnth .cntl (v.extractLsb' 16 16) (v.extractLsb' 0 16)
  | .divider, s =>
      let v := nextDivider s.reload s.divider
      s.setPair .divcnth .divcntl ((v.extractLsb' 16 4).setWidth 16) (v.extractLsb' 0 16)

/-! ## Halves -/

/-- Of `DIVCNTH` only four bits are read. -/
theorem divcnth_masked (h : BitVec 16) :
    h.setWidth 32 &&& 0x000F = (h.setWidth 4).setWidth 32 := by
  have hmask : (0x000F : Word) = (BitVec.allOnes 4).setWidth 32 := by decide
  rw [hmask]
  refine BitVec.eq_of_getLsbD_eq fun i hi => ?_
  rw [BitVec.getLsbD_and, BitVec.getLsbD_setWidth, BitVec.getLsbD_setWidth, BitVec.getLsbD_setWidth,
    BitVec.getLsbD_setWidth, BitVec.getLsbD_allOnes]
  simp [hi, Bool.and_comm]

theorem toNat_words {w : Nat} (h : BitVec w) (l : BitVec 16) :
    (h ++ l).toNat = 65536 * h.toNat + l.toNat := by
  have hl := l.isLt
  rw [BitVec.toNat_append, ← Nat.shiftLeft_add_eq_or_of_lt hl, Nat.shiftLeft_eq]
  omega

/-! ## What a tick does -/

theorem tick_counter (e : RtcTick) (s : Rtc) :
    (s.tick e).counter = if e == .counter then s.counter + 1 else s.counter := by
  cases e with
  | counter => exact BitVec.extractLsb'_append_extractLsb'
  | divider => rfl

/-- The divider, and what it is loaded with. -/
def Rtc.division (s : Rtc) : BitVec 20 × BitVec 20 := (s.divider, s.reload)

def nextDivision (p : BitVec 20 × BitVec 20) : BitVec 20 × BitVec 20 := (nextDivider p.2 p.1, p.2)

theorem tick_division (e : RtcTick) (s : Rtc) :
    (s.tick e).division = if e == .divider then nextDivision s.division else s.division := by
  cases e with
  | counter => rfl
  | divider =>
      refine Prod.ext ?_ rfl
      have hnarrow : (((nextDivider s.reload s.divider).extractLsb' 16 4).setWidth 16).setWidth 4 =
          (nextDivider s.reload s.divider).extractLsb' 16 4 := by
        rw [BitVec.setWidth_setWidth_of_le _ (by decide), BitVec.setWidth_eq]
      have hdivider : (s.tick .divider).divider =
          (((nextDivider s.reload s.divider).extractLsb' 16 4).setWidth 16).setWidth 4 ++
            (nextDivider s.reload s.divider).extractLsb' 0 16 := rfl
      rw [hnarrow, BitVec.extractLsb'_append_extractLsb'] at hdivider
      exact hdivider

theorem iterate_nextDivision (reload divider : BitVec 20) (j : Nat) :
    nextDivision^[j] (divider, reload) = ((nextDivider reload)^[j] divider, reload) := by
  induction j generalizing divider with
  | zero => rfl
  | succ j ih => exact ih _

/-! ## The values that the clock passes -/

theorem iterate_succ_counter (c : Word) (j : Nat) : (· + 1)^[j] c = c + BitVec.ofNat 32 j := by
  induction j generalizing c with
  | zero => simp
  | succ j ih =>
      rw [Function.iterate_succ, Function.comp_apply, ih, BitVec.add_assoc]
      congr 1
      bv_omega

/-- The counter comes from `c` to `v` with `n` ticks. -/
theorem exists_counter_iff (c v : Word) (n : Nat) :
    (∃ j, j ≤ n ∧ (· + 1)^[j] c = v) ↔ (v - c).toNat ≤ n := by
  simp only [iterate_succ_counter]
  constructor
  · rintro ⟨j, hj, rfl⟩
    have hj' : (BitVec.ofNat 32 j).toNat ≤ j := by
      rw [BitVec.toNat_ofNat]
      exact Nat.mod_le _ _
    rw [BitVec.add_comm, BitVec.add_sub_cancel]
    omega
  · intro h
    refine ⟨(v - c).toNat, h, ?_⟩
    rw [BitVec.ofNat_toNat, BitVec.setWidth_eq, BitVec.add_comm, BitVec.sub_add_cancel]

/-- The divider comes from `d` to `v` with `n` ticks, before it is loaded again or after that. -/
def DividerPasses (reload d v : BitVec 20) (n : Nat) : Prop :=
  v.toNat ≤ d.toNat ∧ d.toNat ≤ v.toNat + n ∨
    v.toNat ≤ reload.toNat ∧ d.toNat + 1 + reload.toNat ≤ v.toNat + n

theorem exists_iterate_succ {α : Type} (f : α → α) (x v : α) (n : Nat) :
    (∃ j, j ≤ n + 1 ∧ f^[j] x = v) ↔ x = v ∨ ∃ j, j ≤ n ∧ f^[j] (f x) = v := by
  constructor
  · rintro ⟨j, hj, h⟩
    cases j with
    | zero => exact .inl h
    | succ j => exact .inr ⟨j, by omega, h⟩
  · rintro (h | ⟨j, hj, h⟩)
    · exact ⟨0, by omega, h⟩
    · exact ⟨j + 1, by omega, h⟩

theorem exists_divider_iff (reload d v : BitVec 20) (n : Nat) :
    (∃ j, j ≤ n ∧ (nextDivider reload)^[j] d = v) ↔ DividerPasses reload d v n := by
  have hv := v.isLt
  have hreload := reload.isLt
  induction n generalizing d with
  | zero =>
      have hzero : (∃ j, j ≤ 0 ∧ (nextDivider reload)^[j] d = v) ↔ d.toNat = v.toNat := by
        rw [BitVec.toNat_inj]
        simp
      rw [hzero, DividerPasses]
      omega
  | succ n ih =>
      have hrest := ih (nextDivider reload d)
      refine (exists_iterate_succ _ _ _ _).trans ((or_congr_right hrest).trans ?_)
      rw [← BitVec.toNat_inj, nextDivider, DividerPasses, DividerPasses]
      by_cases hd : d = 0
      · rw [if_pos hd, hd]
        have hzero : (0 : BitVec 20).toNat = 0 := rfl
        omega
      · rw [if_neg hd]
        have hpos : d.toNat ≠ 0 := fun h => hd (BitVec.eq_of_toNat_eq h)
        have hpred : (d - 1).toNat = d.toNat - 1 := by
          have hlt := d.isLt
          bv_omega
        omega

/-! ## Reads that are whole -/

/-- The value read is one that the registers held between the start and the end of the call. -/
def HeldCounter (s : Rtc) (before between later : List RtcTick) : Prop :=
  let call := rtcGetCounter.among Rtc.tick [before, between, later] s
  ∃ u ∈ call.2, u.counter = call.1

def HeldDivider (s : Rtc) (before between later : List RtcTick) : Prop :=
  let call := rtcGetDivider.among Rtc.tick [before, between, later] s
  ∃ u ∈ call.2, u.divider.setWidth 32 = call.1

def upperHalf (v : Word) : BitVec 16 := v.extractLsb' 16 16

def lowerHalf (v : Word) : BitVec 16 := v.extractLsb' 0 16

/-- The carries into the upper half with `k` ticks, from `n` ticks after the counter was `c`. -/
def carries (c : Word) (n k : Nat) : Nat := ((c.toNat + n) % 65536 + k) / 65536

/-- From a counter `c`, with `n` ticks before the first read, `k` between the reads and `m` after the
    second: the ticks after the first read make up for the carries between the reads, or the counter
    goes all the way round. -/
def CounterWhole (c : Word) (n k m : Nat) : Prop :=
  65536 * carries c n k ≤ k + m ∨ 2 ^ 32 ≤ n + 65536 * carries c n k

theorem toNat_upperHalf (c : Word) (j : Nat) :
    (upperHalf (c + BitVec.ofNat 32 j)).toNat = (c.toNat + j) / 65536 % 65536 := by
  rw [upperHalf, BitVec.extractLsb'_toNat, BitVec.toNat_add, BitVec.toNat_ofNat, Nat.add_mod_mod,
    Nat.shiftRight_eq_div_pow]
  omega

theorem toNat_lowerHalf (c : Word) (j : Nat) :
    (lowerHalf (c + BitVec.ofNat 32 j)).toNat = (c.toNat + j) % 65536 := by
  rw [lowerHalf, BitVec.extractLsb'_toNat, BitVec.toNat_add, BitVec.toNat_ofNat, Nat.add_mod_mod,
    Nat.shiftRight_zero]
  omega

theorem toNat_counter_sub (c : Word) (n k : Nat) :
    (upperHalf (c + BitVec.ofNat 32 (n + k)) ++ lowerHalf (c + BitVec.ofNat 32 n) - c).toNat =
      (n + 65536 * carries c n k) % 2 ^ 32 := by
  have hupper : (c.toNat + (n + k)) / 65536 = (c.toNat + n) / 65536 + carries c n k := by
    rw [carries]
    omega
  have hc := c.isLt
  rw [BitVec.toNat_sub, toNat_words, toNat_upperHalf, toNat_lowerHalf, hupper]
  generalize carries c n k = K
  generalize hq : (c.toNat + n) / 65536 = q
  have hq' : c.toNat + n = 65536 * q + (c.toNat + n) % 65536 := by omega
  have hmod : 65536 * ((q + K) % 65536) = (65536 * (q + K)) % 2 ^ 32 := by omega
  rw [hmod]
  omega

/-! ## The laps of the divider -/

/-- The ticks of the lap that a divider has counted down from `d` is in after `t` ticks: those since the
    start, or since it was last loaded. -/
def lapTicks (reload d t : Nat) : Nat := if t ≤ d then t else (t - d - 1) % (reload + 1)

theorem lapTicks_succ (reload d t : Nat) :
    lapTicks reload d (t + 1) =
      if lapTicks reload d t = if t ≤ d then d else reload then 0 else lapTicks reload d t + 1 := by
  unfold lapTicks
  by_cases hfirst : t ≤ d
  · rw [if_pos hfirst, if_pos hfirst]
    by_cases hlast : t = d
    · subst hlast
      simp
    · rw [if_pos (by omega), if_neg hlast]
  · rw [if_neg hfirst, if_neg hfirst, if_neg (by omega)]
    have hsub : t + 1 - d - 1 = t - d - 1 + 1 := by omega
    rw [hsub]
    split
    case isTrue hlast => exact Nat.succ_mod_succ_eq_zero_iff.mpr hlast
    case isFalse hmore =>
      have hlt : (t - d - 1) % (reload + 1) < reload + 1 := Nat.mod_lt _ (by omega)
      have hone : 1 % (reload + 1) = 1 := Nat.mod_eq_of_lt (by omega)
      rw [Nat.add_mod, hone, Nat.mod_eq_of_lt (by omega)]

/-- What is left of the lap, and what has been counted down of it. -/
theorem divider_lap (reload d : BitVec 20) (t : Nat) :
    ((nextDivider reload)^[t] d).toNat + lapTicks reload.toNat d.toNat t =
      if t ≤ d.toNat then d.toNat else reload.toNat := by
  induction t with
  | zero => simp [lapTicks]
  | succ t ih =>
      rw [Function.iterate_succ_apply', lapTicks_succ, ← ih]
      have hfirst : t ≤ d.toNat → lapTicks reload.toNat d.toNat t = t := fun hle => if_pos hle
      generalize (nextDivider reload)^[t] d = x at ih ⊢
      rw [nextDivider]
      by_cases hx : x = 0
      · rw [if_pos hx]
        have hzero : x.toNat = 0 := by rw [hx]; rfl
        rw [hzero, Nat.zero_add, if_pos rfl, Nat.add_zero, if_neg]
        intro hle
        rw [hzero, hfirst (by omega), if_pos (by omega)] at ih
        omega
      · rw [if_neg hx]
        have hpos : x.toNat ≠ 0 := fun h => hx (BitVec.eq_of_toNat_eq h)
        have hpred : (x - 1).toNat = x.toNat - 1 := by
          have hlt := x.isLt
          bv_omega
        rw [hpred, if_neg (by omega)]
        split at ih
        case isTrue hle =>
          have htick := hfirst hle
          rw [if_pos (by omega)]
          omega
        case isFalse hgt =>
          rw [if_neg (by omega)]
          omega

/-- After the first lap, the ticks so far are whole laps and the present one. -/
theorem lapTicks_laps {reload d t : Nat} (h : d < t) :
    ∃ laps, t = d + 1 + laps + lapTicks reload d t ∧ (laps = 0 ∨ reload + 1 ≤ laps) := by
  rw [lapTicks, if_neg (by omega)]
  have hdiv := Nat.div_add_mod (t - d - 1) (reload + 1)
  refine ⟨(reload + 1) * ((t - d - 1) / (reload + 1)), by omega, ?_⟩
  rcases Nat.eq_zero_or_pos ((t - d - 1) / (reload + 1)) with hnone | hsome
  · exact .inl (by rw [hnone, Nat.mul_zero])
  · exact .inr (Nat.le_mul_of_pos_right _ hsome)

/-- The same for the divider, whose upper half is read first. What is read is the value of `back` ticks
    before the second read, if the upper half has come down since the first, and that of `on` ticks
    after it, if the upper half has gone up: with a lap that is long enough the clock was there, or it
    comes there in the laps before or after. -/
def DividerWhole (reload d : BitVec 20) (n k m : Nat) : Prop :=
  let upper := ((nextDivider reload)^[n] d).toNat / 65536
  let upper' := ((nextDivider reload)^[n + k] d).toNat / 65536
  let lap := lapTicks reload.toNat d.toNat (n + k)
  if upper' ≤ upper then
    let back := 65536 * (upper - upper')
    if n + k ≤ d.toNat then
      back ≤ n + k ∨ d.toNat + back ≤ reload.toNat + (n + k) ∧ reload.toNat < m + back
    else reload.toNat + back ≤ max d.toNat reload.toNat + lap
  else
    let on := 65536 * (upper' - upper)
    on ≤ m ∨ reload.toNat ≤ d.toNat + lap + on ∨ d.toNat + reload.toNat + 2 ≤ n + k

theorem dividerPasses_iff (reload d : BitVec 20) (n k m : Nat) :
    DividerPasses reload d (((nextDivider reload)^[n] d).extractLsb' 16 4 ++
        ((nextDivider reload)^[n + k] d).extractLsb' 0 16) (n + k + m) ↔
      DividerWhole reload d n k m := by
  have hfirst := divider_lap reload d n
  have hsecond := divider_lap reload d (n + k)
  have hval : (((nextDivider reload)^[n] d).extractLsb' 16 4 ++
      ((nextDivider reload)^[n + k] d).extractLsb' 0 16).toNat =
      65536 * (((nextDivider reload)^[n] d).toNat / 65536) +
        ((nextDivider reload)^[n + k] d).toNat % 65536 := by
    have hlt := ((nextDivider reload)^[n] d).isLt
    rw [toNat_words, BitVec.extractLsb'_toNat, BitVec.extractLsb'_toNat, Nat.shiftRight_eq_div_pow,
      Nat.shiftRight_zero]
    omega
  rw [DividerPasses, hval, DividerWhole]
  generalize ((nextDivider reload)^[n] d).toNat = d₁ at *
  generalize ((nextDivider reload)^[n + k] d).toNat = d₂ at *
  generalize reload.toNat = R at *
  generalize d.toNat = D at *
  by_cases hle : n + k ≤ D
  · rw [lapTicks, if_pos (by omega), if_pos (by omega)] at hfirst
    rw [lapTicks, if_pos hle, if_pos hle] at hsecond
    rw [if_pos (by omega)]
    simp only [hle, if_true]
    omega
  · obtain ⟨laps, hlaps, hwhole⟩ := @lapTicks_laps R _ _ (Nat.lt_of_not_le hle)
    rw [if_neg hle] at hsecond
    simp only [hle, if_false]
    generalize lapTicks R D (n + k) = lap at *
    split
    · omega
    · omega

/-! ## The two functions -/

def counterTicks (events : List RtcTick) : Nat := events.countP (· == .counter)

def dividerTicks (events : List RtcTick) : Nat := events.countP (· == .divider)

theorem after_counter (events : List RtcTick) (s : Rtc) :
    (Schedule.after Rtc.tick events s).counter =
      s.counter + BitVec.ofNat 32 (counterTicks events) := by
  have hval := Schedule.val_after (f := (· + 1)) tick_counter events s
  rwa [iterate_succ_counter] at hval

theorem after_divider (events : List RtcTick) (s : Rtc) :
    (Schedule.after Rtc.tick events s).divider =
      (nextDivider s.reload)^[dividerTicks events] s.divider := by
  have hval := Schedule.val_after tick_division events s
  rw [Rtc.division, Rtc.division, iterate_nextDivision] at hval
  exact congrArg Prod.fst hval

theorem counterTicks_append (a b : List RtcTick) :
    counterTicks (a ++ b) = counterTicks a + counterTicks b := List.countP_append

theorem dividerTicks_append (a b : List RtcTick) :
    dividerTicks (a ++ b) = dividerTicks a + dividerTicks b := List.countP_append

theorem rtcGetCounter_result (s : Rtc) (before between later : List RtcTick) :
    (rtcGetCounter.among Rtc.tick [before, between, later] s).1 =
      upperHalf (Schedule.after Rtc.tick (before ++ between) s).counter ++
        lowerHalf (Schedule.after Rtc.tick before s).counter := by
  have hread := Prog.among_two_reads Rtc.tick (fun s : Rtc => s.regs .cntl)
    (fun s => s.regs .cnth) (fun tmp cnth => cnth.setWidth 32 <<< 16 ||| tmp.setWidth 32)
    before between later s
  refine hread.trans ?_
  rw [← BitVec.setWidth_append_eq_shiftLeft_setWidth_or, BitVec.setWidth_eq, upperHalf, lowerHalf,
    Rtc.counter, Rtc.counter, BitVec.extractLsb'_append_eq_left, BitVec.extractLsb'_append_eq_right]

theorem rtcGetDivider_result (s : Rtc) (before between later : List RtcTick) :
    (rtcGetDivider.among Rtc.tick [before, between, later] s).1 =
      ((Schedule.after Rtc.tick before s).divider.extractLsb' 16 4 ++
        (Schedule.after Rtc.tick (before ++ between) s).divider.extractLsb' 0 16).setWidth 32 := by
  have hread := Prog.among_two_reads Rtc.tick (fun s : Rtc => s.regs .divcnth)
    (fun s => s.regs .divcntl)
    (fun divcnth divcntl => (divcnth.setWidth 32 &&& 0x000F) <<< 16 ||| divcntl.setWidth 32)
    before between later s
  refine hread.trans ?_
  rw [divcnth_masked, ← BitVec.setWidth_append_eq_shiftLeft_setWidth_or, Rtc.divider, Rtc.divider,
    BitVec.extractLsb'_append_eq_left, BitVec.extractLsb'_append_eq_right]

theorem heldCounter_iff (s : Rtc) (before between later : List RtcTick) :
    HeldCounter s before between later ↔
      CounterWhole s.counter (counterTicks before) (counterTicks between) (counterTicks later) := by
  let c₁ := s.counter + BitVec.ofNat 32 (counterTicks before)
  let c₂ := s.counter + BitVec.ofNat 32 (counterTicks before + counterTicks between)
  have hresult : (rtcGetCounter.among Rtc.tick [before, between, later] s).1 =
      upperHalf c₂ ++ lowerHalf c₁ := by
    rw [rtcGetCounter_result, after_counter, after_counter, counterTicks_append]
  have hpassed : HeldCounter s before between later ↔
      (upperHalf c₂ ++ lowerHalf c₁ - s.counter).toNat ≤
        counterTicks before + counterTicks between + counterTicks later := by
    unfold HeldCounter
    simp only [hresult]
    rw [← exists_counter_iff, ← counterTicks_append, ← counterTicks_append, counterTicks]
    refine Iff.trans ?_ (Schedule.exists_passed_iff tick_counter (· = _) _ s)
    refine exists_congr fun u => and_congr_left' ?_
    exact Prog.mem_among_two_reads _ _ _ before between later s u
  rw [hpassed, toNat_counter_sub, CounterWhole, carries]
  omega

theorem heldDivider_iff (s : Rtc) (before between later : List RtcTick) :
    HeldDivider s before between later ↔
      DividerWhole s.reload s.divider (dividerTicks before) (dividerTicks between)
        (dividerTicks later) := by
  let d₁ := (nextDivider s.reload)^[dividerTicks before] s.divider
  let d₂ := (nextDivider s.reload)^[dividerTicks before + dividerTicks between] s.divider
  let v := d₁.extractLsb' 16 4 ++ d₂.extractLsb' 0 16
  have hresult : (rtcGetDivider.among Rtc.tick [before, between, later] s).1 = v.setWidth 32 := by
    rw [rtcGetDivider_result, after_divider, after_divider, dividerTicks_append]
  have hpassed : HeldDivider s before between later ↔
      DividerPasses s.reload s.divider v
        (dividerTicks before + dividerTicks between + dividerTicks later) := by
    have hinj : ∀ d : BitVec 20, d.setWidth 32 = v.setWidth 32 ↔ d = v := by
      intro d
      rw [← BitVec.toNat_inj, ← BitVec.toNat_inj]
      have hd := d.isLt
      have hv := v.isLt
      rw [BitVec.toNat_setWidth, BitVec.toNat_setWidth]
      omega
    unfold HeldDivider
    simp only [hresult, hinj]
    rw [← exists_divider_iff, ← dividerTicks_append, ← dividerTicks_append, dividerTicks]
    have hticks := Schedule.exists_passed_iff tick_division (fun p => p.1 = v)
      (before ++ between ++ later) s
    simp only [Rtc.division, iterate_nextDivision] at hticks
    refine Iff.trans ?_ hticks
    refine exists_congr fun u => and_congr_left' ?_
    exact Prog.mem_among_two_reads _ _ _ before between later s u
  exact hpassed.trans (dividerPasses_iff _ _ _ _ _)

/-- **The counter and the divider are read as values that they held if and only if the upper half does
    not change between the two reads, or there are ticks enough before or after to make up for it.** -/
theorem rtc_read_held_iff (s : Rtc) (before between later : List RtcTick) :
    (HeldCounter s before between later ↔
        CounterWhole s.counter (counterTicks before) (counterTicks between) (counterTicks later)) ∧
      (HeldDivider s before between later ↔
        DividerWhole s.reload s.divider (dividerTicks before) (dividerTicks between)
          (dividerTicks later)) :=
  ⟨heldCounter_iff s before between later, heldDivider_iff s before between later⟩

/-- A counter of `0x0000FFFF` that ticks between the two reads is read as `0x0001FFFF`. -/
theorem rtc_read_torn :
    ¬ ∀ (s : Rtc) (before between later : List RtcTick), HeldCounter s before between later := by
  intro h
  let s : Rtc := {
    ctrll := 0
    regs := Function.update (fun _ => 0) .cntl 0xFFFF
    pending := none }
  have hwhole := (heldCounter_iff s [] [.counter] []).mp (h s [] [.counter] [])
  rcases hwhole with henough | hround
  · exact absurd henough (by decide)
  · exact absurd hround (by decide)

end At32
