import Mathlib.Logic.Function.Basic
import McuDrivers.Hc32.Flash
import McuDrivers.Library.BitField
import McuDrivers.Library.Calls

set_option autoImplicit false

/-! # HC32L13x: ADC

The settings of the two scans, the sequential one and the one that is injected into it. Each has a DMA
trigger in `CR1`, the number of its conversions, and a channel for each of them. `Adc_JqrModeCfg` stores
its trigger in the field of the other scan, and the number 0 is stored as the largest. -/

namespace Hc32

open Calls

/-! ## Registers -/

inductive AdcReg where
  | cr0
  | cr1
  | sqr0
  | sqr1
  | sqr2
  | jqr
  deriving DecidableEq

/-- A field of a register. -/
structure AdcField where
  reg : AdcReg
  bits : BitField 32

namespace AdcField

def sglmux : AdcField := ⟨.cr0, 4, 5, by decide⟩

def cr1Bit (i : Fin 32) : AdcField := ⟨.cr1, .bit i i.isLt⟩

def dmasqr : AdcField := cr1Bit 8
def dmajqr : AdcField := cr1Bit 9
def raccen : AdcField := cr1Bit 11
def raccclr : AdcField := cr1Bit 15

/-- `CH0MUX` to `CH5MUX` are the slots of `SQR0`, `CH6MUX` to `CH11MUX` of `SQR1`, the others of `SQR2`. -/
def sqrChMux (i : Fin 16) : AdcField :=
  if h : i.val < 6 then ⟨.sqr0, 5 * i.val, 5, by omega⟩
  else if h : i.val < 12 then ⟨.sqr1, 5 * (i.val - 6), 5, by omega⟩
  else ⟨.sqr2, 5 * (i.val - 12), 5, by omega⟩

def sqrCnt : AdcField := ⟨.sqr2, 20, 4, by decide⟩

/-- `CH0MUX` to `CH3MUX` of `JQR` -/
def jqrChMux (i : Fin 4) : AdcField := ⟨.jqr, 5 * i.val, 5, by omega⟩

def jqrCnt : AdcField := ⟨.jqr, 20, 2, by decide⟩

/-- Two fields without a common bit. -/
def Apart (f g : AdcField) : Prop := f.reg ≠ g.reg ∨ f.bits.Disjoint g.bits

instance (f g : AdcField) : Decidable (f.Apart g) := inferInstanceAs (Decidable (_ ∨ _))

end AdcField

structure Adc where
  regs : AdcReg → Word

def Adc.read (f : AdcField) (s : Adc) : Nat := (f.bits.get (s.regs f.reg)).toNat

def Adc.write (f : AdcField) (v : Word) (s : Adc) : Adc where
  regs := Function.update s.regs f.reg (f.bits.set (v.setWidth f.bits.len) (s.regs f.reg))

/-! ## Parameters -/

/-- `en_adc_samp_ch_sel_t` -/
inductive AdcSampCh where
  | exInput (n : Fin 24)
  | opa0
  | opa1
  | opa2
  | aVccDiv3
  | aiTs
  | vref1_2

def AdcSampCh.value : AdcSampCh → Word
  | exInput n => BitVec.ofNat 32 n
  | opa0 => 24
  | opa1 => 25
  | opa2 => 26
  | aVccDiv3 => 27
  | aiTs => 28
  | vref1_2 => 29

/-- `en_adc_result_acc_t` -/
inductive AdcResultAcc where
  | disable
  | enable

def AdcResultAcc.value : AdcResultAcc → Word
  | disable => 0
  | enable => 1

/-- `stc_adc_sqr_cfg_t` -/
structure AdcSqrCfg where
  u8SqrCnt : BitVec 8
  enResultAcc : AdcResultAcc
  bSqrDmaTrig : Bool

/-- `stc_adc_jqr_cfg_t` -/
structure AdcJqrCfg where
  u8JqrCnt : BitVec 8
  bJqrDmaTrig : Bool

/-- A `boolean_t` -/
def boolValue (b : Bool) : Word := if b then 1 else 0

/-! ## Functions -/

/-- `none` is the pointer `NULL`. -/
def adcSqrModeCfg (cfg : Option AdcSqrCfg) (s : Adc) : EnResult × Adc :=
  match cfg with
  | none => (.errorInvalidParameter, s)
  | some cfg =>
      if cfg.u8SqrCnt > 16 then (.errorInvalidParameter, s)
      else
        let s := s.write .raccclr 0
        let s := s.write .raccen cfg.enResultAcc.value
        let s := s.write .dmasqr (boolValue cfg.bSqrDmaTrig)
        let s := s.write .sqrCnt (cfg.u8SqrCnt.setWidth 32 - 1)
        (.ok, s)

def adcJqrModeCfg (cfg : Option AdcJqrCfg) (s : Adc) : EnResult × Adc :=
  match cfg with
  | none => (.errorInvalidParameter, s)
  | some cfg =>
      if cfg.u8JqrCnt > 4 then (.errorInvalidParameter, s)
      else
        let s := s.write .dmasqr (boolValue cfg.bJqrDmaTrig)
        let s := s.write .jqrCnt (cfg.u8JqrCnt.setWidth 32 - 1)
        (.ok, s)

def adcCfgSglChannel (sampCh : AdcSampCh) (s : Adc) : EnResult × Adc :=
  (.ok, s.write .sglmux sampCh.value)

/-- The cases of the `switch` are the numbers of the slots. -/
def adcCfgSqrChannel (sqrChMux : Word) (sampCh : AdcSampCh) (s : Adc) : EnResult × Adc :=
  if h : sqrChMux.toNat < 16 then (.ok, s.write (.sqrChMux ⟨sqrChMux.toNat, h⟩) sampCh.value)
  else (.errorInvalidParameter, s)

def adcCfgJqrChannel (jqrChMux : Word) (sampCh : AdcSampCh) (s : Adc) : EnResult × Adc :=
  if h : jqrChMux.toNat < 4 then (.ok, s.write (.jqrChMux ⟨jqrChMux.toNat, h⟩) sampCh.value)
  else (.errorInvalidParameter, s)

/-! ## Settings -/

inductive AdcScan where
  | sqr
  | jqr
  deriving DecidableEq

/-- What is set for a scan. -/
inductive AdcSetting where
  | dmaTrig (scan : AdcScan)
  | cnt (scan : AdcScan)
  | sqrChMux (i : Fin 16)
  | jqrChMux (i : Fin 4)
  deriving DecidableEq

namespace AdcSetting

def scan : AdcSetting → AdcScan
  | dmaTrig scan => scan
  | cnt scan => scan
  | sqrChMux _ => .sqr
  | jqrChMux _ => .jqr

def field : AdcSetting → AdcField
  | dmaTrig .sqr => .dmasqr
  | dmaTrig .jqr => .dmajqr
  | cnt .sqr => .sqrCnt
  | cnt .jqr => .jqrCnt
  | sqrChMux i => .sqrChMux i
  | jqrChMux i => .jqrChMux i

end AdcSetting

/-- A setting as it is in the registers. A number of conversions is stored as one less. -/
def Adc.shows (p : AdcSetting) (s : Adc) : Nat :=
  match p with
  | .cnt _ => s.read p.field + 1
  | _ => s.read p.field

/-! ## Calls -/

inductive AdcCall where
  | sqrModeCfg (cfg : Option AdcSqrCfg)
  | jqrModeCfg (cfg : Option AdcJqrCfg)
  | cfgSqrChannel (sqrChMux : Word) (sampCh : AdcSampCh)
  | cfgJqrChannel (jqrChMux : Word) (sampCh : AdcSampCh)
  | cfgSglChannel (sampCh : AdcSampCh)

namespace AdcCall

def run : AdcCall → Adc → EnResult × Adc
  | sqrModeCfg cfg => adcSqrModeCfg cfg
  | jqrModeCfg cfg => adcJqrModeCfg cfg
  | cfgSqrChannel mux ch => adcCfgSqrChannel mux ch
  | cfgJqrChannel mux ch => adcCfgJqrChannel mux ch
  | cfgSglChannel ch => adcCfgSglChannel ch

def step (c : AdcCall) (s : Adc) : Adc := (c.run s).2

/-- The scan that a call is for. -/
def scan : AdcCall → Option AdcScan
  | sqrModeCfg _ => some .sqr
  | jqrModeCfg _ => some .jqr
  | cfgSqrChannel _ _ => some .sqr
  | cfgJqrChannel _ _ => some .jqr
  | cfgSglChannel _ => none

/-- What a call that is accepted asks for a setting. -/
def asks (p : AdcSetting) : AdcCall → Option Nat
  | sqrModeCfg (some cfg) =>
      if cfg.u8SqrCnt > 16 then none
      else match p with
        | .dmaTrig .sqr => some cfg.bSqrDmaTrig.toNat
        | .cnt .sqr => some cfg.u8SqrCnt.toNat
        | _ => none
  | jqrModeCfg (some cfg) =>
      if cfg.u8JqrCnt > 4 then none
      else match p with
        | .dmaTrig .jqr => some cfg.bJqrDmaTrig.toNat
        | .cnt .jqr => some cfg.u8JqrCnt.toNat
        | _ => none
  | cfgSqrChannel mux ch =>
      match p with
      | .sqrChMux i => if mux.toNat = i.val then some ch.value.toNat else none
      | _ => none
  | cfgJqrChannel mux ch =>
      match p with
      | .jqrChMux i => if mux.toNat = i.val then some ch.value.toNat else none
      | _ => none
  | _ => none

/-- What it stores for the setting. -/
def stores (p : AdcSetting) : AdcCall → Option Nat
  | sqrModeCfg (some cfg) =>
      if cfg.u8SqrCnt > 16 then none
      else match p with
        | .dmaTrig .sqr => some cfg.bSqrDmaTrig.toNat
        | .cnt .sqr => some (if cfg.u8SqrCnt = 0 then 16 else cfg.u8SqrCnt.toNat)
        | _ => none
  | jqrModeCfg (some cfg) =>
      if cfg.u8JqrCnt > 4 then none
      else match p with
        | .dmaTrig .sqr => some cfg.bJqrDmaTrig.toNat
        | .cnt .jqr => some (if cfg.u8JqrCnt = 0 then 4 else cfg.u8JqrCnt.toNat)
        | _ => none
  | c => c.asks p

/-- A call is for its own scan alone, and one that is refused changes nothing. -/
structure Isolated (c : AdcCall) (s : Adc) : Prop where
  scan : ∀ p : AdcSetting, c.scan ≠ some p.scan → (c.step s).shows p = s.shows p
  refused : (c.run s).1 = .errorInvalidParameter → c.step s = s

end AdcCall

/-! ## Fields -/

theorem Adc.write_regs_self (f : AdcField) (v : Word) (s : Adc) :
    (s.write f v).regs f.reg = f.bits.set (v.setWidth f.bits.len) (s.regs f.reg) :=
  Function.update_self ..

theorem Adc.write_regs_of_ne {f : AdcField} {reg : AdcReg} (h : reg ≠ f.reg) (v : Word) (s : Adc) :
    (s.write f v).regs reg = s.regs reg :=
  Function.update_of_ne h ..

theorem Adc.read_write_self (f : AdcField) (v : Word) (s : Adc) :
    (s.write f v).read f = v.toNat % 2 ^ f.bits.len := by
  unfold Adc.read
  rw [Adc.write_regs_self, BitField.get_set, BitVec.toNat_setWidth]

theorem Adc.read_write_of_apart {f g : AdcField} (h : f.Apart g) (v : Word) (s : Adc) :
    (s.write g v).read f = s.read f := by
  unfold Adc.read
  rcases eq_or_ne f.reg g.reg with heq | hne
  · have hbits : f.bits.Disjoint g.bits := h.resolve_left (not_not.mpr heq)
    rw [heq, Adc.write_regs_self, BitField.get_set_of_disjoint hbits]
  · rw [Adc.write_regs_of_ne hne]

/-- No two settings have a bit in common. -/
theorem AdcSetting.apart {p q : AdcSetting} (h : p ≠ q) : p.field.Apart q.field := by
  revert h
  rcases p with ⟨_ | _⟩ | ⟨_ | _⟩ | i | i <;> rcases q with ⟨_ | _⟩ | ⟨_ | _⟩ | j | j <;>
    decide +revert

/-- What a setting is seen as when `v` is written to it. -/
def AdcSetting.shown (p : AdcSetting) (v : Word) : Nat :=
  match p with
  | .cnt _ => v.toNat % 2 ^ p.field.bits.len + 1
  | _ => v.toNat % 2 ^ p.field.bits.len

theorem shows_write_self (p : AdcSetting) (v : Word) (s : Adc) :
    (s.write p.field v).shows p = p.shown v := by
  cases p <;> simp only [Adc.shows, AdcSetting.shown, Adc.read_write_self]

theorem shows_write_of_apart {p : AdcSetting} {g : AdcField} (h : p.field.Apart g) (v : Word)
    (s : Adc) : (s.write g v).shows p = s.shows p := by
  cases p <;> simp only [Adc.shows, Adc.read_write_of_apart h]

theorem shows_write (p q : AdcSetting) (v : Word) (s : Adc) :
    (s.write q.field v).shows p = if p = q then q.shown v else s.shows p := by
  split
  · next h => rw [h, shows_write_self]
  · next h => exact shows_write_of_apart (AdcSetting.apart h) v s

/-- The other fields that are written have no bit in common with a setting. -/
theorem AdcSetting.apart_other (p : AdcSetting) :
    p.field.Apart .raccclr ∧ p.field.Apart .raccen ∧ p.field.Apart .sglmux := by
  rcases p with ⟨_ | _⟩ | ⟨_ | _⟩ | i | i <;> decide +revert

/-! ## What a call stores -/

theorem AdcSampCh.value_lt (ch : AdcSampCh) : ch.value.toNat < 2 ^ 5 := by
  cases ch with
  | exInput n =>
      have hn : n.val < 2 ^ 32 := by omega
      rw [AdcSampCh.value, BitVec.toNat_ofNat, Nat.mod_eq_of_lt hn]
      omega
  | _ => decide

theorem shows_sqrModeCfg (cfg : AdcSqrCfg) (h : ¬ cfg.u8SqrCnt > 16) (p : AdcSetting) (s : Adc) :
    (adcSqrModeCfg (some cfg) s).2.shows p =
      if p = .cnt .sqr then (AdcSetting.cnt .sqr).shown (cfg.u8SqrCnt.setWidth 32 - 1)
      else if p = .dmaTrig .sqr then (AdcSetting.dmaTrig .sqr).shown (boolValue cfg.bSqrDmaTrig)
      else s.shows p := by
  obtain ⟨hclr, hacc, -⟩ := p.apart_other
  simp only [adcSqrModeCfg, if_neg h]
  rw [show AdcField.sqrCnt = (AdcSetting.cnt .sqr).field from rfl, shows_write,
    show AdcField.dmasqr = (AdcSetting.dmaTrig .sqr).field from rfl, shows_write,
    shows_write_of_apart hacc, shows_write_of_apart hclr]

theorem shows_jqrModeCfg (cfg : AdcJqrCfg) (h : ¬ cfg.u8JqrCnt > 4) (p : AdcSetting) (s : Adc) :
    (adcJqrModeCfg (some cfg) s).2.shows p =
      if p = .cnt .jqr then (AdcSetting.cnt .jqr).shown (cfg.u8JqrCnt.setWidth 32 - 1)
      else if p = .dmaTrig .sqr then (AdcSetting.dmaTrig .sqr).shown (boolValue cfg.bJqrDmaTrig)
      else s.shows p := by
  simp only [adcJqrModeCfg, if_neg h]
  rw [show AdcField.jqrCnt = (AdcSetting.cnt .jqr).field from rfl, shows_write,
    show AdcField.dmasqr = (AdcSetting.dmaTrig .sqr).field from rfl, shows_write]

/-- Less one and cut off to the field: 0 comes out as the largest number. -/
theorem shown_cnt_sqr {n : BitVec 8} (h : ¬ n > 16) :
    (AdcSetting.cnt .sqr).shown (n.setWidth 32 - 1) = if n = 0 then 16 else n.toNat := by
  change (n.setWidth 32 - 1).toNat % 16 + 1 = _
  split
  · next hzero =>
      rw [hzero]
      rfl
  · bv_omega

theorem shown_cnt_jqr {n : BitVec 8} (h : ¬ n > 4) :
    (AdcSetting.cnt .jqr).shown (n.setWidth 32 - 1) = if n = 0 then 4 else n.toNat := by
  change (n.setWidth 32 - 1).toNat % 4 + 1 = _
  split
  · next hzero =>
      rw [hzero]
      rfl
  · bv_omega

theorem shown_dmaTrig (scan : AdcScan) (b : Bool) :
    (AdcSetting.dmaTrig scan).shown (boolValue b) = b.toNat := by
  cases scan <;> cases b <;> rfl

theorem shown_sqrChMux (i : Fin 16) (ch : AdcSampCh) :
    (AdcSetting.sqrChMux i).shown ch.value = ch.value.toNat := by
  have hlen : (AdcField.sqrChMux i).bits.len = 5 := by decide +revert
  change ch.value.toNat % 2 ^ (AdcField.sqrChMux i).bits.len = _
  rw [hlen, Nat.mod_eq_of_lt ch.value_lt]

theorem shown_jqrChMux (i : Fin 4) (ch : AdcSampCh) :
    (AdcSetting.jqrChMux i).shown ch.value = ch.value.toNat :=
  Nat.mod_eq_of_lt ch.value_lt

/-- A call for a slot asks for its channel, -/
theorem AdcCall.asks_cfgSqrChannel {mux : Word} {ch : AdcSampCh} (h : mux.toNat < 16) (p : AdcSetting) :
    (AdcCall.cfgSqrChannel mux ch).asks p =
      if p = .sqrChMux ⟨mux.toNat, h⟩ then some ch.value.toNat else none := by
  cases p <;> simp [AdcCall.asks, Fin.ext_iff, eq_comm]

theorem AdcCall.asks_cfgJqrChannel {mux : Word} {ch : AdcSampCh} (h : mux.toNat < 4) (p : AdcSetting) :
    (AdcCall.cfgJqrChannel mux ch).asks p =
      if p = .jqrChMux ⟨mux.toNat, h⟩ then some ch.value.toNat else none := by
  cases p <;> simp [AdcCall.asks, Fin.ext_iff, eq_comm]

/-- and for nothing if there is no such slot. -/
theorem AdcCall.asks_cfgSqrChannel_of_not {mux : Word} {ch : AdcSampCh} (h : ¬ mux.toNat < 16)
    (p : AdcSetting) : (AdcCall.cfgSqrChannel mux ch).asks p = none := by
  have hne (i : Fin 16) : mux.toNat ≠ i := by omega
  cases p <;> simp [AdcCall.asks, hne]

theorem AdcCall.asks_cfgJqrChannel_of_not {mux : Word} {ch : AdcSampCh} (h : ¬ mux.toNat < 4)
    (p : AdcSetting) : (AdcCall.cfgJqrChannel mux ch).asks p = none := by
  have hne (i : Fin 4) : mux.toNat ≠ i := by omega
  cases p <;> simp [AdcCall.asks, hne]

/-- The settings after a call: what it stores, and otherwise as they were. -/
theorem shows_step (c : AdcCall) (s : Adc) (p : AdcSetting) :
    (c.step s).shows p = (c.stores p).getD (s.shows p) := by
  unfold AdcCall.step
  cases c with
  | sqrModeCfg cfg =>
      cases cfg with
      | none => rfl
      | some cfg =>
          simp only [AdcCall.run, AdcCall.stores]
          by_cases h : cfg.u8SqrCnt > 16
          · rw [adcSqrModeCfg, if_pos h, if_pos h]
            rfl
          · rw [shows_sqrModeCfg cfg h, shown_cnt_sqr h, shown_dmaTrig, if_neg h]
            rcases p with ⟨_ | _⟩ | ⟨_ | _⟩ | i | i <;> simp
  | jqrModeCfg cfg =>
      cases cfg with
      | none => rfl
      | some cfg =>
          simp only [AdcCall.run, AdcCall.stores]
          by_cases h : cfg.u8JqrCnt > 4
          · rw [adcJqrModeCfg, if_pos h, if_pos h]
            rfl
          · rw [shows_jqrModeCfg cfg h, shown_cnt_jqr h, shown_dmaTrig, if_neg h]
            rcases p with ⟨_ | _⟩ | ⟨_ | _⟩ | i | i <;> simp
  | cfgSqrChannel mux ch =>
      simp only [AdcCall.run, AdcCall.stores, adcCfgSqrChannel]
      split
      · next h =>
          refine (shows_write p (.sqrChMux ⟨mux.toNat, h⟩) ch.value s).trans ?_
          rw [AdcCall.asks_cfgSqrChannel h, shown_sqrChMux]
          split <;> rfl
      · next h =>
          rw [AdcCall.asks_cfgSqrChannel_of_not h]
          rfl
  | cfgJqrChannel mux ch =>
      simp only [AdcCall.run, AdcCall.stores, adcCfgJqrChannel]
      split
      · next h =>
          refine (shows_write p (.jqrChMux ⟨mux.toNat, h⟩) ch.value s).trans ?_
          rw [AdcCall.asks_cfgJqrChannel h, shown_jqrChMux]
          split <;> rfl
      · next h =>
          rw [AdcCall.asks_cfgJqrChannel_of_not h]
          rfl
  | cfgSglChannel ch => exact shows_write_of_apart p.apart_other.2.2 _ s

/-! ## Isolation -/

theorem AdcCall.refused_step {c : AdcCall} {s : Adc} (h : (c.run s).1 = .errorInvalidParameter) :
    c.step s = s := by
  unfold AdcCall.step
  cases c with
  | sqrModeCfg cfg =>
      cases cfg with
      | none => rfl
      | some cfg =>
          simp only [AdcCall.run, adcSqrModeCfg] at h ⊢
          split_ifs at h ⊢
          rfl
  | jqrModeCfg cfg =>
      cases cfg with
      | none => rfl
      | some cfg =>
          simp only [AdcCall.run, adcJqrModeCfg] at h ⊢
          split_ifs at h ⊢
          rfl
  | cfgSqrChannel mux ch =>
      simp only [AdcCall.run, adcCfgSqrChannel] at h ⊢
      split_ifs at h ⊢
      rfl
  | cfgJqrChannel mux ch =>
      simp only [AdcCall.run, adcCfgJqrChannel] at h ⊢
      split_ifs at h ⊢
      rfl
  | cfgSglChannel ch => cases h

theorem AdcCall.isolated_iff {c : AdcCall} {s : Adc} :
    c.Isolated s ↔ ∀ p : AdcSetting, c.scan ≠ some p.scan → (c.stores p).getD (s.shows p) = s.shows p := by
  simp only [← shows_step]
  exact ⟨fun h => h.scan, fun h => ⟨h, AdcCall.refused_step⟩⟩

/-- A call that stores what it is asked for, where the settings are `x`. The number of conversions must
    not be 0, and the trigger of the injected scan what both triggers are already. -/
def AdcCall.Fits (x : AdcSetting → Nat) : AdcCall → Prop
  | sqrModeCfg (some cfg) => ¬ cfg.u8SqrCnt > 16 → cfg.u8SqrCnt ≠ 0
  | jqrModeCfg (some cfg) => ¬ cfg.u8JqrCnt > 4 → cfg.u8JqrCnt ≠ 0 ∧
      x (.dmaTrig .jqr) = cfg.bJqrDmaTrig.toNat ∧ x (.dmaTrig .sqr) = cfg.bJqrDmaTrig.toNat
  | _ => True

/-- A call asks for settings of its own scan. -/
theorem AdcCall.asks_eq_none {c : AdcCall} {p : AdcSetting} (h : c.scan ≠ some p.scan) :
    c.asks p = none := by
  unfold AdcCall.asks
  rcases c with ⟨_ | cfg⟩ | ⟨_ | cfg⟩ | ⟨mux, ch⟩ | ⟨mux, ch⟩ | ch <;>
    rcases p with ⟨_ | _⟩ | ⟨_ | _⟩ | i | i <;> first | exact absurd rfl h | simp

theorem AdcCall.fits_iff (x : AdcSetting → Nat) (c : AdcCall) :
    c.Fits x ↔ (∀ p, (c.stores p).getD (x p) = (c.asks p).getD (x p)) ∧
      ∀ p : AdcSetting, c.scan ≠ some p.scan → (c.stores p).getD (x p) = x p := by
  -- a call that stores what it asks for is for its own scan
  have hown (hstores : ∀ p, (c.stores p).getD (x p) = (c.asks p).getD (x p)) (p : AdcSetting)
      (hscan : c.scan ≠ some p.scan) : (c.stores p).getD (x p) = x p := by
    rw [hstores p, AdcCall.asks_eq_none hscan]
    rfl
  rw [and_iff_left_of_imp hown]
  cases c with
  | sqrModeCfg cfg =>
      cases cfg with
      | none => exact ⟨fun _ _ => rfl, fun _ => trivial⟩
      | some cfg =>
          simp only [AdcCall.Fits, AdcCall.stores, AdcCall.asks]
          by_cases h : cfg.u8SqrCnt > 16
          · simp only [if_pos h]
            exact iff_of_true (fun hno => absurd h hno) fun _ => trivial
          · simp only [if_neg h]
            constructor
            · intro hfits p
              rcases p with ⟨_ | _⟩ | ⟨_ | _⟩ | i | i
              case cnt.sqr => exact if_neg (hfits h)
              all_goals rfl
            · intro hstores _ hzero
              have hcnt := hstores (.cnt .sqr)
              simp [hzero] at hcnt
  | jqrModeCfg cfg =>
      cases cfg with
      | none => exact ⟨fun _ _ => rfl, fun _ => trivial⟩
      | some cfg =>
          simp only [AdcCall.Fits, AdcCall.stores, AdcCall.asks]
          by_cases h : cfg.u8JqrCnt > 4
          · simp only [if_pos h]
            exact iff_of_true (fun hno => absurd h hno) fun _ => trivial
          · simp only [if_neg h]
            constructor
            · intro hfits p
              obtain ⟨hcnt, hjqr, hsqr⟩ := hfits h
              rcases p with ⟨_ | _⟩ | ⟨_ | _⟩ | i | i
              case dmaTrig.sqr => exact hsqr.symm
              case dmaTrig.jqr => exact hjqr
              case cnt.jqr => exact if_neg hcnt
              all_goals rfl
            · intro hstores _
              refine ⟨fun hzero => ?_, hstores (.dmaTrig .jqr), (hstores (.dmaTrig .sqr)).symm⟩
              have hcnt := hstores (.cnt .jqr)
              simp [hzero] at hcnt
  | _ => exact ⟨fun _ _ => rfl, fun _ => trivial⟩

/-- What a sequence of calls promises, from any registers: at every moment each setting is the last
    one that was asked for, and every call is isolated. -/
structure AdcScansIsolated (start : Adc) (calls : List AdcCall) : Prop where
  settings : ∀ past, past <+: calls → ∀ p,
    (after AdcCall.step past start).shows p = last (AdcCall.asks p) past (start.shows p)
  isolated : ∀ past c, past ++ [c] <+: calls → c.Isolated (after AdcCall.step past start)

/-- **The scans are isolated if and only if every call fits the settings that were asked for before
    it.** -/
theorem adc_scans_isolated_iff (start : Adc) (calls : List AdcCall) :
    AdcScansIsolated start calls ↔ ∀ past c, past ++ [c] <+: calls →
      c.Fits fun p => last (AdcCall.asks p) past (start.shows p) := by
  let good (past : List AdcCall) : Prop :=
    (∀ p, (after AdcCall.step past start).shows p = last (AdcCall.asks p) past (start.shows p)) ∧
      ∀ before c, past = before ++ [c] → c.Isolated (after AdcCall.step before start)
  have hstep : ∀ past c, past ++ [c] <+: calls → good past → (good (past ++ [c]) ↔
      c.Fits fun p => last (AdcCall.asks p) past (start.shows p)) := by
    rintro past c - ⟨hsettings, -⟩
    rw [AdcCall.fits_iff]
    refine and_congr (forall_congr' fun p => ?_) ?_
    · rw [after_append_singleton, last_append_singleton, shows_step, hsettings p]
    · simp only [← hsettings, ← AdcCall.isolated_iff]
      constructor
      · intro h
        exact h past c rfl
      · rintro h before c' heq
        obtain ⟨rfl, hc⟩ := List.append_inj' heq rfl
        cases hc
        exact h
  have hnil : good [] := ⟨fun _ => rfl, fun before c heq => by simp at heq⟩
  rw [← prefixes_iff hnil hstep]
  constructor
  · rintro ⟨hsettings, hisolated⟩ past hpast
    exact ⟨hsettings past hpast, fun before c heq => hisolated before c (heq ▸ hpast)⟩
  · intro h
    exact ⟨fun past hpast => (h past hpast).1, fun past c hpast => (h _ hpast).2 past c rfl⟩

/-- A trigger for the injected scan goes to the sequential one. -/
theorem adc_scans_not_isolated :
    ¬ AdcScansIsolated ⟨fun _ => 0⟩ [.jqrModeCfg (some ⟨4, true⟩)] := by
  intro h
  have hscan := (h.isolated [] _ (List.prefix_refl _)).scan (.dmaTrig .sqr) (by decide)
  exact absurd hscan (by decide)

end Hc32
