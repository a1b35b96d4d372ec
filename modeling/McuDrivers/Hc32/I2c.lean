import Mathlib.Logic.Function.Basic
import McuDrivers.Hc32.Flash
import McuDrivers.Library.Checked

set_option autoImplicit false

/-! # HC32L13x: I2C

`I2C_Init` takes the module out of reset and writes its mode before it looks at the rate, so that a
refusal leaves the mode behind. The clock over the rate goes into a byte in steps of eight, and nothing
looks at whether it fits. The slave branch never sets the result. -/

namespace Hc32

/-! ## Parameters -/

/-- `en_i2c_mode_t` -/
inductive I2cMode where
  | master
  | slave
  deriving DecidableEq

def I2cMode.value : I2cMode → Word
  | master => 0x40
  | slave => 0x44

/-- `en_i2c_func_t` -/
inductive I2cFunc where
  | moduleEn
  | startEn
  | stopEn
  | ackEn
  | hlmEn

def I2cFunc.offset : I2cFunc → Nat
  | moduleEn => 6
  | startEn => 5
  | stopEn => 4
  | ackEn => 2
  | hlmEn => 0

/-- `stc_i2c_cfg_t` -/
structure I2cCfg where
  u32Pclk : Word
  u32Baud : Word
  enMode : I2cMode
  u8SlaveAddr : BitVec 8
  bGc : Bool

/-- The values of `en_result_t` that the functions return. -/
inductive I2cResult where
  | ok
  | error
  deriving DecidableEq

/-! ## Registers -/

inductive I2cPeriph where
  | i2c0
  | i2c1
  deriving DecidableEq

structure I2cRegs where
  tmrun : Word
  tm : Word
  cr : Word
  addr : Word

structure I2cState where
  periReset : Word
  i2c : I2cPeriph → I2cRegs

def I2cState.edit (s : I2cState) (x : I2cPeriph) (f : I2cRegs → I2cRegs) : I2cState :=
  { s with i2c := Function.update s.i2c x (f (s.i2c x)) }

/-! ## Functions -/

/-- `SetBit`, on the value of the register. -/
def withSetBit (v : Word) (offset : Nat) (bFlag : Bool) : Word :=
  if bFlag then v ||| (1 : Word) <<< offset else v &&& ~~~((1 : Word) <<< offset)

def i2cSetBaud (x : I2cPeriph) (u8Tm : BitVec 8) (s : I2cState) : I2cResult × I2cState :=
  (.ok, s.edit x fun r => { r with tm := u8Tm.setWidth 32 })

def i2cSetFunc (x : I2cPeriph) (enFunc : I2cFunc) (s : I2cState) : I2cResult × I2cState :=
  (.ok, s.edit x fun r => { r with cr := withSetBit r.cr enFunc.offset true })

/-- The reset of the module. -/
def i2cReset (x : I2cPeriph) (s : I2cState) : I2cState :=
  match x with
  | .i2c0 =>
      let s := { s with periReset := s.periReset &&& ~~~0x10 }
      { s with periReset := s.periReset ||| 0x10 }
  | .i2c1 =>
      let s := { s with periReset := s.periReset &&& ~~~0x20 }
      { s with periReset := s.periReset ||| 0x20 }

/-- The configuration comes back with the address shifted. -/
def i2cInit (x : I2cPeriph) (cfg : I2cCfg) (s : I2cState) :
    Option (I2cResult × I2cCfg × I2cState) := do
  let s := i2cReset x s
  let s := s.edit x fun r => { r with cr := 0 }
  let s := s.edit x fun r => { r with cr := cfg.enMode.value }
  if cfg.u32Baud <<< 4 > cfg.u32Pclk then return (.error, cfg, s)
  else match cfg.enMode with
    | .master => do
        let s := s.edit x fun r => { r with tmrun := 1 }
        let quotient ← Checked.div cfg.u32Pclk cfg.u32Baud
        let u8Tm := (quotient >>> 3 - 1).setWidth 8
        let s := if 9 > u8Tm then (i2cSetFunc x .hlmEn s).2 else s
        let (enRet, s) := i2cSetBaud x u8Tm s
        return (enRet, cfg, s)
    | .slave =>
        let s := s.edit x fun r => { r with tmrun := 0 }
        let addr : Word := cfg.u8SlaveAddr.setWidth 32 <<< 1 ||| if cfg.bGc then 1 else 0
        let cfg := { cfg with u8SlaveAddr := addr.setWidth 8 }
        let s := s.edit x fun r => { r with addr := cfg.u8SlaveAddr.setWidth 32 }
        return (.error, cfg, s)

/-! ## What is promised -/

def I2cCfg.FastEnough (cfg : I2cCfg) : Prop := 16 * cfg.u32Baud.toNat ≤ cfg.u32Pclk.toNat

/-- The clock over the rate, in steps of eight. -/
def I2cCfg.divider (cfg : I2cCfg) : Nat := cfg.u32Pclk.toNat / cfg.u32Baud.toNat / 8

structure I2cCfg.Promised (cfg : I2cCfg) (enRet : I2cResult) (r : I2cRegs) : Prop where
  master : cfg.enMode = .master → (enRet = .ok ↔ cfg.FastEnough ∧ cfg.divider ≤ 256)
  tm : cfg.enMode = .master → enRet = .ok → r.tm.toNat + 1 = cfg.divider
  filter : cfg.enMode = .master → enRet = .ok → (r.cr.getLsbD I2cFunc.hlmEn.offset ↔ r.tm.toNat < 9)
  slave : cfg.enMode = .slave → cfg.FastEnough →
    r.addr.extractLsb' 1 7 = cfg.u8SlaveAddr.setWidth 7 ∧ r.addr.getLsbD 0 = cfg.bGc ∧ enRet = .ok
  error : enRet = .error → r.cr ≠ cfg.enMode.value

variable {x : I2cPeriph} {cfg : I2cCfg} {s : I2cState}

@[simp] theorem I2cState.edit_i2c (s : I2cState) (x : I2cPeriph) (f : I2cRegs → I2cRegs) :
    (s.edit x f).i2c x = f (s.i2c x) := Function.update_self ..

/-! ## The branches -/

theorem i2cInit_refused (h : cfg.u32Baud <<< 4 > cfg.u32Pclk) :
    ∃ s', i2cInit x cfg s = some (.error, cfg, s') ∧ (s'.i2c x).cr = cfg.enMode.value :=
  ⟨_, by rw [i2cInit, if_pos h]; rfl, by simp⟩

/-- The address is there, but the result is not. -/
theorem i2cInit_slave (hmode : cfg.enMode = .slave) (h : ¬ cfg.u32Baud <<< 4 > cfg.u32Pclk) :
    ∃ cfg' s', i2cInit x cfg s = some (.error, cfg', s') ∧ (s'.i2c x).cr = cfg.enMode.value ∧
      (s'.i2c x).addr.extractLsb' 1 7 = cfg.u8SlaveAddr.setWidth 7 ∧
      (s'.i2c x).addr.getLsbD 0 = cfg.bGc := by
  refine ⟨_, _, by rw [i2cInit, if_neg h, hmode]; rfl, by simp [hmode], ?_, ?_⟩
  · ext i hi
    have hbits : i < 8 ∧ 1 + i < 32 ∧ 1 + i < 8 := by omega
    cases hgc : cfg.bGc <;> simp [hbits, BitVec.getLsbD_eq_getElem]
  · cases hgc : cfg.bGc <;> simp

theorem i2cInit_master_zero (hmode : cfg.enMode = .master) (h : ¬ cfg.u32Baud <<< 4 > cfg.u32Pclk)
    (hbaud : cfg.u32Baud = 0) : i2cInit x cfg s = none := by
  rw [i2cInit, if_neg h, hmode, hbaud]
  rfl

theorem i2cInit_master (hmode : cfg.enMode = .master) (h : ¬ cfg.u32Baud <<< 4 > cfg.u32Pclk)
    (hbaud : cfg.u32Baud ≠ 0) :
    ∃ s', i2cInit x cfg s = some (.ok, cfg, s') ∧
      (s'.i2c x).tm = (((cfg.u32Pclk / cfg.u32Baud) >>> 3 - 1).setWidth 8).setWidth 32 ∧
      ((s'.i2c x).cr.getLsbD I2cFunc.hlmEn.offset ↔ (s'.i2c x).tm.toNat < 9) := by
  have hdiv : Checked.div cfg.u32Pclk cfg.u32Baud = some (cfg.u32Pclk / cfg.u32Baud) := if_neg hbaud
  refine ⟨_, by rw [i2cInit, if_neg h, hmode]; simp only [hdiv]; rfl, by simp [i2cSetBaud], ?_⟩
  generalize ((cfg.u32Pclk / cfg.u32Baud) >>> 3 - 1).setWidth 8 = u8Tm
  have hwide : (u8Tm.setWidth 32).toNat = u8Tm.toNat := BitVec.toNat_setWidth_of_le (by decide)
  have hfilter : 9 > u8Tm ↔ u8Tm.toNat < 9 := BitVec.lt_def
  simp only [i2cSetBaud, I2cState.edit_i2c, hwide, ← hfilter]
  by_cases hsmall : 9 > u8Tm
  · rw [if_pos hsmall]
    simpa [i2cSetFunc, withSetBit, I2cFunc.offset] using hsmall
  · rw [if_neg hsmall]
    simpa [I2cFunc.offset, I2cMode.value] using hsmall

/-! ## The rates -/

/-- Where the rate is not cut off by the shift, the test is the one that is meant. -/
theorem shifted_le_iff (hbaud : cfg.u32Baud.toNat < 2 ^ 28) :
    ¬ cfg.u32Baud <<< 4 > cfg.u32Pclk ↔ cfg.FastEnough := by
  have hshift : (cfg.u32Baud <<< 4).toNat = 16 * cfg.u32Baud.toNat := by
    rw [BitVec.toNat_shiftLeft, Nat.shiftLeft_eq]
    omega
  rw [gt_iff_lt, BitVec.lt_def, hshift, Nat.not_lt]
  exact Iff.rfl

/-- The divider lies between 2 and 256. -/
theorem divider_range (hbaud : cfg.u32Baud ≠ 0) :
    cfg.FastEnough ∧ cfg.divider ≤ 256 ↔
      16 * cfg.u32Baud.toNat ≤ cfg.u32Pclk.toNat ∧
        cfg.u32Pclk.toNat < 2056 * cfg.u32Baud.toNat := by
  have hpos : cfg.u32Baud.toNat ≠ 0 := fun h => hbaud (BitVec.eq_of_toNat_eq h)
  have hlarge : cfg.divider ≤ 256 ↔ cfg.u32Pclk.toNat < 2056 * cfg.u32Baud.toNat := by
    rw [I2cCfg.divider, Nat.div_div_eq_div_mul, ← Nat.lt_succ_iff, Nat.div_lt_iff_lt_mul (by omega)]
    omega
  rw [hlarge]
  exact Iff.rfl

theorem toNat_tm (hlow : 16 * cfg.u32Baud.toNat ≤ cfg.u32Pclk.toNat)
    (hhigh : cfg.u32Pclk.toNat < 2056 * cfg.u32Baud.toNat) :
    ((((cfg.u32Pclk / cfg.u32Baud) >>> 3 - 1).setWidth 8).setWidth 32 : Word).toNat + 1 =
      cfg.divider := by
  have hpos : 0 < cfg.u32Baud.toNat := by omega
  have hfast : 16 ≤ cfg.u32Pclk.toNat / cfg.u32Baud.toNat := (Nat.le_div_iff_mul_le hpos).2 hlow
  have hsmall : cfg.u32Pclk.toNat / cfg.u32Baud.toNat < 2056 := (Nat.div_lt_iff_lt_mul hpos).2 hhigh
  have hquotient : ((cfg.u32Pclk / cfg.u32Baud) >>> 3).toNat = cfg.divider := by
    rw [BitVec.toNat_ushiftRight, BitVec.toNat_udiv, Nat.shiftRight_eq_div_pow]
    rfl
  have hdivider : 2 ≤ cfg.divider ∧ cfg.divider ≤ 256 := by
    unfold I2cCfg.divider
    omega
  have hone : (1 : Word) ≤ (cfg.u32Pclk / cfg.u32Baud) >>> 3 := by
    rw [BitVec.le_def, hquotient]
    exact Nat.le_of_lt hdivider.1
  rw [BitVec.toNat_setWidth_of_le (by decide), BitVec.toNat_setWidth, BitVec.toNat_sub_of_le hone,
    hquotient]
  show (cfg.divider - 1) % 256 + 1 = cfg.divider
  omega

/-- **`I2C_Init` keeps its promises in master mode alone, where the divider is between 2 and 256.** -/
theorem i2c_init_iff (x : I2cPeriph) (cfg : I2cCfg) (s : I2cState) :
    (∃ enRet cfg' s', i2cInit x cfg s = some (enRet, cfg', s') ∧
        cfg.Promised enRet (s'.i2c x)) ↔
      cfg.enMode = .master ∧ 16 * cfg.u32Baud.toNat ≤ cfg.u32Pclk.toNat ∧
        cfg.u32Pclk.toNat < 2056 * cfg.u32Baud.toNat := by
  constructor
  · rintro ⟨enRet, cfg', s', hrun, hpromised⟩
    by_cases hrefused : cfg.u32Baud <<< 4 > cfg.u32Pclk
    · -- the mode is there already
      obtain ⟨s'', hbranch, hcr⟩ := i2cInit_refused (x := x) (s := s) hrefused
      rw [hbranch] at hrun
      cases hrun
      exact absurd hcr (hpromised.error rfl)
    · cases hmode : cfg.enMode with
      | slave =>
          obtain ⟨cfg'', s'', hbranch, hcr, -⟩ := i2cInit_slave (x := x) (s := s) hmode hrefused
          rw [hbranch] at hrun
          cases hrun
          exact absurd hcr (hpromised.error rfl)
      | master =>
          have hbaud : cfg.u32Baud ≠ 0 := by
            intro hzero
            rw [i2cInit_master_zero hmode hrefused hzero] at hrun
            cases hrun
          obtain ⟨s'', hbranch, -⟩ := i2cInit_master (x := x) (s := s) hmode hrefused hbaud
          rw [hbranch] at hrun
          cases hrun
          exact ⟨rfl, (divider_range hbaud).1 ((hpromised.master hmode).1 rfl)⟩
  · rintro ⟨hmode, hlow, hhigh⟩
    have hbaud : cfg.u32Baud ≠ 0 := by
      intro hzero
      rw [hzero] at hlow hhigh
      exact Nat.not_lt_zero _ hhigh
    have hrefused : ¬ cfg.u32Baud <<< 4 > cfg.u32Pclk := by
      have hpclk := cfg.u32Pclk.isLt
      rw [shifted_le_iff (by omega)]
      exact hlow
    obtain ⟨s', hbranch, htm, hfilter⟩ := i2cInit_master (x := x) (s := s) hmode hrefused hbaud
    refine ⟨.ok, cfg, s', hbranch, ?_⟩
    constructor
    · intro _
      simp [divider_range hbaud, hlow, hhigh]
    · intro _ _
      rw [htm]
      exact toNat_tm hlow hhigh
    · intro _ _
      exact hfilter
    · intro hslave
      rw [hmode] at hslave
      cases hslave
    · intro herror
      cases herror

/-- A slave at 100 kHz with a clock of 4 MHz: everything is written, and the result is `Error`. A master
    without a rate divides by zero. -/
theorem i2c_init_slave_error :
    let slave : I2cCfg := ⟨4000000, 100000, .slave, 0x55, false⟩
    let master : I2cCfg := ⟨4000000, 0, .master, 0, false⟩
    let s : I2cState := ⟨0, fun _ => ⟨0, 0, 0, 0⟩⟩
    slave.FastEnough ∧
      (∃ cfg' s', i2cInit .i2c0 slave s = some (.error, cfg', s') ∧
        (s'.i2c .i2c0).cr = slave.enMode.value ∧ (s'.i2c .i2c0).addr = 0xAA ∧
        ¬ slave.Promised .error (s'.i2c .i2c0)) ∧
      i2cInit .i2c0 master s = none := by
  intro slave master s
  refine ⟨?_, ⟨_, _, rfl, rfl, by decide, fun h => h.error rfl rfl⟩, rfl⟩
  show 16 * 100000 ≤ 4000000
  omega

end Hc32
