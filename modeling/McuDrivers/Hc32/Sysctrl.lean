import McuDrivers.Library.BitField
import McuDrivers.Library.Prog

set_option autoImplicit false

/-! # HC32L13x: system clocks

The clock functions of `sysctrl.c`. The state is what they read and write: the registers of the
system controller, three registers of other peripherals, the global `SystemCoreClock` and the factory
trim table, a row of halfwords. An argument of an enumeration type may be any number, as in C; what
is stored of it has the width of the field. -/

namespace Hc32

/-! ## Registers -/

namespace Sysctrl0

def rchEn : BitField 32 := ⟨0, 1, by decide⟩
def xthEn : BitField 32 := ⟨1, 1, by decide⟩
def rclEn : BitField 32 := ⟨2, 1, by decide⟩
def xtlEn : BitField 32 := ⟨3, 1, by decide⟩
def pllEn : BitField 32 := ⟨4, 1, by decide⟩
def clksw : BitField 32 := ⟨5, 3, by decide⟩
def hclkPrs : BitField 32 := ⟨8, 3, by decide⟩
def pclkPrs : BitField 32 := ⟨11, 2, by decide⟩

end Sysctrl0

namespace RchCr

def trim : BitField 32 := ⟨0, 11, by decide⟩
def stable : BitField 32 := ⟨11, 1, by decide⟩

end RchCr

namespace XthCr

def driver : BitField 32 := ⟨0, 2, by decide⟩
def startup : BitField 32 := ⟨4, 2, by decide⟩
def stable : BitField 32 := ⟨6, 1, by decide⟩

end XthCr

namespace RclCr

def trim : BitField 32 := ⟨0, 10, by decide⟩
def startup : BitField 32 := ⟨10, 2, by decide⟩
def stable : BitField 32 := ⟨12, 1, by decide⟩

end RclCr

namespace XtlCr

def driver : BitField 32 := ⟨0, 2, by decide⟩
def ampSel : BitField 32 := ⟨2, 2, by decide⟩
def startup : BitField 32 := ⟨4, 2, by decide⟩
def stable : BitField 32 := ⟨6, 1, by decide⟩

end XtlCr

namespace PllCr

def refsel : BitField 32 := ⟨0, 2, by decide⟩
def fosc : BitField 32 := ⟨2, 3, by decide⟩
def divn : BitField 32 := ⟨5, 4, by decide⟩
def frsel : BitField 32 := ⟨13, 2, by decide⟩
def startup : BitField 32 := ⟨15, 3, by decide⟩
def stable : BitField 32 := ⟨18, 1, by decide⟩

end PllCr

namespace PeriClken

def adc : BitField 32 := ⟨16, 1, by decide⟩
def gpio : BitField 32 := ⟨28, 1, by decide⟩

end PeriClken

namespace BgrCr

def bgrEn : BitField 32 := ⟨0, 1, by decide⟩

end BgrCr

structure Sysctrl where
  sysctrl0 : BitVec 32
  sysctrl2 : BitVec 32
  rchCr : BitVec 32
  xthCr : BitVec 32
  rclCr : BitVec 32
  xtlCr : BitVec 32
  pllCr : BitVec 32
  periClken : BitVec 32
  pcads : BitVec 32
  pdads : BitVec 32
  bgrCr : BitVec 32
  systemCoreClock : Nat
  /-- the halfwords from `RC_TRIM_BASE_ADDR` on -/
  trim : Nat → BitVec 16

abbrev SysctrlProg := Prog Sysctrl

/-- The values of `en_result_t` that the functions return. -/
inductive SysctrlResult where
  | ok
  | errorInvalidParameter
  | errorInvalidMode
  deriving DecidableEq

/-! ## Constants -/

def systemXth : Nat := 32 * 1000 * 1000
def systemXtl : Nat := 32768

@[match_pattern] def sysctrlClkRch : Nat := 0
@[match_pattern] def sysctrlClkXth : Nat := 1
@[match_pattern] def sysctrlClkRcl : Nat := 2
@[match_pattern] def sysctrlClkXtl : Nat := 3
@[match_pattern] def sysctrlClkPll : Nat := 4

def sysctrlRchFreq4MHz : Nat := 4

def sysctrlPllRch : Nat := 3

/-- Positions in the trim table. -/
def rchCrTrim24MVal (s : Sysctrl) : BitVec 16 := s.trim 0
def rchCrTrim22_12MVal (s : Sysctrl) : BitVec 16 := s.trim 1
def rchCrTrim16MVal (s : Sysctrl) : BitVec 16 := s.trim 2
def rchCrTrim8MVal (s : Sysctrl) : BitVec 16 := s.trim 3
def rclCrTrim38400Val (s : Sysctrl) : BitVec 16 := s.trim 0x10

/-! ## Frequencies -/

/-- The frequency of RCH, told from its trim value. -/
def rchFreqOf (s : Sysctrl) (trim : BitVec 16) : Nat :=
  if trim = rchCrTrim24MVal s then 24000000
  else if trim = rchCrTrim22_12MVal s then 22120000
  else if trim = rchCrTrim16MVal s then 16000000
  else if trim = rchCrTrim8MVal s then 8000000
  else 4000000

def rchFreq (s : Sysctrl) : Nat := rchFreqOf s ((RchCr.trim.get s.rchCr).setWidth 16)

def rclFreq (s : Sysctrl) : Nat :=
  if rclCrTrim38400Val s = (RclCr.trim.get s.rclCr).setWidth 16 then 38400 else 32768

/-- The input of the PLL times its multiplier. -/
def pllFreq (s : Sysctrl) : Nat :=
  (if PllCr.refsel.get s.pllCr = .ofNat _ sysctrlPllRch then rchFreq s else systemXth) *
    (PllCr.divn.get s.pllCr).toNat

/-- The frequency of a clock source, as `switch (enSrc)` computes it. -/
def sourceFreq (s : Sysctrl) (enSrc : Nat) : Nat :=
  match enSrc with
  | sysctrlClkRch => rchFreq s
  | sysctrlClkXth => systemXth
  | sysctrlClkRcl => rclFreq s
  | sysctrlClkXtl => systemXtl
  | sysctrlClkPll => pllFreq s
  | _ => 0

def sysctrlGetHClkFreq (s : Sysctrl) : Nat :=
  sourceFreq s (Sysctrl0.clksw.get s.sysctrl0).toNat >>> (Sysctrl0.hclkPrs.get s.sysctrl0).toNat

def systemCoreClockUpdate : SysctrlProg Unit :=
  .put fun s => { s with systemCoreClock := sysctrlGetHClkFreq s }

/-! ## Setters -/

def sysctrlUnlock : SysctrlProg Unit := do
  .put fun s => { s with sysctrl2 := 0x5A5A }
  .put fun s => { s with sysctrl2 := 0xA5A5 }

/-- The registers with a `STABLE` bit, by their source. -/
def Sysctrl.setStable (enSource : Nat) (s : Sysctrl) : Sysctrl :=
  match enSource with
  | sysctrlClkRch => { s with rchCr := RchCr.stable.set 1 s.rchCr }
  | sysctrlClkXth => { s with xthCr := XthCr.stable.set 1 s.xthCr }
  | sysctrlClkRcl => { s with rclCr := RclCr.stable.set 1 s.rclCr }
  | sysctrlClkXtl => { s with xtlCr := XtlCr.stable.set 1 s.xtlCr }
  | sysctrlClkPll => { s with pllCr := PllCr.stable.set 1 s.pllCr }
  | _ => s

/-- `while(bFlag && (1 != STABLE)) { ; }`. The loop is left once the hardware has set `STABLE`; a call
    whose oscillator never becomes stable does not return. -/
def waitStable (enSource : Nat) (bFlag : Bool) : SysctrlProg Unit :=
  if bFlag then .put fun s => s.setStable enSource else return

/-- The `switch` of `Sysctrl_ClkSourceEnable`. `delay10us` reads `SystemCoreClock` and changes nothing
    that is read here. -/
def clkSourceEnableSwitch (enSource : Nat) (bFlag : Bool) : SysctrlProg SysctrlResult :=
  let en := BitVec.ofBool bFlag
  match enSource with
  | sysctrlClkRch => do
      .put fun s => { s with sysctrl0 := Sysctrl0.rchEn.set en s.sysctrl0 }
      waitStable sysctrlClkRch bFlag
      return .ok
  | sysctrlClkXth => do
      .put fun s => { s with periClken := PeriClken.gpio.set 1 s.periClken }
      .put fun s => { s with pdads := s.pdads ||| 3 }
      .put fun s => { s with sysctrl0 := Sysctrl0.xthEn.set en s.sysctrl0 }
      waitStable sysctrlClkXth bFlag
      return .ok
  | sysctrlClkRcl => do
      .put fun s => { s with sysctrl0 := Sysctrl0.rclEn.set en s.sysctrl0 }
      waitStable sysctrlClkRcl bFlag
      return .ok
  | sysctrlClkXtl => do
      .put fun s => { s with periClken := PeriClken.gpio.set 1 s.periClken }
      .put fun s => { s with pcads := s.pcads ||| 0xC000 }
      .put fun s => { s with sysctrl0 := Sysctrl0.xtlEn.set en s.sysctrl0 }
      waitStable sysctrlClkXtl bFlag
      return .ok
  | sysctrlClkPll => do
      .put fun s => { s with periClken := PeriClken.adc.set 1 s.periClken }
      .put fun s => { s with bgrCr := BgrCr.bgrEn.set 1 s.bgrCr }
      .put fun s => { s with sysctrl0 := Sysctrl0.pllEn.set en s.sysctrl0 }
      waitStable sysctrlClkPll bFlag
      return .ok
  | _ => return .errorInvalidParameter

def sysctrlClkSourceEnable (enSource : Nat) (bFlag : Bool) : SysctrlProg SysctrlResult := do
  sysctrlUnlock
  let u32Temp ← Prog.get fun s => s.periClken
  let enRet ← clkSourceEnableSwitch enSource bFlag
  .put fun s => { s with periClken := u32Temp }
  return enRet

def sysctrlXthDriverCfg (enDriver : Nat) : SysctrlProg SysctrlResult := do
  .put fun s => { s with xthCr := XthCr.driver.set (.ofNat _ enDriver) s.xthCr }
  return .ok

def sysctrlXtlDriverCfg (enAmp enDriver : Nat) : SysctrlProg SysctrlResult := do
  .put fun s => { s with xtlCr := XtlCr.ampSel.set (.ofNat _ enAmp) s.xtlCr }
  .put fun s => { s with xtlCr := XtlCr.driver.set (.ofNat _ enDriver) s.xtlCr }
  return .ok

def sysctrlSetXthStableTime (enCycle : Nat) : SysctrlProg SysctrlResult := do
  .put fun s => { s with xthCr := XthCr.startup.set (.ofNat _ enCycle) s.xthCr }
  return .ok

def sysctrlSetRclStableTime (enCycle : Nat) : SysctrlProg SysctrlResult := do
  .put fun s => { s with rclCr := RclCr.startup.set (.ofNat _ enCycle) s.rclCr }
  return .ok

def sysctrlSetXtlStableTime (enCycle : Nat) : SysctrlProg SysctrlResult := do
  .put fun s => { s with xtlCr := XtlCr.startup.set (.ofNat _ enCycle) s.xtlCr }
  return .ok

def sysctrlSetPllStableTime (enCycle : Nat) : SysctrlProg SysctrlResult := do
  .put fun s => { s with pllCr := PllCr.startup.set (.ofNat _ enCycle) s.pllCr }
  return .ok

def sysctrlSysClkSwitch (enSource : Nat) : SysctrlProg SysctrlResult := do
  sysctrlUnlock
  .put fun s => { s with sysctrl0 := Sysctrl0.clksw.set (.ofNat _ enSource) s.sysctrl0 }
  systemCoreClockUpdate
  return .ok

def sysctrlSetRchTrim (enRchFreq : Nat) : SysctrlProg SysctrlResult := do
  .put fun s => { s with rchCr := RchCr.trim.set ((s.trim enRchFreq).setWidth _) s.rchCr }
  return .ok

def sysctrlSetRclTrim (enRclFreq : Nat) : SysctrlProg SysctrlResult := do
  .put fun s => { s with rclCr := RclCr.trim.set ((s.trim enRclFreq).setWidth _) s.rclCr }
  return .ok

def sysctrlSetHclkDiv (enHclkDiv : Nat) : SysctrlProg SysctrlResult := do
  sysctrlUnlock
  .put fun s => { s with sysctrl0 := Sysctrl0.hclkPrs.set (.ofNat _ enHclkDiv) s.sysctrl0 }
  return .ok

def sysctrlSetPclkDiv (enPclkDiv : Nat) : SysctrlProg SysctrlResult := do
  sysctrlUnlock
  .put fun s => { s with sysctrl0 := Sysctrl0.pclkPrs.set (.ofNat _ enPclkDiv) s.sysctrl0 }
  return .ok

/-! ## The PLL -/

/-- `stc_sysctrl_pll_cfg_t` -/
structure PllCfg where
  enInFreq : Nat
  enOutFreq : Nat
  enPllClkSrc : Nat
  enPllMul : Nat

/-- "PLL最高时钟不能超过48MHz": whether the check refuses the configuration. -/
def PllCfg.refused (cfg : PllCfg) (s : Sysctrl) : Bool :=
  let trim := (RchCr.trim.get s.rchCr).setWidth 16
  if cfg.enPllClkSrc = sysctrlPllRch then
    (rchCrTrim24MVal s = trim ∧ cfg.enPllMul > 2) ∨
    (rchCrTrim22_12MVal s = trim ∧ cfg.enPllMul > 2) ∨
    (rchCrTrim16MVal s = trim ∧ cfg.enPllMul > 3) ∨
    (rchCrTrim8MVal s = trim ∧ cfg.enPllMul > 6)
  else systemXth * cfg.enPllMul % 2 ^ 32 > 48 * 1000 * 1000

def sysctrlSetPllFreq (cfg : PllCfg) : SysctrlProg SysctrlResult := do
  let refused ← Prog.get cfg.refused
  if refused then return .errorInvalidMode
  else do
    .put fun s => { s with pllCr := PllCr.frsel.set (.ofNat _ cfg.enInFreq) s.pllCr }
    .put fun s => { s with pllCr := PllCr.fosc.set (.ofNat _ cfg.enOutFreq) s.pllCr }
    .put fun s => { s with pllCr := PllCr.divn.set (.ofNat _ cfg.enPllMul) s.pllCr }
    .put fun s => { s with pllCr := PllCr.refsel.set (.ofNat _ cfg.enPllClkSrc) s.pllCr }
    return .ok

/-! ## Initialisation -/

/-- `stc_sysctrl_clk_cfg_t` -/
structure ClkCfg where
  enClkSrc : Nat
  enHClkDiv : Nat
  enPClkDiv : Nat

/-- "系统时钟参数配置" -/
def clkInitParameters (enClkSrc : Nat) : SysctrlProg SysctrlResult := do
  match enClkSrc with
  | sysctrlClkRch => return .ok
  | sysctrlClkXth => do
      let _ ← sysctrlXthDriverCfg 3
      let _ ← sysctrlSetXthStableTime 3
      return .ok
  | sysctrlClkRcl => do
      let _ ← sysctrlSetRclStableTime 3
      return .ok
  | sysctrlClkXtl => do
      let _ ← sysctrlXtlDriverCfg 3 3
      let _ ← sysctrlSetXtlStableTime 3
      return .ok
  | sysctrlClkPll => do
      let _ ← sysctrlSetPllStableTime 7
      return .ok
  | _ => return .errorInvalidParameter

/-- An invalid source is noted, and the rest is done with it all the same. -/
def sysctrlClkInit (cfg : ClkCfg) : SysctrlProg SysctrlResult := do
  let enRet ← clkInitParameters cfg.enClkSrc
  let _ ← sysctrlClkSourceEnable cfg.enClkSrc true
  let _ ← sysctrlSysClkSwitch cfg.enClkSrc
  let _ ← sysctrlSetHclkDiv cfg.enHClkDiv
  let _ ← sysctrlSetPclkDiv cfg.enPClkDiv
  return enRet

def sysctrlClkDeInit : SysctrlProg SysctrlResult := do
  let _ ← sysctrlSetRchTrim sysctrlRchFreq4MHz
  let _ ← sysctrlClkSourceEnable sysctrlClkRch true
  let _ ← sysctrlSysClkSwitch sysctrlClkRch
  let _ ← sysctrlClkSourceEnable sysctrlClkXth false
  let _ ← sysctrlClkSourceEnable sysctrlClkRcl false
  let _ ← sysctrlClkSourceEnable sysctrlClkXtl false
  let _ ← sysctrlClkSourceEnable sysctrlClkPll false
  let _ ← sysctrlSetHclkDiv 0
  let _ ← sysctrlSetPclkDiv 0
  return .ok

/-- The registers after reset: RCH runs at 4 MHz, and nothing is divided. -/
def resetSysctrl : Sysctrl where
  sysctrl0 := 1
  sysctrl2 := 0
  rchCr := 0x104
  xthCr := 0
  rclCr := 0
  xtlCr := 0
  pllCr := 0
  periClken := 0
  pcads := 0
  pdads := 0
  bgrCr := 0
  systemCoreClock := 4000000
  trim := fun i => 0x100 + .ofNat 16 i

end Hc32
