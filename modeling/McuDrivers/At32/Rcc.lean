import McuDrivers.At32.Flash
import McuDrivers.Library.Checked

set_option autoImplicit false

/-! # AT32F4xx: clock tree

The functions of `at32f4xx_rcc.c` that set up `RCC->CFG` and the one that computes the frequencies
from it, as compiled for the AT32F407. The arithmetic of `RCC_GetClocksFreq` is `Checked`, so that it
has no result where the C code would overflow or divide by zero. -/

namespace At32

/-! ## Constants -/

def hsiValue : Word := 8000000

def rccCfgSysclksel : Word := 0x00000003
def rccCfgSysclksts : Word := 0x0000000C
def rccCfgAhbpsc : Word := 0x000000F0
def rccCfgAhbpsc3 : Word := 0x00000080
def rccCfgApb1psc : Word := 0x00000700
def rccCfgApb1psc2 : Word := 0x00000400
def rccCfgApb2psc : Word := 0x00003800
def rccCfgApb2psc2 : Word := 0x00002000
def rccCfgPllrc : Word := 0x00010000
def rccCfgPllhsepsc : Word := 0x00020000
def rccCfgAdcpsc : Word := 0x1000C000
def rccCfgPllcfgMask : Word := 0x1FC0FFFF
def rccCfgPllmult : Word := 0x603C0000
def rccCfgPllmultLbMask : Word := 0x003C0000
def rccCfgPllmultHbMask : Word := 0x60000000
def rccCfgPllmultLbPos : Nat := 18
def rccCfgPllmultHbPos : Nat := 29
def rccCfgPllmultHbOffset : Nat := 4
def rccCfgPllrange : Word := 0x80000000
def rccCfgUsbpsc : Word := 0x08C00000

def cfgAdcpscPos : Nat := 14
def cfgAdcpscBit2IdxMask : Word := 4
def cfgAdcpscRstMask : Word := ~~~rccCfgAdcpsc
def cfgAdcpscSetMask : Word := 0x0000C000
def cfgAdcpscBit2SetMask : Word := 0x10000000

def rccHsiDivEn : Word := 0x02000000
def rccHsiSysCtrl : Word := 0x00000200
def rccHseDivMask : Word := 0x00003000
def rccHseDivPos : Nat := 12

def rccPllRange : Word := 72000000

/-! ## Arguments

The values that each setter takes. Where the value is the name of a divider or a factor, the number
stands beside it. -/

def rccPllRefClkHsiDiv2 : Word := 0x00000000
def rccPllRefClkHseDiv1 : Word := 0x00010000
def rccPllRefClkHseDiv2 : Word := 0x00030000

def rccRangeLessEqual72Mhz : Word := 0x00000000
def rccRangeGreatThan72Mhz : Word := 0x80000000

def rccSysclkSelctionHsi : Word := 0x00000000
def rccSysclkSelctionHse : Word := 0x00000001
def rccSysclkSelctionPll : Word := 0x00000002

/-- `RCC_PLLMult_2` to `RCC_PLLMult_64` -/
def rccPllMults : List (Word × Nat) := [
  (0x00000000, 2), (0x00040000, 3), (0x00080000, 4), (0x000C0000, 5), (0x00100000, 6),
  (0x00140000, 7), (0x00180000, 8), (0x001C0000, 9), (0x00200000, 10), (0x00240000, 11),
  (0x00280000, 12), (0x002C0000, 13), (0x00300000, 14), (0x00340000, 15), (0x00380000, 16),
  (0x20000000, 17), (0x20040000, 18), (0x20080000, 19), (0x200C0000, 20), (0x20100000, 21),
  (0x20140000, 22), (0x20180000, 23), (0x201C0000, 24), (0x20200000, 25), (0x20240000, 26),
  (0x20280000, 27), (0x202C0000, 28), (0x20300000, 29), (0x20340000, 30), (0x20380000, 31),
  (0x203C0000, 32), (0x40000000, 33), (0x40040000, 34), (0x40080000, 35), (0x400C0000, 36),
  (0x40100000, 37), (0x40140000, 38), (0x40180000, 39), (0x401C0000, 40), (0x40200000, 41),
  (0x40240000, 42), (0x40280000, 43), (0x402C0000, 44), (0x40300000, 45), (0x40340000, 46),
  (0x40380000, 47), (0x403C0000, 48), (0x60000000, 49), (0x60040000, 50), (0x60080000, 51),
  (0x600C0000, 52), (0x60100000, 53), (0x60140000, 54), (0x60180000, 55), (0x601C0000, 56),
  (0x60200000, 57), (0x60240000, 58), (0x60280000, 59), (0x602C0000, 60), (0x60300000, 61),
  (0x60340000, 62), (0x60380000, 63), (0x603C0000, 64)]

/-- `RCC_SYSCLK_Div1` to `RCC_SYSCLK_Div512` -/
def rccSysclkDivs : List (Word × Nat) := [
  (0x00000000, 1), (0x00000080, 2), (0x00000090, 4), (0x000000A0, 8), (0x000000B0, 16),
  (0x000000C0, 64), (0x000000D0, 128), (0x000000E0, 256), (0x000000F0, 512)]

/-- `RCC_AHBCLK_Div1` to `RCC_AHBCLK_Div16` -/
def rccAhbclkDivs : List (Word × Nat) := [
  (0x00000000, 1), (0x00000400, 2), (0x00000500, 4), (0x00000600, 8), (0x00000700, 16)]

/-- `RCC_APB2CLK_Div2` to `RCC_APB2CLK_Div16` -/
def rccApb2clkDivs : List (Word × Nat) := [
  (0x00000000, 2), (0x00004000, 4), (0x00008000, 6), (0x0000C000, 8), (0x10004000, 12),
  (0x1000C000, 16)]

/-- `RCC_USBCLKSelection_PLL_Div1_5` to `RCC_USBCLKSelection_PLL_Div4` -/
def rccUsbclkSelections : List Word := [
  0x00000000, 0x00400000, 0x00800000, 0x00C00000, 0x08000000, 0x08400000, 0x08800000]

def isRccPllCfg (cfg : Word) : Prop :=
  cfg = rccPllRefClkHsiDiv2 ∨ cfg = rccPllRefClkHseDiv1 ∨ cfg = rccPllRefClkHseDiv2

def isRccPllMult (mult : Word) : Prop := mult &&& ~~~rccCfgPllmult = 0

def isRccPllRange (cfg : Word) : Prop :=
  cfg = rccRangeLessEqual72Mhz ∨ cfg = rccRangeGreatThan72Mhz

def isRccSysclkCfg (cfg : Word) : Prop :=
  cfg = rccSysclkSelctionHsi ∨ cfg = rccSysclkSelctionHse ∨ cfg = rccSysclkSelctionPll

def isRccAhbclk (clk : Word) : Prop := clk ∈ rccSysclkDivs.map Prod.fst

def isRccApbclk (clk : Word) : Prop := clk ∈ rccAhbclkDivs.map Prod.fst

def isRccUsbclkCfg (cfg : Word) : Prop := cfg ∈ rccUsbclkSelections

def isRccAdcclk (clk : Word) : Prop := clk ∈ rccApb2clkDivs.map Prod.fst

/-! ## Setters -/

structure Rcc where
  cfg : Word
  misc : Word
  misc2 : Word

/-- `tmpreg = RCC->CFG`, the bits of `keep` kept and those of `bits` set, `RCC->CFG = tmpreg`. -/
def Rcc.storeCfg (keep bits : Word) (s : Rcc) : Rcc := { s with cfg := (s.cfg &&& keep) ||| bits }

def rccPllConfig (rccPllRefClk rccPllMult rccPllRange : Word) : Rcc → Rcc :=
  Rcc.storeCfg rccCfgPllcfgMask (rccPllRefClk ||| rccPllMult ||| rccPllRange)

def rccSysclkConfig (rccSysclkSelect : Word) : Rcc → Rcc :=
  Rcc.storeCfg (~~~rccCfgSysclksel) rccSysclkSelect

def rccAhbclkConfig (rccSysclkDiv : Word) : Rcc → Rcc := Rcc.storeCfg (~~~rccCfgAhbpsc) rccSysclkDiv

def rccApb1clkConfig (rccHclkDiv : Word) : Rcc → Rcc := Rcc.storeCfg (~~~rccCfgApb1psc) rccHclkDiv

def rccApb2clkConfig (rccHclkDiv : Word) : Rcc → Rcc :=
  Rcc.storeCfg (~~~rccCfgApb2psc) (rccHclkDiv <<< 3)

def rccUsbclkConfig (rccUsbclkSelect : Word) : Rcc → Rcc :=
  Rcc.storeCfg (~~~rccCfgUsbpsc) rccUsbclkSelect

def rccAdcclkConfig (rccPclk2Div : Word) : Rcc → Rcc := Rcc.storeCfg cfgAdcpscRstMask rccPclk2Div

inductive RccCall
  | pll (rccPllRefClk rccPllMult rccPllRange : Word)
  | sysclk (rccSysclkSelect : Word)
  | ahbclk (rccSysclkDiv : Word)
  | apb1clk (rccHclkDiv : Word)
  | apb2clk (rccHclkDiv : Word)
  | usbclk (rccUsbclkSelect : Word)
  | adcclk (rccPclk2Div : Word)

namespace RccCall

/-- What the `assert_param` lines of the function let through. -/
def Accepted : RccCall → Prop
  | pll refClk mult range => isRccPllCfg refClk ∧ isRccPllMult mult ∧ isRccPllRange range
  | sysclk select => isRccSysclkCfg select
  | ahbclk div => isRccAhbclk div
  | apb1clk div => isRccApbclk div
  | apb2clk div => isRccApbclk div
  | usbclk select => isRccUsbclkCfg select
  | adcclk div => isRccAdcclk div

def run : RccCall → Rcc → Rcc
  | pll refClk mult range => rccPllConfig refClk mult range
  | sysclk select => rccSysclkConfig select
  | ahbclk div => rccAhbclkConfig div
  | apb1clk div => rccApb1clkConfig div
  | apb2clk div => rccApb2clkConfig div
  | usbclk select => rccUsbclkConfig select
  | adcclk div => rccAdcclkConfig div

end RccCall

/-! ## Frequencies -/

structure RccClockType where
  sysclkFreq : Word
  ahbclkFreq : Word
  apb1clkFreq : Word
  apb2clkFreq : Word
  adcclkFreq : Word

def apbahbPscTable : List Word := [1, 2, 3, 4, 6, 7, 8, 9]

def adcPscTable : List Word := [2, 4, 6, 8, 2, 12, 8, 16]

/-- `RCC_GET_PLLMULT` -/
def rccGetPllmult (mult : Word) : Option Word :=
  Checked.add
    (((mult &&& rccCfgPllmultLbMask) >>> rccCfgPllmultLbPos) |||
      ((mult &&& rccCfgPllmultHbMask) >>> (rccCfgPllmultHbPos - rccCfgPllmultHbOffset)))
    (if mult &&& rccCfgPllmultHbMask = 0 ∧ mult &&& rccCfgPllmultLbMask ≠ rccCfgPllmultLbMask then 2
      else 1)

/-- The clock that goes into the PLL. -/
def pllEntry (hseValue : Word) (s : Rcc) : Option Word :=
  let pllrefclk := s.cfg &&& rccCfgPllrc
  if pllrefclk = 0x00 then some (hsiValue >>> 1)
  else if s.cfg &&& rccCfgPllhsepsc ≠ 0 then do
    let prediv := (s.misc2 &&& rccHseDivMask) >>> rccHseDivPos
    let divisor ← Checked.add prediv 2
    Checked.div hseValue divisor
  else some hseValue

/-- Without `PLLRANGE` the PLL does not go beyond 72 MHz. -/
def fixRange (s : Rcc) (freq : Word) : Word :=
  if s.cfg &&& rccCfgPllrange = 0 ∧ rccPllRange < freq then rccPllRange else freq

def pllFreq (hseValue : Word) (s : Rcc) : Option Word := do
  let pllmult ← rccGetPllmult (s.cfg &&& rccCfgPllmult)
  let entry ← pllEntry hseValue s
  let freq ← Checked.mul entry pllmult
  return fixRange s freq

def hsiFreq (s : Rcc) : Option Word :=
  if s.misc &&& rccHsiDivEn ≠ 0 ∧ s.misc2 &&& rccHsiSysCtrl ≠ 0 then Checked.mul hsiValue 6
  else some hsiValue

def sysclkFreq (hseValue : Word) (s : Rcc) : Option Word :=
  let tmp := s.cfg &&& rccCfgSysclksts
  if tmp = 0x00 then hsiFreq s
  else if tmp = 0x04 then some hseValue
  else if tmp = 0x08 then pllFreq hseValue s
  else some hsiValue

/-- The shift that a prescaler field of `CFG` stands for: `top` is the highest bit of the field. -/
def apbahbPsc (field top : Word) (pos : Nat) (cfg : Word) : Option Word :=
  let tmp := (cfg &&& (field ^^^ top)) >>> pos
  if cfg &&& top ≠ 0 then apbahbPscTable[tmp.toNat]? else some 0

def adcPsc (cfg : Word) : Option Word :=
  let tmp := (cfg &&& cfgAdcpscSetMask) >>> cfgAdcpscPos
  if cfg &&& cfgAdcpscBit2SetMask ≠ 0 then adcPscTable[(tmp ||| cfgAdcpscBit2IdxMask).toNat]?
  else adcPscTable[tmp.toNat]?

def rccGetClocksFreq (hseValue : Word) (s : Rcc) : Option RccClockType := do
  let sysclk ← sysclkFreq hseValue s
  let ahbPsc ← apbahbPsc rccCfgAhbpsc rccCfgAhbpsc3 4 s.cfg
  let ahbclk := sysclk >>> ahbPsc
  let apb1Psc ← apbahbPsc rccCfgApb1psc rccCfgApb1psc2 8 s.cfg
  let apb1clk := ahbclk >>> apb1Psc
  let apb2Psc ← apbahbPsc rccCfgApb2psc rccCfgApb2psc2 11 s.cfg
  let apb2clk := ahbclk >>> apb2Psc
  let psc ← adcPsc s.cfg
  let adcclk ← Checked.div apb2clk psc
  return ⟨sysclk, ahbclk, apb1clk, apb2clk, adcclk⟩

end At32
