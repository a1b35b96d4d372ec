import Mathlib.Logic.Function.Basic
import McuDrivers.Hc32.Flash
import McuDrivers.Library.BitField

set_option autoImplicit false

/-! # HC32L13x: DMA controller

The functions of `dmac.c` that write the registers of the DMA controller: `CONF`, which both channels
share, and `CONFA`, `CONFB`, `SRCADR` and `DSTADR` of each channel. -/

namespace Hc32

/-! ## Registers -/

namespace DmacConf

def halt : BitField 32 := ⟨24, 4, by decide⟩
def prio : BitField 32 := .bit 28 (by decide)

end DmacConf

namespace DmacConfa

def tc : BitField 32 := ⟨0, 16, by decide⟩
def bc : BitField 32 := ⟨16, 4, by decide⟩
def triSel : BitField 32 := ⟨23, 6, by decide⟩

end DmacConfa

namespace DmacConfb

def width : BitField 32 := ⟨26, 2, by decide⟩

end DmacConfb

def dmaTransferWidthMsk : BitVec 32 := 0x0C000000
def dmaErrIeMsk : BitVec 32 := 0x00100000
def dmaFisIeMsk : BitVec 32 := 0x00080000
def dmaStatMsk : BitVec 32 := 0x00070000
def dmaTransferReloadMsk : BitVec 32 := 0x00000001
def dmaChEnableMsk : BitVec 32 := 0x80000000
def dmaChPauseMsk : BitVec 32 := 0x40000000
def dmaSoftwareStartMsk : BitVec 32 := 0x20000000
def dmaTriSelMsk : BitVec 32 := 0x1FC00000
def dmaBcSelMsk : BitVec 32 := 0x000F0000
def dmaTcSelMsk : BitVec 32 := 0x0000FFFF
def dmaEnableMsk : BitVec 32 := 0x80000000
def dmaPriorityMsk : BitVec 32 := 0x10000000

structure DmacChannel where
  confa : BitVec 32
  confb : BitVec 32
  srcadr : BitVec 32
  dstadr : BitVec 32

/-- `DmaCh0`, `DmaCh1` -/
inductive DmaCh where
  | ch0
  | ch1
  deriving DecidableEq

structure Dmac where
  conf : BitVec 32
  channel : DmaCh → DmacChannel

abbrev DmacProg := Prog Dmac

/-! ## Parameters -/

inductive DmaPriority where
  | fix
  | loop
  deriving DecidableEq

def DmaPriority.msk : DmaPriority → BitVec 32
  | fix => 0x00000000
  | loop => 0x10000000

inductive DmaTransferWidth where
  | bit8
  | bit16
  | bit32
  deriving DecidableEq

def DmaTransferWidth.msk : DmaTransferWidth → BitVec 32
  | bit8 => 0x00000000
  | bit16 => 0x04000000
  | bit32 => 0x08000000

inductive DmaTransferMode where
  | block
  | burst

def DmaTransferMode.msk : DmaTransferMode → BitVec 32
  | block => 0x00000000
  | burst => 0x10000000

inductive DmaAddressMode where
  | inc
  | fix

def DmaAddressMode.srcMsk : DmaAddressMode → BitVec 32
  | inc => 0x00000000
  | fix => 0x02000000

def DmaAddressMode.dstMsk : DmaAddressMode → BitVec 32
  | inc => 0x00000000
  | fix => 0x01000000

inductive DmaReload where
  | disable
  | enable

def DmaReload.bcTcMsk : DmaReload → BitVec 32
  | disable => 0x00000000
  | enable => 0x00800000

def DmaReload.srcMsk : DmaReload → BitVec 32
  | disable => 0x00000000
  | enable => 0x00400000

def DmaReload.dstMsk : DmaReload → BitVec 32
  | disable => 0x00000000
  | enable => 0x00200000

inductive DmaMsk where
  | oneTransfer
  | continuousTransfer

def DmaMsk.msk : DmaMsk → BitVec 32
  | oneTransfer => 0x00000000
  | continuousTransfer => 0x00000001

/-- `IS_VALID_BLKSIZE` -/
def isValidBlkSize (x : BitVec 16) : Prop :=
  x.setWidth 32 &&& ~~~(dmaBcSelMsk >>> 16) = 0 ∧ 0 < x

/-- `IS_VALID_TRNCNT` -/
def isValidTrnCnt (x : BitVec 16) : Prop := x.setWidth 32 &&& ~~~dmaTcSelMsk = 0

/-- `stc_dma_cfg_t`, as its checks accept it. The trigger sources have numbers below 64. -/
structure DmaCfg where
  enMode : DmaTransferMode
  u16BlockSize : BitVec 16
  u16TransferCnt : BitVec 16
  enTransferWidth : DmaTransferWidth
  enSrcAddrMode : DmaAddressMode
  enDstAddrMode : DmaAddressMode
  enSrcAddrReloadCtl : DmaReload
  enDestAddrReloadCtl : DmaReload
  enSrcBcTcReloadCtl : DmaReload
  u32SrcAddress : BitVec 32
  u32DstAddress : BitVec 32
  enTransferMode : DmaMsk
  enPriority : DmaPriority
  enRequestNum : BitVec 6
  blockSize_valid : isValidBlkSize u16BlockSize
  transferCnt_valid : isValidTrnCnt u16TransferCnt

/-! ## Functions -/

def editChannel (enCh : DmaCh) (edit : DmacChannel → DmacChannel) : DmacProg Unit :=
  .put fun s => { s with channel := Function.update s.channel enCh (edit (s.channel enCh)) }

def editConfa (enCh : DmaCh) (edit : BitVec 32 → BitVec 32) : DmacProg Unit :=
  editChannel enCh fun c => { c with confa := edit c.confa }

def editConfb (enCh : DmaCh) (edit : BitVec 32 → BitVec 32) : DmacProg Unit :=
  editChannel enCh fun c => { c with confb := edit c.confb }

def editConf (edit : BitVec 32 → BitVec 32) : DmacProg Unit :=
  .put fun s => { s with conf := edit s.conf }

/-- What `Dma_InitChannel` does with a configuration. -/
def dmaConfigure (enCh : DmaCh) (cfg : DmaCfg) : DmacProg Unit := do
  editConfb enCh fun _ => 0
  editConfb enCh fun _ =>
    cfg.enMode.msk ||| cfg.enTransferWidth.msk ||| cfg.enSrcAddrMode.srcMsk |||
      cfg.enDstAddrMode.dstMsk ||| cfg.enSrcAddrReloadCtl.srcMsk |||
      cfg.enDestAddrReloadCtl.dstMsk ||| cfg.enSrcBcTcReloadCtl.bcTcMsk ||| cfg.enTransferMode.msk
  editConfa enCh fun v => v &&& ~~~(dmaTriSelMsk ||| dmaBcSelMsk ||| dmaTcSelMsk)
  -- the counts are promoted to `int` before 1 is taken off
  editConfa enCh fun v => v ||| ((cfg.u16TransferCnt.setWidth 32 - 1#32) |||
    ((cfg.u16BlockSize.setWidth 32 - 1#32) <<< 16) ||| (cfg.enRequestNum.setWidth 32 <<< 23))
  editConf fun v => v ||| cfg.enPriority.msk
  editChannel enCh fun c => { c with srcadr := cfg.u32SrcAddress }
  editChannel enCh fun c => { c with dstadr := cfg.u32DstAddress }

/-- `none` is the null pointer. -/
def dmaInitChannel (enCh : DmaCh) (pstcCfg : Option DmaCfg) : DmacProg EnResult :=
  match pstcCfg with
  | none => return .errorInvalidParameter
  | some cfg => do
      dmaConfigure enCh cfg
      return .ok

def dmaEnable : DmacProg Unit := editConf fun v => v ||| dmaEnableMsk

def dmaDisable : DmacProg Unit := editConf fun v => v &&& ~~~dmaEnableMsk

def dmaSwStart (enCh : DmaCh) : DmacProg Unit := editConfa enCh fun v => v ||| dmaSoftwareStartMsk

def dmaSwStop (enCh : DmaCh) : DmacProg Unit := editConfa enCh fun v => v &&& ~~~dmaSoftwareStartMsk

def dmaEnableChannelIrq (enCh : DmaCh) : DmacProg Unit := editConfb enCh fun v => v ||| dmaFisIeMsk

def dmaDisableChannelIrq (enCh : DmaCh) : DmacProg Unit :=
  editConfb enCh fun v => v &&& ~~~dmaFisIeMsk

def dmaEnableChannelErrIrq (enCh : DmaCh) : DmacProg Unit :=
  editConfb enCh fun v => v ||| dmaErrIeMsk

def dmaDisableChannelErrIrq (enCh : DmaCh) : DmacProg Unit :=
  editConfb enCh fun v => v &&& ~~~dmaErrIeMsk

def dmaEnableChannel (enCh : DmaCh) : DmacProg Unit := editConfa enCh fun v => v ||| dmaChEnableMsk

def dmaDisableChannel (enCh : DmaCh) : DmacProg Unit :=
  editConfa enCh fun v => v &&& ~~~dmaChEnableMsk

def dmaSetBlockSize (enCh : DmaCh) (u16BlkSize : BitVec 16) : DmacProg Unit :=
  editConfa enCh fun v =>
    (v &&& ~~~dmaBcSelMsk) ||| (((u16BlkSize.setWidth 32 - 1#32) &&& 0x0F#32) <<< 16)

def dmaSetTransferCnt (enCh : DmaCh) (u16TrnCnt : BitVec 16) : DmacProg Unit :=
  editConfa enCh fun v => (v &&& ~~~dmaTcSelMsk) ||| (u16TrnCnt.setWidth 32 - 1#32)

def dmaEnableContinusTranfer (enCh : DmaCh) : DmacProg Unit :=
  editConfb enCh fun v => v ||| dmaTransferReloadMsk

def dmaDisableContinusTranfer (enCh : DmaCh) : DmacProg Unit :=
  editConfb enCh fun v => v &&& ~~~dmaTransferReloadMsk

def dmaHaltTranfer : DmacProg Unit := editConf fun v => DmacConf.halt.set 1 v

def dmaRecoverTranfer : DmacProg Unit := editConf fun v => DmacConf.halt.set 0 v

def dmaPauseChannelTranfer (enCh : DmaCh) : DmacProg Unit :=
  editConfa enCh fun v => v ||| dmaChPauseMsk

def dmaRecoverChannelTranfer (enCh : DmaCh) : DmacProg Unit :=
  editConfa enCh fun v => v &&& ~~~dmaChPauseMsk

/-- The width is written to `CONFA`. -/
def dmaSetTransferWidth (enCh : DmaCh) (enWidth : DmaTransferWidth) : DmacProg Unit :=
  editConfa enCh fun v => (v &&& ~~~dmaTransferWidthMsk) ||| enWidth.msk

def dmaSetChPriority (enPrio : DmaPriority) : DmacProg Unit :=
  editConf fun v => (v &&& ~~~dmaPriorityMsk) ||| enPrio.msk

def dmaClrStat (enCh : DmaCh) : DmacProg Unit := editConfb enCh fun v => v &&& ~~~dmaStatMsk

def dmaSetSourceAddress (enCh : DmaCh) (u32Address : BitVec 32) : DmacProg Unit :=
  editChannel enCh fun c => { c with srcadr := u32Address }

def dmaSetDestinationAddress (enCh : DmaCh) (u32Address : BitVec 32) : DmacProg Unit :=
  editChannel enCh fun c => { c with dstadr := u32Address }

/-! ## Calls -/

inductive DmaCall where
  | initChannel (enCh : DmaCh) (cfg : Option DmaCfg)
  | setBlockSize (enCh : DmaCh) (u16BlkSize : BitVec 16)
  | setTransferCnt (enCh : DmaCh) (u16TrnCnt : BitVec 16)
  | setTransferWidth (enCh : DmaCh) (enWidth : DmaTransferWidth)
  | setChPriority (enPrio : DmaPriority)
  | setSourceAddress (enCh : DmaCh) (u32Address : BitVec 32)
  | setDestinationAddress (enCh : DmaCh) (u32Address : BitVec 32)
  | enable
  | disable
  | haltTranfer
  | recoverTranfer
  | swStart (enCh : DmaCh)
  | swStop (enCh : DmaCh)
  | enableChannel (enCh : DmaCh)
  | disableChannel (enCh : DmaCh)
  | pauseChannelTranfer (enCh : DmaCh)
  | recoverChannelTranfer (enCh : DmaCh)
  | enableChannelIrq (enCh : DmaCh)
  | disableChannelIrq (enCh : DmaCh)
  | enableChannelErrIrq (enCh : DmaCh)
  | disableChannelErrIrq (enCh : DmaCh)
  | enableContinusTranfer (enCh : DmaCh)
  | disableContinusTranfer (enCh : DmaCh)
  | clrStat (enCh : DmaCh)

def DmaCall.body : DmaCall → DmacProg Unit
  | initChannel enCh cfg => do
      let _ ← dmaInitChannel enCh cfg
      return
  | setBlockSize enCh u16BlkSize => dmaSetBlockSize enCh u16BlkSize
  | setTransferCnt enCh u16TrnCnt => dmaSetTransferCnt enCh u16TrnCnt
  | setTransferWidth enCh enWidth => dmaSetTransferWidth enCh enWidth
  | setChPriority enPrio => dmaSetChPriority enPrio
  | setSourceAddress enCh u32Address => dmaSetSourceAddress enCh u32Address
  | setDestinationAddress enCh u32Address => dmaSetDestinationAddress enCh u32Address
  | enable => dmaEnable
  | disable => dmaDisable
  | haltTranfer => dmaHaltTranfer
  | recoverTranfer => dmaRecoverTranfer
  | swStart enCh => dmaSwStart enCh
  | swStop enCh => dmaSwStop enCh
  | enableChannel enCh => dmaEnableChannel enCh
  | disableChannel enCh => dmaDisableChannel enCh
  | pauseChannelTranfer enCh => dmaPauseChannelTranfer enCh
  | recoverChannelTranfer enCh => dmaRecoverChannelTranfer enCh
  | enableChannelIrq enCh => dmaEnableChannelIrq enCh
  | disableChannelIrq enCh => dmaDisableChannelIrq enCh
  | enableChannelErrIrq enCh => dmaEnableChannelErrIrq enCh
  | disableChannelErrIrq enCh => dmaDisableChannelErrIrq enCh
  | enableContinusTranfer enCh => dmaEnableContinusTranfer enCh
  | disableContinusTranfer enCh => dmaDisableContinusTranfer enCh
  | clrStat enCh => dmaClrStat enCh

end Hc32
