import McuDrivers.Hc32.Dmac
import McuDrivers.Library.Bits
import McuDrivers.Library.Calls

set_option autoImplicit false

/-! # HC32L13x: what the DMA channels remember

Beside the registers a run keeps what was last set for each channel. The registers say the same after
a call, the other channel is left alone, and no configuration switches a channel, except where
a count of zero is stored minus one, where `Dma_InitChannel` only ever sets the priority bit, and where
`Dma_SetTransferWidth` writes the width over two bits of the trigger source. -/

namespace Hc32

/-! ## What the registers say -/

/-- What is set of a channel; the counts are stored minus one. -/
structure DmaSettings where
  width : BitVec DmacConfb.width.len
  blockSize : Nat
  transferCnt : Nat
  trigger : BitVec DmacConfa.triSel.len
  source : BitVec 32
  destination : BitVec 32

def DmacChannel.settings (c : DmacChannel) : DmaSettings where
  width := DmacConfb.width.get c.confb
  blockSize := (DmacConfa.bc.get c.confa).toNat + 1
  transferCnt := (DmacConfa.tc.get c.confa).toNat + 1
  trigger := DmacConfa.triSel.get c.confa
  source := c.srcadr
  destination := c.dstadr

/-- `ST`, `PAS` and `ENS`. -/
def DmacConfa.switches : BitField 32 := ⟨29, 3, by decide⟩

/-- The bits of `CONFA` that `DmacChannel.settings` looks at. -/
def confaSettings : BitVec 32 := 0x1F8FFFFF

theorem settings_congr {c c' : DmacChannel}
    (ha : c'.confa &&& confaSettings = c.confa &&& confaSettings)
    (hb : c'.confb &&& dmaTransferWidthMsk = c.confb &&& dmaTransferWidthMsk)
    (hs : c'.srcadr = c.srcadr) (hd : c'.dstadr = c.dstadr) : c'.settings = c.settings := by
  have hbc := BitField.get_congr (f := DmacConfa.bc) (by decide) ha
  have htc := BitField.get_congr (f := DmacConfa.tc) (by decide) ha
  have htri := BitField.get_congr (f := DmacConfa.triSel) (by decide) ha
  have hwidth := BitField.get_congr (f := DmacConfb.width) (by decide) hb
  simp only [DmacChannel.settings, hbc, htc, htri, hwidth, hs, hd]

/-! ## Runs -/

/-- The channel that a call names. -/
def DmaCall.channel : DmaCall → Option DmaCh
  | setChPriority _ | enable | disable | haltTranfer | recoverTranfer => none
  | initChannel enCh _ | setBlockSize enCh _ | setTransferCnt enCh _ | setTransferWidth enCh _
  | setSourceAddress enCh _ | setDestinationAddress enCh _ | swStart enCh | swStop enCh
  | enableChannel enCh | disableChannel enCh | pauseChannelTranfer enCh
  | recoverChannelTranfer enCh | enableChannelIrq enCh | disableChannelIrq enCh
  | enableChannelErrIrq enCh | disableChannelErrIrq enCh | enableContinusTranfer enCh
  | disableContinusTranfer enCh | clrStat enCh => some enCh

/-- What a call sets of its channel. -/
def DmaCall.record : DmaCall → DmaSettings → DmaSettings
  | initChannel _ (some cfg), _ => {
      width := DmacConfb.width.get cfg.enTransferWidth.msk
      blockSize := cfg.u16BlockSize.toNat
      transferCnt := cfg.u16TransferCnt.toNat
      trigger := cfg.enRequestNum
      source := cfg.u32SrcAddress
      destination := cfg.u32DstAddress }
  | setBlockSize _ u16BlkSize, r => { r with blockSize := u16BlkSize.toNat }
  | setTransferCnt _ u16TrnCnt, r => { r with transferCnt := u16TrnCnt.toNat }
  | setTransferWidth _ enWidth, r => { r with width := DmacConfb.width.get enWidth.msk }
  | setSourceAddress _ u32Address, r => { r with source := u32Address }
  | setDestinationAddress _ u32Address, r => { r with destination := u32Address }
  | _, r => r

/-- The priority that it sets, of both channels. -/
def DmaCall.recordPrio : DmaCall → BitVec DmacConf.prio.len → BitVec DmacConf.prio.len
  | initChannel _ (some cfg), _ => DmacConf.prio.get cfg.enPriority.msk
  | setChPriority enPrio, _ => DmacConf.prio.get enPrio.msk
  | _, p => p

/-- The calls that are not there to switch a channel. -/
def DmaCall.Configures : DmaCall → Prop
  | swStart _ | swStop _ | enableChannel _ | disableChannel _ | pauseChannelTranfer _
  | recoverChannelTranfer _ => False
  | _ => True

/-- The registers, and what was last set. -/
structure DmaRun where
  regs : Dmac
  last : DmaCh → DmaSettings
  lastPrio : BitVec DmacConf.prio.len

def DmaRun.start (regs : Dmac) : DmaRun where
  regs := regs
  last := fun k => (regs.channel k).settings
  lastPrio := DmacConf.prio.get regs.conf

def dmaStep (c : DmaCall) (s : DmaRun) : DmaRun where
  regs := (c.body.exec s.regs).2
  last := fun k => if c.channel = some k then c.record (s.last k) else s.last k
  lastPrio := c.recordPrio s.lastPrio

/-- The registers say what was last set. -/
structure DmaRun.Stored (s : DmaRun) : Prop where
  settings : ∀ k, (s.regs.channel k).settings = s.last k
  prio : DmacConf.prio.get s.regs.conf = s.lastPrio

/-- What is said of a call. -/
structure DmaCall.Keeps (c : DmaCall) (s s' : DmaRun) : Prop where
  stored : s'.Stored
  others : ∀ k, c.channel ≠ some k → s'.regs.channel k = s.regs.channel k
  switches : c.Configures → ∀ k, DmacConfa.switches.get (s'.regs.channel k).confa =
    DmacConfa.switches.get (s.regs.channel k).confa

/-- When a call keeps to it. -/
def DmaCall.Fits (s : Dmac) : DmaCall → Prop
  | initChannel _ (some cfg) =>
      cfg.u16TransferCnt ≠ 0 ∧ (cfg.enPriority = .loop ∨ DmacConf.prio.get s.conf = 0)
  | setBlockSize _ u16BlkSize => 1 ≤ u16BlkSize.toNat ∧ u16BlkSize.toNat ≤ 16
  | setTransferCnt _ u16TrnCnt => u16TrnCnt ≠ 0
  | setTransferWidth enCh enWidth =>
      -- the width is set already, and those bits of the trigger source look like it
      DmacConfb.width.get (s.channel enCh).confb = DmacConfb.width.get enWidth.msk ∧
        DmacConfb.width.get (s.channel enCh).confa = DmacConfb.width.get enWidth.msk
  | _ => True

/-! ## One call -/

variable {c : DmaCall} {s : DmaRun}

/-- A call of channel `enCh`, by what it leaves in the registers. -/
theorem keeps_iff {enCh : DmaCh} {conf : BitVec 32} {ch : DmacChannel} (hs : s.Stored)
    (hch : c.channel = some enCh)
    (hexec : (c.body.exec s.regs).2 = ⟨conf, Function.update s.regs.channel enCh ch⟩) :
    c.Keeps s (dmaStep c s) ↔
      ch.settings = c.record (s.regs.channel enCh).settings ∧
        DmacConf.prio.get conf = c.recordPrio (DmacConf.prio.get s.regs.conf) ∧
        (c.Configures → DmacConfa.switches.get ch.confa =
          DmacConfa.switches.get (s.regs.channel enCh).confa) := by
  constructor
  · rintro ⟨⟨hsettings, hprio⟩, -, hswitches⟩
    have hset := hsettings enCh
    simp only [dmaStep, hexec, hch, Function.update_self, if_true, ← hs.settings] at hset hprio
    refine ⟨hset, ?_, fun h => ?_⟩
    · rw [hprio, hs.prio]
    · simpa [dmaStep, hexec] using hswitches h enCh
  · rintro ⟨hset, hprio, hswitches⟩
    refine ⟨⟨fun k => ?_, ?_⟩, fun k hk => ?_, fun h k => ?_⟩
    · by_cases hk : k = enCh
      · rw [hk]
        simp [dmaStep, hexec, hch, hset, hs.settings]
      · have hne : ¬ enCh = k := fun heq => hk heq.symm
        simp [dmaStep, hexec, hch, hne, hk, hs.settings]
    · simp [dmaStep, hexec, hprio, hs.prio]
    · have hne : k ≠ enCh := fun heq => hk (by rw [hch, heq])
      simp [dmaStep, hexec, hne]
    · by_cases hk : k = enCh
      · rw [hk]
        simpa [dmaStep, hexec] using hswitches h
      · simp [dmaStep, hexec, hk]

/-- A call of no channel. -/
theorem keeps_conf_iff {conf : BitVec 32} (hs : s.Stored) (hch : c.channel = none)
    (hexec : (c.body.exec s.regs).2 = ⟨conf, s.regs.channel⟩) :
    c.Keeps s (dmaStep c s) ↔
      DmacConf.prio.get conf = c.recordPrio (DmacConf.prio.get s.regs.conf) := by
  constructor
  · rintro ⟨⟨-, hprio⟩, -, -⟩
    simp only [dmaStep, hexec] at hprio
    rw [hprio, hs.prio]
  · intro hprio
    refine ⟨⟨fun k => ?_, ?_⟩, fun k hk => ?_, fun h k => ?_⟩
    · simp [dmaStep, hexec, hch, hs.settings]
    · simp [dmaStep, hexec, hprio, hs.prio]
    · simp [dmaStep, hexec]
    · simp [dmaStep, hexec]

/-! ## Calls that only switch -/

/-- An edit of `CONFA` outside of the settings. -/
theorem settings_confa {ch : DmacChannel} {v : BitVec 32}
    (h : v &&& confaSettings = ch.confa &&& confaSettings) :
    { ch with confa := v }.settings = ch.settings :=
  settings_congr h rfl rfl rfl

/-- An edit of `CONFB` outside of the width. -/
theorem settings_confb {ch : DmacChannel} {v : BitVec 32}
    (h : v &&& dmaTransferWidthMsk = ch.confb &&& dmaTransferWidthMsk) :
    { ch with confb := v }.settings = ch.settings :=
  settings_congr rfl h rfl rfl

/-! ## Counts stored minus one -/

/-- A count that is not zero fits the bits that the one after it needs. -/
theorem pred_toNat {n : BitVec 16} (h : n ≠ 0) : (n.setWidth 32 - 1#32).toNat = n.toNat - 1 := by
  have hpos : 0 < n.toNat := Nat.pos_of_ne_zero fun h0 => h (BitVec.eq_of_toNat_eq h0)
  have hlt := n.isLt
  have hone : (1#32).toNat = 1 := rfl
  rw [BitVec.toNat_sub, BitVec.toNat_setWidth, hone]
  omega

theorem tc_pred {n : BitVec 16} (h : n ≠ 0) :
    (DmacConfa.tc.get (n.setWidth 32 - 1#32)).toNat + 1 = n.toNat := by
  have hpos : 0 < n.toNat := Nat.pos_of_ne_zero fun h0 => h (BitVec.eq_of_toNat_eq h0)
  have hlt := n.isLt
  have hget : (DmacConfa.tc.get (n.setWidth 32 - 1#32)).toNat = (n.toNat - 1) % 2 ^ 16 := by
    simp only [BitField.get, BitVec.extractLsb'_toNat, pred_toNat h]
    rfl
  rw [hget]
  omega

/-- Nothing is stored above the counts. -/
theorem pred_small {n : BitVec 16} (h : n ≠ 0) {f : BitField 32} (hf : 16 ≤ f.lsb) :
    f.get (n.setWidth 32 - 1#32) = 0 := by
  refine BitField.get_eq_zero_of_lt (Nat.lt_of_lt_of_le ?_ (Nat.pow_le_pow_right (by decide) hf))
  have hlt := n.isLt
  rw [pred_toNat h]
  omega

/-- The block size has four bits. -/
theorem bc_pred (n : BitVec 16) :
    (((n.setWidth 32 - 1#32) &&& 0x0F#32).setWidth 4).toNat = (n.toNat + 15) % 16 := by
  have hone : (1#32).toNat = 1 := rfl
  have hmask : (0x0F#32).toNat = 2 ^ 4 - 1 := rfl
  have hlt := n.isLt
  rw [BitVec.toNat_setWidth, BitVec.toNat_and, hmask, Nat.and_two_pow_sub_one_eq_mod,
    BitVec.toNat_sub, BitVec.toNat_setWidth, hone]
  omega

theorem bc_small (v : BitVec 32) : (v &&& 0x0F#32).toNat < 2 ^ 4 := by
  have hmask : (0x0F#32).toNat = 2 ^ 4 - 1 := rfl
  rw [BitVec.toNat_and, hmask, Nat.and_two_pow_sub_one_eq_mod]
  omega

/-! ## The calls that set something -/

variable (ch : DmacChannel)

theorem setBlockSize_settings (n : BitVec 16) :
    { ch with
      confa := (ch.confa &&& ~~~dmaBcSelMsk) ||| (((n.setWidth 32 - 1#32) &&& 0x0F#32) <<< 16) }.settings =
      { ch.settings with blockSize := (n.toNat + 15) % 16 + 1 } := by
  have htc := BitField.get_store_other (f := DmacConfa.tc) (m := ~~~dmaBcSelMsk) (by decide)
    (BitField.get_shiftLeft_of_le (n := 16) (by decide) ((n.setWidth 32 - 1#32) &&& 0x0F#32)) ch.confa
  have htri := BitField.get_store_other (f := DmacConfa.triSel) (m := ~~~dmaBcSelMsk) (by decide)
    (BitField.get_shiftLeft_of_lt (n := 16) (bc_small (n.setWidth 32 - 1#32)) (by decide)) ch.confa
  have hbc : (DmacConfa.bc.get
      ((ch.confa &&& ~~~dmaBcSelMsk) ||| (((n.setWidth 32 - 1#32) &&& 0x0F#32) <<< 16))).toNat =
      (n.toNat + 15) % 16 := by
    rw [BitField.get_store (by decide)]
    exact (congrArg BitVec.toNat (BitField.get_shiftLeft DmacConfa.bc _)).trans (bc_pred n)
  simp only [DmacChannel.settings, htc, htri, hbc]

theorem setTransferCnt_settings {n : BitVec 16} (h : n ≠ 0) :
    { ch with confa := (ch.confa &&& ~~~dmaTcSelMsk) ||| (n.setWidth 32 - 1#32) }.settings =
      { ch.settings with transferCnt := n.toNat } := by
  have hbc := BitField.get_store_other (f := DmacConfa.bc) (m := ~~~dmaTcSelMsk) (by decide)
    (pred_small h (by decide)) ch.confa
  have htri := BitField.get_store_other (f := DmacConfa.triSel) (m := ~~~dmaTcSelMsk) (by decide)
    (pred_small h (by decide)) ch.confa
  have htc : DmacConfa.tc.get ((ch.confa &&& ~~~dmaTcSelMsk) ||| (n.setWidth 32 - 1#32)) =
      DmacConfa.tc.get (n.setWidth 32 - 1#32) :=
    BitField.get_store (by decide) _ _
  simp only [DmacChannel.settings, hbc, htri, htc, tc_pred h]

/-- The width that a call stores in `CONFA`, seen in the place of the width. -/
def storeWidth (enWidth : DmaTransferWidth) (v : BitVec 32) : BitVec 32 :=
  (v &&& ~~~dmaTransferWidthMsk) ||| enWidth.msk

theorem storeWidth_width (enWidth : DmaTransferWidth) (v : BitVec 32) :
    DmacConfb.width.get (storeWidth enWidth v) = DmacConfb.width.get enWidth.msk :=
  BitField.get_store (by decide) _ _

/-- Where those bits have the value already, nothing changes. -/
theorem storeWidth_eq {enWidth : DmaTransferWidth} {v : BitVec 32}
    (h : DmacConfb.width.get v = DmacConfb.width.get enWidth.msk) : storeWidth enWidth v = v := by
  have hmask : dmaTransferWidthMsk = DmacConfb.width.mask := by decide
  have hmsk : enWidth.msk &&& dmaTransferWidthMsk = enWidth.msk := by
    cases enWidth <;> decide
  have hbits : v &&& dmaTransferWidthMsk = enWidth.msk := by
    rw [← hmsk, hmask, BitField.and_mask, BitField.and_mask, h]
  rw [storeWidth, ← hbits, ← BitVec.and_or_distrib_left]
  have hones : ~~~dmaTransferWidthMsk ||| dmaTransferWidthMsk = BitVec.allOnes 32 := by decide
  rw [hones, BitVec.and_allOnes]

/-- Two bits of the trigger source are where `CONFB` has the width. -/
theorem width_of_triSel {v v' : BitVec 32} (h : DmacConfa.triSel.get v' = DmacConfa.triSel.get v) :
    DmacConfb.width.get v' = DmacConfb.width.get v :=
  BitField.get_congr_of_within (by decide) (by decide) h

theorem setTransferWidth_settings (enWidth : DmaTransferWidth) :
    { ch with confa := storeWidth enWidth ch.confa }.settings =
        { ch.settings with width := DmacConfb.width.get enWidth.msk } ↔
      DmacConfb.width.get ch.confb = DmacConfb.width.get enWidth.msk ∧
        DmacConfb.width.get ch.confa = DmacConfb.width.get enWidth.msk := by
  constructor
  · intro h
    have hwidth := congrArg DmaSettings.width h
    have htrigger := congrArg DmaSettings.trigger h
    refine ⟨hwidth, ?_⟩
    rw [← storeWidth_width enWidth ch.confa]
    exact (width_of_triSel htrigger).symm
  · rintro ⟨hwidth, hbits⟩
    rw [storeWidth_eq hbits, ← hwidth]
    rfl

/-! ## `Dma_InitChannel` -/

variable (cfg : DmaCfg)

theorem DmaCfg.blockSize_le : 1 ≤ cfg.u16BlockSize.toNat ∧ cfg.u16BlockSize.toNat ≤ 15 := by
  obtain ⟨hmask, hpos⟩ := cfg.blockSize_valid
  have hbits : cfg.u16BlockSize.setWidth 32 &&& 0x0F#32 = cfg.u16BlockSize.setWidth 32 := by
    have hall : 0x0F#32 ||| ~~~(dmaBcSelMsk >>> 16) = BitVec.allOnes 32 := by decide
    have hsplit : cfg.u16BlockSize.setWidth 32 =
        (cfg.u16BlockSize.setWidth 32 &&& 0x0F#32) |||
          (cfg.u16BlockSize.setWidth 32 &&& ~~~(dmaBcSelMsk >>> 16)) := by
      rw [← BitVec.and_or_distrib_left, hall, BitVec.and_allOnes]
    rw [hmask] at hsplit
    exact (hsplit.trans BitVec.or_zero).symm
  have hsmall := bc_small (cfg.u16BlockSize.setWidth 32)
  have hlt := cfg.u16BlockSize.isLt
  have hpos' : 0 < cfg.u16BlockSize.toNat := hpos
  rw [hbits, BitVec.toNat_setWidth] at hsmall
  omega

/-- The counts and the trigger source, where they are in `CONFA`. -/
def DmaCfg.counts : BitVec 32 :=
  (cfg.u16TransferCnt.setWidth 32 - 1#32) ||| ((cfg.u16BlockSize.setWidth 32 - 1#32) <<< 16) |||
    (cfg.enRequestNum.setWidth 32 <<< 23)

def DmaCfg.confa (v : BitVec 32) : BitVec 32 :=
  (v &&& ~~~(dmaTriSelMsk ||| dmaBcSelMsk ||| dmaTcSelMsk)) ||| cfg.counts

def DmaCfg.confb : BitVec 32 :=
  cfg.enMode.msk ||| cfg.enTransferWidth.msk ||| cfg.enSrcAddrMode.srcMsk |||
    cfg.enDstAddrMode.dstMsk ||| cfg.enSrcAddrReloadCtl.srcMsk |||
    cfg.enDestAddrReloadCtl.dstMsk ||| cfg.enSrcBcTcReloadCtl.bcTcMsk ||| cfg.enTransferMode.msk

theorem dmaConfigure_exec (enCh : DmaCh) (s : Dmac) :
    ((dmaConfigure enCh cfg).exec s).2 = {
      conf := s.conf ||| cfg.enPriority.msk
      channel := Function.update s.channel enCh {
        confa := cfg.confa (s.channel enCh).confa
        confb := cfg.confb
        srcadr := cfg.u32SrcAddress
        dstadr := cfg.u32DstAddress } } := by
  simp [dmaConfigure, editConfa, editConfb, editConf, editChannel, DmaCfg.confa, DmaCfg.counts,
    DmaCfg.confb]

theorem blockSize_small :
    (cfg.u16BlockSize.setWidth 32 - 1#32).toNat = cfg.u16BlockSize.toNat - 1 := by
  have hle := cfg.blockSize_le
  refine pred_toNat fun h => ?_
  rw [h] at hle
  simp at hle

theorem blockSize_pred_lt : (cfg.u16BlockSize.setWidth 32 - 1#32).toNat < 2 ^ 4 := by
  have hle := cfg.blockSize_le
  rw [blockSize_small]
  omega

theorem counts_tc (h : cfg.u16TransferCnt ≠ 0) :
    (DmacConfa.tc.get cfg.counts).toNat + 1 = cfg.u16TransferCnt.toNat := by
  have hbc : DmacConfa.tc.get ((cfg.u16BlockSize.setWidth 32 - 1#32) <<< 16) = 0 :=
    BitField.get_shiftLeft_of_le (by decide) _
  have htri : DmacConfa.tc.get (cfg.enRequestNum.setWidth 32 <<< 23) = 0 :=
    BitField.get_shiftLeft_of_le (by decide) _
  rw [DmaCfg.counts, BitField.get_or_of_zero htri, BitField.get_or_of_zero hbc]
  exact tc_pred h

theorem counts_bc (h : cfg.u16TransferCnt ≠ 0) :
    (DmacConfa.bc.get cfg.counts).toNat + 1 = cfg.u16BlockSize.toNat := by
  have hle := cfg.blockSize_le
  have htri : DmacConfa.bc.get (cfg.enRequestNum.setWidth 32 <<< 23) = 0 :=
    BitField.get_shiftLeft_of_le (by decide) _
  have hbc : (DmacConfa.bc.get ((cfg.u16BlockSize.setWidth 32 - 1#32) <<< 16)).toNat =
      (cfg.u16BlockSize.toNat - 1) % 2 ^ 4 := by
    refine (congrArg BitVec.toNat (BitField.get_shiftLeft DmacConfa.bc _)).trans ?_
    rw [BitVec.toNat_setWidth, blockSize_small]
    rfl
  rw [DmaCfg.counts, BitField.get_or_of_zero htri, BitField.get_or, pred_small h (by decide),
    BitVec.ofNat_eq_ofNat, BitVec.zero_or, hbc]
  omega

theorem counts_triSel (h : cfg.u16TransferCnt ≠ 0) :
    DmacConfa.triSel.get cfg.counts = cfg.enRequestNum := by
  have hbc : DmacConfa.triSel.get ((cfg.u16BlockSize.setWidth 32 - 1#32) <<< 16) = 0 :=
    BitField.get_shiftLeft_of_lt (blockSize_pred_lt cfg) (by decide)
  have htri : DmacConfa.triSel.get (cfg.enRequestNum.setWidth 32 <<< 23) =
      (cfg.enRequestNum.setWidth 32).setWidth 6 :=
    BitField.get_shiftLeft DmacConfa.triSel _
  have hsame : (cfg.enRequestNum.setWidth 32).setWidth 6 = cfg.enRequestNum := by simp
  rw [DmaCfg.counts, BitField.get_or, BitField.get_or, hbc, pred_small h (by decide), htri, hsame]
  exact BitVec.zero_or

/-- The counts and the trigger source do not reach the switches. -/
theorem counts_switches (h : cfg.u16TransferCnt ≠ 0) : DmacConfa.switches.get cfg.counts = 0 := by
  have hbc : DmacConfa.switches.get ((cfg.u16BlockSize.setWidth 32 - 1#32) <<< 16) = 0 :=
    BitField.get_shiftLeft_of_lt (blockSize_pred_lt cfg) (by decide)
  have hnumber : (cfg.enRequestNum.setWidth 32).toNat < 2 ^ 6 := by
    have hlt := cfg.enRequestNum.isLt
    rw [BitVec.toNat_setWidth]
    omega
  have htri : DmacConfa.switches.get (cfg.enRequestNum.setWidth 32 <<< 23) = 0 :=
    BitField.get_shiftLeft_of_lt hnumber (by decide)
  rw [DmaCfg.counts, BitField.get_or_of_zero htri, BitField.get_or_of_zero hbc]
  exact pred_small h (by decide)

theorem confb_width : DmacConfb.width.get cfg.confb = DmacConfb.width.get cfg.enTransferWidth.msk := by
  have hmode : DmacConfb.width.get cfg.enMode.msk = 0 := by cases cfg.enMode <;> decide
  have hsrc : DmacConfb.width.get cfg.enSrcAddrMode.srcMsk = 0 := by
    cases cfg.enSrcAddrMode <;> decide
  have hdst : DmacConfb.width.get cfg.enDstAddrMode.dstMsk = 0 := by
    cases cfg.enDstAddrMode <;> decide
  have hsrcReload : DmacConfb.width.get cfg.enSrcAddrReloadCtl.srcMsk = 0 := by
    cases cfg.enSrcAddrReloadCtl <;> decide
  have hdstReload : DmacConfb.width.get cfg.enDestAddrReloadCtl.dstMsk = 0 := by
    cases cfg.enDestAddrReloadCtl <;> decide
  have hbcTc : DmacConfb.width.get cfg.enSrcBcTcReloadCtl.bcTcMsk = 0 := by
    cases cfg.enSrcBcTcReloadCtl <;> decide
  have hmsk : DmacConfb.width.get cfg.enTransferMode.msk = 0 := by
    cases cfg.enTransferMode <;> decide
  rw [DmaCfg.confb, BitField.get_or_of_zero hmsk, BitField.get_or_of_zero hbcTc,
    BitField.get_or_of_zero hdstReload, BitField.get_or_of_zero hsrcReload,
    BitField.get_or_of_zero hdst, BitField.get_or_of_zero hsrc, BitField.get_or, hmode]
  exact BitVec.zero_or

variable {cfg} in
/-- What the registers say of a channel that has been configured. -/
theorem configured_settings (h : cfg.u16TransferCnt ≠ 0) (enCh : DmaCh) (v : BitVec 32)
    (r : DmaSettings) :
    (DmacChannel.mk (cfg.confa v) cfg.confb cfg.u32SrcAddress cfg.u32DstAddress).settings =
      (DmaCall.initChannel enCh (some cfg)).record r := by
  have htc : DmacConfa.tc.get (cfg.confa v) = DmacConfa.tc.get cfg.counts :=
    BitField.get_store (by decide) _ _
  have hbc : DmacConfa.bc.get (cfg.confa v) = DmacConfa.bc.get cfg.counts :=
    BitField.get_store (by decide) _ _
  have htri : DmacConfa.triSel.get (cfg.confa v) = DmacConfa.triSel.get cfg.counts :=
    BitField.get_store (by decide) _ _
  simp only [DmacChannel.settings, DmaCall.record, htc, hbc, htri, confb_width, counts_tc cfg h,
    counts_bc cfg h, counts_triSel cfg h]

variable {cfg} in
/-- The priority bit is only ever set. -/
theorem configured_prio (conf : BitVec 32) :
    DmacConf.prio.get (conf ||| cfg.enPriority.msk) = DmacConf.prio.get cfg.enPriority.msk ↔
      cfg.enPriority = .loop ∨ DmacConf.prio.get conf = 0 := by
  rw [BitField.get_or]
  cases cfg.enPriority with
  | fix =>
      have hfix : DmacConf.prio.get DmaPriority.fix.msk = 0 := by decide
      rw [hfix]
      simp
  | loop =>
      have hones : DmacConf.prio.get DmaPriority.loop.msk = BitVec.allOnes DmacConf.prio.len := by
        decide
      rw [hones]
      simp

/-! ## Every call -/

theorem initChannel_keeps (hs : s.Stored) (enCh : DmaCh) :
    (DmaCall.initChannel enCh (some cfg)).Keeps s (dmaStep (.initChannel enCh (some cfg)) s) ↔
      cfg.u16TransferCnt ≠ 0 ∧
        (cfg.enPriority = .loop ∨ DmacConf.prio.get s.regs.conf = 0) := by
  have hexec : (DmaCall.body (.initChannel enCh (some cfg))).exec s.regs =
      ((), ((dmaConfigure enCh cfg).exec s.regs).2) := by
    simp [DmaCall.body, dmaInitChannel]
  rw [keeps_iff hs rfl (by rw [hexec]; exact dmaConfigure_exec cfg enCh s.regs),
    ← configured_prio s.regs.conf]
  constructor
  · rintro ⟨hset, hprio, -⟩
    refine ⟨fun hzero => ?_, hprio⟩
    have hcnt := congrArg DmaSettings.transferCnt hset
    simp [DmacChannel.settings, DmaCall.record, hzero] at hcnt
  · rintro ⟨hcnt, hprio⟩
    refine ⟨configured_settings hcnt enCh _ _, hprio, fun _ => ?_⟩
    exact BitField.get_store_other (by decide) (counts_switches cfg hcnt) _

theorem setBlockSize_keeps (hs : s.Stored) (enCh : DmaCh) (n : BitVec 16) :
    (DmaCall.setBlockSize enCh n).Keeps s (dmaStep (.setBlockSize enCh n) s) ↔
      1 ≤ n.toNat ∧ n.toNat ≤ 16 := by
  rw [keeps_iff hs rfl rfl, setBlockSize_settings]
  have hswitches : DmacConfa.switches.get (((n.setWidth 32 - 1#32) &&& 0x0F#32) <<< 16) = 0 :=
    BitField.get_shiftLeft_of_lt (bc_small _) (by decide)
  have hsize : (n.toNat + 15) % 16 + 1 = n.toNat ↔ 1 ≤ n.toNat ∧ n.toNat ≤ 16 := by omega
  rw [← hsize]
  constructor
  · rintro ⟨hset, -, -⟩
    exact congrArg DmaSettings.blockSize hset
  · intro heq
    refine ⟨by rw [heq]; rfl, rfl, fun _ => ?_⟩
    exact BitField.get_store_other (by decide) hswitches _

theorem setTransferCnt_keeps (hs : s.Stored) (enCh : DmaCh) (n : BitVec 16) :
    (DmaCall.setTransferCnt enCh n).Keeps s (dmaStep (.setTransferCnt enCh n) s) ↔ n ≠ 0 := by
  rw [keeps_iff hs rfl rfl]
  constructor
  · rintro ⟨hset, -, -⟩ hzero
    have hcnt := congrArg DmaSettings.transferCnt hset
    simp [DmacChannel.settings, DmaCall.record, hzero] at hcnt
  · intro hcnt
    refine ⟨setTransferCnt_settings _ hcnt, rfl, fun _ => ?_⟩
    exact BitField.get_store_other (by decide) (pred_small hcnt (by decide)) _

theorem setTransferWidth_keeps (hs : s.Stored) (enCh : DmaCh) (enWidth : DmaTransferWidth) :
    (DmaCall.setTransferWidth enCh enWidth).Keeps s (dmaStep (.setTransferWidth enCh enWidth) s) ↔
      DmacConfb.width.get (s.regs.channel enCh).confb = DmacConfb.width.get enWidth.msk ∧
        DmacConfb.width.get (s.regs.channel enCh).confa = DmacConfb.width.get enWidth.msk := by
  rw [keeps_iff hs rfl rfl, ← setTransferWidth_settings (s.regs.channel enCh) enWidth]
  have hswitches : DmacConfa.switches.get enWidth.msk = 0 := by cases enWidth <;> decide
  constructor
  · exact fun h => h.1
  · exact fun h => ⟨h, rfl, fun _ => BitField.get_store_other (by decide) hswitches _⟩

theorem setChPriority_keeps (hs : s.Stored) (enPrio : DmaPriority) :
    (DmaCall.setChPriority enPrio).Keeps s (dmaStep (.setChPriority enPrio) s) :=
  (keeps_conf_iff hs rfl rfl).mpr (BitField.get_store (by decide) _ _)

/-- A call that sets nothing. -/
theorem keeps_of_same {enCh : DmaCh} {ch : DmacChannel} (hs : s.Stored)
    (hch : c.channel = some enCh)
    (hexec : (c.body.exec s.regs).2 = ⟨s.regs.conf, Function.update s.regs.channel enCh ch⟩)
    (hrecord : c.record (s.regs.channel enCh).settings = (s.regs.channel enCh).settings)
    (hprio : c.recordPrio (DmacConf.prio.get s.regs.conf) = DmacConf.prio.get s.regs.conf)
    (hset : ch.settings = (s.regs.channel enCh).settings)
    (hswitches : c.Configures → DmacConfa.switches.get ch.confa =
      DmacConfa.switches.get (s.regs.channel enCh).confa) : c.Keeps s (dmaStep c s) :=
  (keeps_iff hs hch hexec).mpr ⟨hset.trans hrecord.symm, hprio.symm, hswitches⟩

/-- The null pointer is refused. -/
theorem initChannel_null_keeps (hs : s.Stored) (enCh : DmaCh) :
    (DmaCall.initChannel enCh none).Keeps s (dmaStep (.initChannel enCh none) s) := by
  have hexec : ((DmaCall.initChannel enCh none).body.exec s.regs).2 =
      ⟨s.regs.conf, Function.update s.regs.channel enCh (s.regs.channel enCh)⟩ := by
    rw [Function.update_eq_self]
    rfl
  exact keeps_of_same hs rfl hexec rfl rfl rfl fun _ => rfl

theorem setSourceAddress_keeps (hs : s.Stored) (enCh : DmaCh) (a : BitVec 32) :
    (DmaCall.setSourceAddress enCh a).Keeps s (dmaStep (.setSourceAddress enCh a) s) := by
  have hexec : ((DmaCall.setSourceAddress enCh a).body.exec s.regs).2 =
      ⟨s.regs.conf,
        Function.update s.regs.channel enCh { s.regs.channel enCh with srcadr := a }⟩ := rfl
  exact (keeps_iff hs rfl hexec).mpr ⟨rfl, rfl, fun _ => rfl⟩

theorem setDestinationAddress_keeps (hs : s.Stored) (enCh : DmaCh) (a : BitVec 32) :
    (DmaCall.setDestinationAddress enCh a).Keeps s (dmaStep (.setDestinationAddress enCh a) s) := by
  have hexec : ((DmaCall.setDestinationAddress enCh a).body.exec s.regs).2 =
      ⟨s.regs.conf,
        Function.update s.regs.channel enCh { s.regs.channel enCh with dstadr := a }⟩ := rfl
  exact (keeps_iff hs rfl hexec).mpr ⟨rfl, rfl, fun _ => rfl⟩

/-- It sets bits of `CONFA` that are no settings. -/
theorem setConfa_keeps {enCh : DmaCh} {bits : BitVec 32} (hs : s.Stored)
    (hbody : c.body = editConfa enCh fun v => v ||| bits) (hch : c.channel = some enCh)
    (hrecord : c.record = id) (hprio : c.recordPrio = id) (hbits : bits &&& confaSettings = 0)
    (hnot : ¬ c.Configures) : c.Keeps s (dmaStep c s) :=
  keeps_of_same hs hch (by rw [hbody]; rfl) (by rw [hrecord]; rfl) (by rw [hprio]; rfl)
    (settings_confa (Mask.or_and_of_disjoint _ hbits)) fun h => absurd h hnot

/-- It clears them. -/
theorem clearConfa_keeps {enCh : DmaCh} {bits : BitVec 32} (hs : s.Stored)
    (hbody : c.body = editConfa enCh fun v => v &&& ~~~bits) (hch : c.channel = some enCh)
    (hrecord : c.record = id) (hprio : c.recordPrio = id)
    (hbits : ~~~bits &&& confaSettings = confaSettings) (hnot : ¬ c.Configures) :
    c.Keeps s (dmaStep c s) :=
  keeps_of_same hs hch (by rw [hbody]; rfl) (by rw [hrecord]; rfl) (by rw [hprio]; rfl)
    (settings_confa (Mask.and_and_of_subset _ hbits)) fun h => absurd h hnot

/-- It sets bits of `CONFB` beside the width. -/
theorem setConfb_keeps {enCh : DmaCh} {bits : BitVec 32} (hs : s.Stored)
    (hbody : c.body = editConfb enCh fun v => v ||| bits) (hch : c.channel = some enCh)
    (hrecord : c.record = id) (hprio : c.recordPrio = id) (hbits : bits &&& dmaTransferWidthMsk = 0) :
    c.Keeps s (dmaStep c s) :=
  keeps_of_same hs hch (by rw [hbody]; rfl) (by rw [hrecord]; rfl) (by rw [hprio]; rfl)
    (settings_confb (Mask.or_and_of_disjoint _ hbits)) fun _ => rfl

/-- It clears them. -/
theorem clearConfb_keeps {enCh : DmaCh} {bits : BitVec 32} (hs : s.Stored)
    (hbody : c.body = editConfb enCh fun v => v &&& ~~~bits) (hch : c.channel = some enCh)
    (hrecord : c.record = id) (hprio : c.recordPrio = id)
    (hbits : ~~~bits &&& dmaTransferWidthMsk = dmaTransferWidthMsk) : c.Keeps s (dmaStep c s) :=
  keeps_of_same hs hch (by rw [hbody]; rfl) (by rw [hrecord]; rfl) (by rw [hprio]; rfl)
    (settings_confb (Mask.and_and_of_subset _ hbits)) fun _ => rfl

/-- A call keeps to what was set just when it fits. -/
theorem dmaStep_keeps (hs : s.Stored) : ∀ c : DmaCall, c.Keeps s (dmaStep c s) ↔ c.Fits s.regs
  | .initChannel enCh (some cfg) => initChannel_keeps cfg hs enCh
  | .initChannel enCh none => iff_of_true (initChannel_null_keeps hs enCh) trivial
  | .setBlockSize enCh n => setBlockSize_keeps hs enCh n
  | .setTransferCnt enCh n => setTransferCnt_keeps hs enCh n
  | .setTransferWidth enCh enWidth => setTransferWidth_keeps hs enCh enWidth
  | .setChPriority enPrio => iff_of_true (setChPriority_keeps hs enPrio) trivial
  | .setSourceAddress enCh a => iff_of_true (setSourceAddress_keeps hs enCh a) trivial
  | .setDestinationAddress enCh a => iff_of_true (setDestinationAddress_keeps hs enCh a) trivial
  | .enable => iff_of_true ((keeps_conf_iff hs rfl rfl).mpr
      (BitField.get_or_of_zero (by decide) _)) trivial
  | .disable => iff_of_true ((keeps_conf_iff hs rfl rfl).mpr
      (BitField.get_and_of_ones (by decide) _)) trivial
  | .haltTranfer | .recoverTranfer => iff_of_true ((keeps_conf_iff hs rfl rfl).mpr
      (BitField.get_set_of_disjoint (by decide) _ _)) trivial
  | .swStart _ | .enableChannel _ | .pauseChannelTranfer _ =>
      iff_of_true (setConfa_keeps hs rfl rfl rfl rfl (by decide) id) trivial
  | .swStop _ | .disableChannel _ | .recoverChannelTranfer _ =>
      iff_of_true (clearConfa_keeps hs rfl rfl rfl rfl (by decide) id) trivial
  | .enableChannelIrq _ | .enableChannelErrIrq _ | .enableContinusTranfer _ =>
      iff_of_true (setConfb_keeps hs rfl rfl rfl rfl (by decide)) trivial
  | .disableChannelIrq _ | .disableChannelErrIrq _ | .disableContinusTranfer _ | .clrStat _ =>
      iff_of_true (clearConfb_keeps hs rfl rfl rfl rfl (by decide)) trivial

/-! ## Sequences of calls -/

/-- **After every call the registers say what was last set, the other channel is as it was, and a
    configuration has switched nothing, if and only if no count is zero or too large for its field, no
    `Dma_InitChannel` is to take the priority bit back, and each width that is set is there already, in
    `CONFB` and in the same bits of `CONFA`.** -/
theorem dma_store_iff (calls : List DmaCall) (regs : Dmac) :
    Calls.All dmaStep DmaCall.Keeps calls (.start regs) ↔
      Calls.All dmaStep (fun c s _ => c.Fits s.regs) calls (.start regs) :=
  Calls.all_congr (I := DmaRun.Stored) (fun c _ hs => dmaStep_keeps hs c) (fun _ _ _ h => h.stored)
    ⟨fun _ => rfl, rfl⟩

/-- The width is set to 32 bits, and `CONFB` still says 8. -/
theorem dma_store_fails :
    ¬ ∀ (calls : List DmaCall) (regs : Dmac), Calls.All dmaStep DmaCall.Keeps calls (.start regs) := by
  intro h
  have hkeeps := (h [.setTransferWidth .ch0 .bit32] ⟨0, fun _ => ⟨0, 0, 0, 0⟩⟩).1
  have hfits := (dmaStep_keeps ⟨fun _ => rfl, rfl⟩ _).mp hkeeps
  exact absurd hfits.1 (by decide)

end Hc32
