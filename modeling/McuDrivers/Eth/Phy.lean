import McuDrivers.Eth.Driver
import McuDrivers.Library.Poll

set_option autoImplicit false

/-! # Ethernet: the PHY

`ETH_Init` resets the PHY and sets it up through MII, one register at a time. What the hardware does is
the list of answers to the transactions, in their order: what the busy bit reads as, poll by poll, and
the data. The functions are as compiled for the DM9162. -/

namespace Eth

/-! ## Constants -/

def ethMacmiiarCrMask : Word := 0xFFFFFFE3
def ethMaccrClearMask : Word := 0xFF20810F
def ethMacfcrClearMask : Word := 0x0000FF41
def ethDmaomrClearMask : Word := 0xF8DE3F23

def ethMacmiiaddrPa : Word := 0x0000F800
def ethMacmiiaddrMii : Word := 0x000007C0
def ethMacmiiaddrMiiw : Word := 0x00000002
def ethMacmiiaddrMiib : Word := 0x00000001
def ethMacmiiaddrClkrDiv42 : Word := 0x00000000
def ethMacmiiaddrClkrDiv62 : Word := 0x00000004
def ethMacmiiaddrClkrDiv16 : Word := 0x00000008
def ethMacmiiaddrClkrDiv26 : Word := 0x0000000C
def ethMacmiiaddrClkrDiv102 : Word := 0x00000010
def ethMacmiiaddrClkrDiv124 : Word := 0x00000014
def ethDmabmUsp : Word := 0x00800000

def phyWriteTo : Nat := 0x00FFFFFF

def phyBcr : BitVec 16 := 0
def phyBsr : BitVec 16 := 1
def phySr : BitVec 16 := 17

def phyReset : BitVec 16 := 0x8000
def phyAutoNegotiation : BitVec 16 := 0x1000
def phyAutoNegoComplete : BitVec 16 := 0x0020
def phyLinkedStatus : BitVec 16 := 0x0004
def phyFullDuplexSpeed100Status : BitVec 16 := 0x8000
def phyHalfDuplexSpeed100Status : BitVec 16 := 0x4000
def phyFullDuplexSpeed10Status : BitVec 16 := 0x2000
def phyHalfDuplexSpeed10Status : BitVec 16 := 0x1000

def ethAutoNegotiationDisable : Word := 0x00000000
def ethSpeed10M : Word := 0x00000000
def ethSpeed100M : Word := 0x00004000
def ethModeFullDuplex : Word := 0x00000800
def ethModeHalfDuplex : Word := 0x00000000

/-! ## Transactions -/

/-- What the hardware does in a transaction. -/
structure MiiAnswer where
  /-- what the busy bit reads as, poll by poll -/
  busy : Nat → Bool
  /-- what `MACMIIDT` reads as -/
  data : Word

/-- `MACMIIADDR` and `MACMIIDT` as they are when a transaction is started. -/
structure MiiTransaction where
  addr : Word
  data : Word

/-- The registers as they were last written, and the transactions so far. -/
structure PhyState where
  macmiiaddr : Word
  macmiidt : Word
  transactions : List MiiTransaction

/-- `ETH->MACMIIADDR = addr`, with the busy bit set. -/
def PhyState.start (addr : Word) (s : PhyState) : PhyState :=
  { s with macmiiaddr := addr, transactions := s.transactions ++ [⟨addr, s.macmiidt⟩] }

section Functions

variable (answers : Nat → MiiAnswer)

/-- The count with which the loop that checks for the busy flag ends. -/
def miiWait (budget : Nat) (answer : MiiAnswer) : Nat :=
  (pollUpTo (fun i => (!answer.busy i, i + 1)) budget 0 0).timeout

def ethReadPhyRegister (phyAddress phyReg : BitVec 16) (s : PhyState) : BitVec 16 × PhyState :=
  let tmpreg := s.macmiiaddr &&& ~~~ethMacmiiarCrMask
  let tmpreg := tmpreg ||| ((phyAddress.setWidth 32 <<< 11) &&& ethMacmiiaddrPa)
  let tmpreg := tmpreg ||| ((phyReg.setWidth 32 <<< 6) &&& ethMacmiiaddrMii)
  let tmpreg := tmpreg &&& ~~~ethMacmiiaddrMiiw
  let tmpreg := tmpreg ||| ethMacmiiaddrMiib
  let answer := answers s.transactions.length
  let s := s.start tmpreg
  if miiWait phyReadTo answer = phyReadTo then (ethError.setWidth 16, s)
  else (answer.data.setWidth 16, s)

def ethWritePhyRegister (phyAddress phyReg phyValue : BitVec 16) (s : PhyState) : Word × PhyState :=
  let tmpreg := s.macmiiaddr &&& ~~~ethMacmiiarCrMask
  let tmpreg := tmpreg ||| ((phyAddress.setWidth 32 <<< 11) &&& ethMacmiiaddrPa)
  let tmpreg := tmpreg ||| ((phyReg.setWidth 32 <<< 6) &&& ethMacmiiaddrMii)
  let tmpreg := tmpreg ||| ethMacmiiaddrMiiw
  let tmpreg := tmpreg ||| ethMacmiiaddrMiib
  let answer := answers s.transactions.length
  let s := { s with macmiidt := phyValue.setWidth 32 }
  let s := s.start tmpreg
  if miiWait phyWriteTo answer = phyWriteTo then (ethError, s) else (ethSuccess, s)

/-! ## `ETH_Init` -/

/-- A turn of the loop that waits for the end of the reset. -/
def resetPoll (phyAddress : BitVec 16) (s : PhyState) : Bool × PhyState :=
  let read := ethReadPhyRegister answers phyAddress phyBsr s
  (decide (read.1 &&& phyReset = 0), read.2)

/-- A turn of the loops that wait for a bit of the status register. -/
def statusPoll (phyAddress bit : BitVec 16) (s : PhyState) : Bool × PhyState :=
  let read := ethReadPhyRegister answers phyAddress phyBsr s
  (decide (read.1 &&& bit ≠ 0), read.2)

end Functions

/-- `ETH_InitType` -/
structure EthInitType where
  autoNegotiation : Word
  watchdog : Word
  jabber : Word
  interFrameGap : Word
  carrierSense : Word
  speed : Word
  receiveOwn : Word
  loopbackMode : Word
  mode : Word
  checksumOffload : Word
  retryTransmission : Word
  automaticPadCrcStrip : Word
  backOffLimit : Word
  deferralCheck : Word
  receiveAll : Word
  sourceAddrFilter : Word
  passControlFrames : Word
  broadcastFramesReception : Word
  destinationAddrFilter : Word
  promiscuousMode : Word
  multicastFramesFilter : Word
  unicastFramesFilter : Word
  hashTableHigh : Word
  hashTableLow : Word
  pauseTime : Word
  zeroQuantaPause : Word
  pauseLowThreshold : Word
  unicastPauseFrameDetect : Word
  receiveFlowControl : Word
  transmitFlowControl : Word
  vlanTagComparison : Word
  vlanTagIdentifier : Word
  dropTcpipChecksumErrorFrame : Word
  receiveStoreForward : Word
  flushReceivedFrame : Word
  transmitStoreForward : Word
  transmitThresholdControl : Word
  forwardErrorFrames : Word
  forwardUndersizedGoodFrames : Word
  receiveThresholdControl : Word
  secondFrameOperate : Word
  addressAlignedBeats : Word
  fixedBurst : Word
  rxDmaBurstLength : Word
  txDmaBurstLength : Word
  descriptorSkipLength : Word
  dmaArbitration : Word

/-- `ETH_StructInit` -/
def ethStructInit : EthInitType where
  autoNegotiation := ethAutoNegotiationDisable
  watchdog := 0x00000000
  jabber := 0x00000000
  interFrameGap := 0x00000000
  carrierSense := 0x00000000
  speed := ethSpeed10M
  receiveOwn := 0x00000000
  loopbackMode := 0x00000000
  mode := ethModeHalfDuplex
  checksumOffload := 0x00000000
  retryTransmission := 0x00000000
  automaticPadCrcStrip := 0x00000000
  backOffLimit := 0x00000000
  deferralCheck := 0x00000000
  receiveAll := 0x00000000
  sourceAddrFilter := 0x00000000
  passControlFrames := 0x00000040
  broadcastFramesReception := 0x00000020
  destinationAddrFilter := 0x00000000
  promiscuousMode := 0x00000000
  multicastFramesFilter := 0x00000000
  unicastFramesFilter := 0x00000000
  hashTableHigh := 0x0
  hashTableLow := 0x0
  pauseTime := 0x0
  zeroQuantaPause := 0x00000080
  pauseLowThreshold := 0x00000000
  unicastPauseFrameDetect := 0x00000000
  receiveFlowControl := 0x00000000
  transmitFlowControl := 0x00000002
  vlanTagComparison := 0x00000000
  vlanTagIdentifier := 0x0
  dropTcpipChecksumErrorFrame := 0x04000000
  receiveStoreForward := 0x02000000
  flushReceivedFrame := 0x01000000
  transmitStoreForward := 0x00200000
  transmitThresholdControl := 0x00000000
  forwardErrorFrames := 0x00000000
  forwardUndersizedGoodFrames := 0x00000000
  receiveThresholdControl := 0x00000000
  secondFrameOperate := 0x00000000
  addressAlignedBeats := 0x02000000
  fixedBurst := 0x00000000
  rxDmaBurstLength := 0x00020000
  txDmaBurstLength := 0x00000100
  descriptorSkipLength := 0x0
  dmaArbitration := 0x00000000

/-- What the PHY has negotiated. -/
def EthInitType.negotiated (init : EthInitType) (regValue : BitVec 16) : EthInitType :=
  if regValue &&& phyFullDuplexSpeed100Status ≠ 0 then
    { init with mode := ethModeFullDuplex, speed := ethSpeed100M }
  else if regValue &&& phyHalfDuplexSpeed100Status ≠ 0 then
    { init with mode := ethModeHalfDuplex, speed := ethSpeed100M }
  else if regValue &&& phyFullDuplexSpeed10Status ≠ 0 then
    { init with mode := ethModeFullDuplex, speed := ethSpeed10M }
  else if regValue &&& phyHalfDuplexSpeed10Status ≠ 0 then
    { init with mode := ethModeHalfDuplex, speed := ethSpeed10M }
  else init

/-- The clock range of `MACMIIADDR`. -/
def ethClockRange (hclk : Word) : Word :=
  if hclk ≥ 20000000 ∧ hclk < 35000000 then ethMacmiiaddrClkrDiv16
  else if hclk ≥ 35000000 ∧ hclk < 60000000 then ethMacmiiaddrClkrDiv26
  else if hclk ≥ 60000000 ∧ hclk < 100000000 then ethMacmiiaddrClkrDiv42
  else if hclk ≥ 100000000 ∧ hclk < 150000000 then ethMacmiiaddrClkrDiv62
  else if hclk ≥ 150000000 ∧ hclk < 250000000 then ethMacmiiaddrClkrDiv102
  else ethMacmiiaddrClkrDiv124

section Functions

variable (answers : Nat → MiiAnswer)

/-- The branch with auto-negotiation. `none` is `ETH_ERROR`. -/
def ethNegotiate (init : EthInitType) (phyAddress : BitVec 16) (s : PhyState) :
    Option EthInitType × PhyState :=
  let linked := pollUpTo (statusPoll answers phyAddress phyLinkedStatus) phyReadTo 0 s
  if linked.timeout = phyReadTo then (none, linked.state)
  else
    let write := ethWritePhyRegister answers phyAddress phyBcr phyAutoNegotiation linked.state
    if write.1 = 0 then (none, write.2)
    else
      let complete := pollUpTo (statusPoll answers phyAddress phyAutoNegoComplete) phyReadTo 0 write.2
      if complete.timeout = phyReadTo then (none, complete.state)
      else
        let read := ethReadPhyRegister answers phyAddress phySr complete.state
        (some (init.negotiated read.1), read.2)

/-- The branch without. -/
def ethForce (init : EthInitType) (phyAddress : BitVec 16) (s : PhyState) :
    Option EthInitType × PhyState :=
  let write := ethWritePhyRegister answers phyAddress phyBcr
    ((init.mode >>> 3).setWidth 16 ||| (init.speed >>> 1).setWidth 16) s
  if write.1 = 0 then (none, write.2) else (some init, write.2)

/-- "PHY initialization and configuration" -/
def ethInitPhy (init : EthInitType) (phyAddress : BitVec 16) (s : PhyState) :
    Option EthInitType × PhyState :=
  let write := ethWritePhyRegister answers phyAddress phyBcr phyReset s
  if write.1 = 0 then (none, write.2)
  else
    let reset := pollUpTo (resetPoll answers phyAddress) phyReadTo 0 write.2
    if reset.met = false then (none, reset.state)
    else if init.autoNegotiation ≠ ethAutoNegotiationDisable then
      ethNegotiate answers init phyAddress reset.state
    else ethForce answers init phyAddress reset.state

end Functions

structure EthMac where
  macctrl : Word
  macfrmf : Word
  machth : Word
  machtl : Word
  macfctrl : Word
  macvlt : Word
  dmaopm : Word
  dmabm : Word

/-- The configuration of the MAC and the DMA. -/
def ethInitMac (init : EthInitType) (r : EthMac) : EthMac where
  macctrl := (r.macctrl &&& ethMaccrClearMask) ||| (init.watchdog ||| init.jabber |||
    init.interFrameGap ||| init.carrierSense ||| init.speed ||| init.receiveOwn |||
    init.loopbackMode ||| init.mode ||| init.checksumOffload ||| init.retryTransmission |||
    init.automaticPadCrcStrip ||| init.backOffLimit ||| init.deferralCheck)
  macfrmf := init.receiveAll ||| init.sourceAddrFilter ||| init.passControlFrames |||
    init.broadcastFramesReception ||| init.destinationAddrFilter ||| init.promiscuousMode |||
    init.multicastFramesFilter ||| init.unicastFramesFilter
  machth := init.hashTableHigh
  machtl := init.hashTableLow
  macfctrl := (r.macfctrl &&& ethMacfcrClearMask) ||| (init.pauseTime <<< 16 |||
    init.zeroQuantaPause ||| init.pauseLowThreshold ||| init.unicastPauseFrameDetect |||
    init.receiveFlowControl ||| init.transmitFlowControl)
  macvlt := init.vlanTagComparison ||| init.vlanTagIdentifier
  dmaopm := (r.dmaopm &&& ethDmaomrClearMask) ||| (init.dropTcpipChecksumErrorFrame |||
    init.receiveStoreForward ||| init.flushReceivedFrame ||| init.transmitStoreForward |||
    init.transmitThresholdControl ||| init.forwardErrorFrames |||
    init.forwardUndersizedGoodFrames ||| init.receiveThresholdControl ||| init.secondFrameOperate)
  dmabm := init.addressAlignedBeats ||| init.fixedBurst ||| init.rxDmaBurstLength |||
    init.txDmaBurstLength ||| init.descriptorSkipLength <<< 2 ||| init.dmaArbitration ||| ethDmabmUsp

structure EthInitResult where
  value : Word
  init : EthInitType
  phy : PhyState
  mac : EthMac

/-- `hclk` is what `RCC_GetClocksFreq` reports. -/
def ethInit (answers : Nat → MiiAnswer) (init : EthInitType) (phyAddress : BitVec 16) (hclk : Word)
    (s : PhyState) (r : EthMac) : EthInitResult :=
  let tmpreg := (s.macmiiaddr &&& ethMacmiiarCrMask) ||| ethClockRange hclk
  match ethInitPhy answers init phyAddress { s with macmiiaddr := tmpreg } with
  | (none, s) => ⟨ethError, init, s, r⟩
  | (some init, s) => ⟨ethSuccess, init, s, ethInitMac init r⟩

end Eth
