import McuDrivers.Library.Prog
import McuDrivers.Library.Interleave
import McuDrivers.Library.Ring
import McuDrivers.Library.Bits
import McuDrivers.Library.Memory
import McuDrivers.Library.Loop
import McuDrivers.Eth.Basic
import McuDrivers.Eth.Driver
import McuDrivers.Eth.Dma
import McuDrivers.Eth.Init
import McuDrivers.Eth.Chain
import McuDrivers.Eth.ChainTx
import McuDrivers.Eth.ChainRx
import McuDrivers.Eth.ChainFifo
import McuDrivers.Eth.RingMode
import McuDrivers.Lwip.Port
import McuDrivers.Lwip.Output
import McuDrivers.Lwip.Input
import McuDrivers.Eth.Stall
import McuDrivers.Eth.Ptp
import McuDrivers.Eth.PtpRestore
import McuDrivers.Eth.PtpShadow
import McuDrivers.Hc32.Flash
import McuDrivers.Library.Calls
import McuDrivers.Hc32.FlashLock
import McuDrivers.At32.Flash
import McuDrivers.At32.FlashGuard
import McuDrivers.At32.FlashArmed
import McuDrivers.At32.FlashDone
import McuDrivers.Hc32.Sysctrl
import McuDrivers.Hc32.SysctrlClock
import McuDrivers.Hc32.SysctrlPll
import McuDrivers.At32.Ertc
import McuDrivers.At32.ErtcProtect
import McuDrivers.At32.ErtcEvents
import McuDrivers.At32.Can
import McuDrivers.At32.CanStatus
import McuDrivers.At32.CanMessage
import McuDrivers.At32.CanFilter
import McuDrivers.Hc32.Dmac
import McuDrivers.Hc32.DmacStore
import McuDrivers.At32.Rcc
import McuDrivers.At32.RccClocks
import McuDrivers.At32.Rtc
import McuDrivers.At32.RtcEvents
import McuDrivers.Hc32.Rtc
import McuDrivers.Hc32.RtcEvents
import McuDrivers.Hc32.RtcAccess
import McuDrivers.Hc32.RtcSetters
import McuDrivers.Hc32.RtcRoundTrip
import McuDrivers.Hc32.SysctrlRunning
import McuDrivers.At32.ErtcRoundTrip
import McuDrivers.Hc32.FlashStore
import McuDrivers.Eth.PtpStamp
import McuDrivers.Lwip.Confine
import McuDrivers.At32.FlashFlags
import McuDrivers.At32.FlashPoll
import McuDrivers.At32.FlashReported
import McuDrivers.At32.CanHonest
import McuDrivers.At32.RtcRead
import McuDrivers.Eth.Mmc
import McuDrivers.At32.I2c
import McuDrivers.At32.RccPll
import McuDrivers.At32.Usart
import McuDrivers.Hc32.I2c
import McuDrivers.Eth.Phy
import McuDrivers.Eth.PhyTruth
import McuDrivers.Eth.PhySuccess
import McuDrivers.Library.Slots
import McuDrivers.At32.Gpio
import McuDrivers.Hc32.Adc
import McuDrivers.At32.Adc
import McuDrivers.At32.I2s
import McuDrivers.Hc32.CountDown
import McuDrivers.Library.Tiling
import McuDrivers.Lwip.Mem
import McuDrivers.Lwip.MemChain
import McuDrivers.Lwip.MemOps
import McuDrivers.Lwip.MemAlloc
import McuDrivers.Lwip.MemRun
import McuDrivers.Lwip.MemSafe
import McuDrivers.Library.OnesSum
import McuDrivers.Lwip.Chksum
import McuDrivers.Lwip.ChksumSum
import McuDrivers.Lwip.ChksumFlat
import McuDrivers.Lwip.IpHdr
import McuDrivers.Lwip.Ip4Frag
import McuDrivers.Library.Spans
import McuDrivers.Lwip.ReassQueue
import McuDrivers.Lwip.ReassCall
import McuDrivers.Library.Machine
import McuDrivers.Lwip.ReassRun
import McuDrivers.Lwip.ReassComplete
import McuDrivers.Lwip.FragCut
import McuDrivers.Lwip.FragRun
import McuDrivers.Lwip.Timeouts
import McuDrivers.Lwip.TimeoutsIdeal
import McuDrivers.Lwip.TimeoutsRun
