import Fx3Ncm.Lib.Memory
import Fx3Ncm.Lib.Run
import Fx3Ncm.Ncm.Struct
import Fx3Ncm.Ncm.Driver
import Fx3Ncm.Ncm.Ntb16
import Fx3Ncm.Ncm.History
import Fx3Ncm.Ncm.TxPhase
import Fx3Ncm.Ncm.TxInv
import Fx3Ncm.Ncm.TxStream
import Fx3Ncm.Ncm.TxCompletion
import Fx3Ncm.Lib.Offers
import Fx3Ncm.Ncm.RxOwnership
import Fx3Ncm.Ncm.RxDelivery
import Fx3Ncm.Ncm.Ring
import Fx3Ncm.Ncm.TryStart
import Fx3Ncm.Ncm.Control
import Fx3Ncm.Ncm.TxLimits
import Fx3Ncm.App.Boot
import Fx3Ncm.Lib.Mailbox
import Fx3Ncm.App.Firmware
import Fx3Ncm.App.Deferred
import Fx3Ncm.App.Channels
import Fx3Ncm.App.FrameSlot
import Fx3Ncm.App.Receive
import Fx3Ncm.App.Ep0
import Fx3Ncm.Ncm.Zlp
import Fx3Ncm.App.Pbuf
import Fx3Ncm.App.Transfer
import Fx3Ncm.Lib.Loop
import Fx3Ncm.Lib.Spans
import Fx3Ncm.Flash.Image
import Fx3Ncm.Flash.Usb
import Fx3Ncm.Flash.Ram
import Fx3Ncm.Flash.RamBoot
import Fx3Ncm.Flash.I2c
import Fx3Ncm.Flash.Spi
import Fx3Ncm.App.EventLog
import Fx3Ncm.Cyfx.BufHeap
import Fx3Ncm.Cyfx.BufTrack
import Fx3Ncm.Cyfx.MemOps
import Fx3Ncm.App.LinkOutput
import Fx3Ncm.Flash.CommandLine
import Fx3Ncm.Flash.Programmer
import Fx3Ncm.Flash.Tool
import Fx3Ncm.Ncm.RxCapacity
import Fx3Ncm.Lib.Oldest
import Fx3Ncm.Lwip.ArpCache
import Fx3Ncm.Lwip.ArpPackets
import Fx3Ncm.Lwip.ArpExchange
