import Ven.Word
import Ven.OrdMap
import Ven.Machine
import Ven.BufVars
import Ven.MemPoolOwners
import Ven.ZeroCopy
import Ven.Segmentation
import Ven.DecodeBounds
import Ven.RoundTrip
import Ven.SendWakeups
import Ven.SendOrder
import Ven.SessionTeardown
import Ven.SessionReceiveRuns
import Ven.LifeRuns
import Ven.Addr
import Ven.Net
import Ven.NetServers
import Ven.NetEndpoints
import Ven.LifeEnding
import Ven.LifeClosing
import Ven.LifeStranded
import Ven.LifeRequests
import Ven.LifeConnect
import Ven.LifeRelease
import Ven.Acceptor
import Ven.AcceptSlots
import Ven.AcceptShutdown
import Ven.Locks
import Ven.Server
import Ven.ServerLocks
import Ven.ServerDeadlock
import Ven.ServerBooks
import Ven.ServerCalls
import Ven.ServerSlots
import Ven.ReceiverTurns
import Ven.ReceiveGrowth
import Ven.FrameHeaders
import Ven.CapacityCheck
import Ven.Overwrite
import Ven.Decoder
import Ven.InventedElements
import Ven.Truncation
import Ven.AcceptFailures
import Ven.ClientConnect
import Ven.SetUpFailures
import Ven.RawArray
import Ven.RawArrayInv
import Ven.RawArrayRuns
import Ven.MemPoolDry
import Ven.MemPoolState
import Ven.MemPoolReport
import Ven.SessionPoolRuns
import Ven.UdpReceive
import Ven.UdpWindow
import Ven.UdpDelivery
import Ven.LogFile
import Ven.RollingLog
import Ven.CharArray
import Ven.DailyLog
import Ven.LFStack
import Ven.SList
import Ven.TlsMemPool
import Ven.TlsAccount
import Ven.TlsConservation
import Ven.Calendar
import Ven.TimeAdd
import Ven.Logger
import Ven.LoggerRuns
import Ven.SListRuns
import Ven.MemAlloc
import Ven.CheckSize
import Ven.Echo
import Ven.EchoPacket
import Ven.SendNet
import Ven.SendNetRuns
import Ven.DailyOrder
import Ven.Ipv4
import Ven.NetReport
import Ven.PoolGrowth
import Ven.SockAddr
import Ven.Thread
import Ven.UdpEcho
import Ven.UdpEchoRuns
import Ven.WinService
import Ven.IOThreads
import Ven.StopReturns
import Ven.Delivery
import Ven.DeliveryRuns
import Ven.MemPoolCounters
