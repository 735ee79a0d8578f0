import Zcrt.Tlv.RoundTrip
import Zcrt.Ipc.Stale
import Zcrt.Ipc.Hook
import Zcrt.Server.LinkReply
import Zcrt.Server.DefaultReply
import Zcrt.Core.SchStop
import Zcrt.Core.SchFifo
import Zcrt.Core.SchWake
import Zcrt.Core.SchLate
import Zcrt.Core.EvtOrder
import Zcrt.Core.TimerPass
import Zcrt.Core.TimerSys
import Zcrt.Ipc.Dispatch
import Zcrt.Core.SchRoom
import Zcrt.Core.KMutex
import Zcrt.Tlv.Bounded
import Zcrt.Server.Serial
import Zcrt.Ipc.Clients
import Zcrt.Server.Cleanup
import Zcrt.Server.Teardown
import Zcrt.Server.Framing
import Zcrt.Server.Lifetime
import Zcrt.Tlv.StrSlice
import Zcrt.Ipc.BadLen
import Zcrt.Tlv.Widths
import Zcrt.Tlv.Writers
import Zcrt.Tlv.ArrayCnt
import Zcrt.Core.SchRemove
import Zcrt.Core.SchShare
import Zcrt.Core.TimerArgn
import Zcrt.Tlv.PlainLoop
import Zcrt.Core.StrOrder
import Zcrt.Core.ArrayRun
import Zcrt.Core.KMem
import Zcrt.Core.Containers
import Zcrt.Ipc.HashMulti
import Zcrt.Core.TimerWhole
import Zcrt.Core.TimerEnds
import Zcrt.Core.EvtDelivery
import Zcrt.Server.Carried
import Zcrt.Core.TimerLate
import Zcrt.Tlv.Unique
import Zcrt.Api.Codec
import Zcrt.Api.Record
import Zcrt.Api.Structs
