import IcmpServer.Rtl.StoreForward
import IcmpServer.Rtl.RoundTrip
import IcmpServer.Rtl.Lossless
import IcmpServer.Rtl.Draining
import IcmpServer.TxMerge.Merging
import IcmpServer.RxSplit.Filters
import IcmpServer.Elastic.Pipeline
import IcmpServer.IcmpProc.EchoPath
import IcmpServer.IcmpProc.HeaderChksum
import IcmpServer.IcmpProc.MessageSum
import IcmpServer.ArpProc.Isolation
import IcmpServer.Receive.Padding
import IcmpServer.Receive.BackPressure
import IcmpServer.Transmit.FrameBytes
import IcmpServer.Elastic.Frames
import IcmpServer.Server.Silence
import IcmpServer.Server.Causality
import IcmpServer.Server.Pings
import IcmpServer.Server.Resolution
import IcmpServer.Server.Precedence
import IcmpServer.Server.Refinement
import IcmpServer.ArpProc.Latency
import IcmpServer.TxMerge.Lanes
import IcmpServer.Rtl.Transmitter
import IcmpServer.Top.XgmiiClk
