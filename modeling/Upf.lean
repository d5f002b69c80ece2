import Upf.Bess.Backpressure
import Upf.Bess.Codel
import Upf.Bess.ConcurrentLookup
import Upf.Bess.Conservation
import Upf.Bess.DmaMemoryPool
import Upf.Bess.FlowMeasureThreads
import Upf.Bess.GatePriority
import Upf.Bess.Gtpu
import Upf.Bess.Histogram
import Upf.Bess.IpLookup
import Upf.Bess.KeyAgreement
import Upf.Bess.L2Runs
import Upf.Bess.NatReplies
import Upf.Bess.PacketPath
import Upf.Bess.PriorityQueue
import Upf.Bess.SessionStats
import Upf.Bess.SetMetadata
import Upf.Bess.StaticNat
import Upf.Bess.Trie
import Upf.Datapath.Join
import Upf.Pfcp.EndMarkerRuns
import Upf.Pfcp.ParseFaults
import Upf.Pfcp.PendingRequests
import Upf.Pfcp.PoolRuns
import Upf.Pfcp.PortRangeCover
import Upf.Routing.ReferenceCounts
import Upf.Session.FarTable
import Upf.Session.LeaseHandlers
import Upf.Session.PdrTable
import Upf.Session.QerTable
import Upf.Session.RefusedModification
import Upf.Session.SharedPool
import Upf.Session.Tunnels
