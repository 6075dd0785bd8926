import M2M.Lib.Machine
import M2M.Lib.Bytes
import M2M.Network.Packet
import M2M.Network.HeaderQueue
import M2M.Network.LateReads
import M2M.Network.Arrival
import M2M.Network.DeviceClock
import M2M.Lib.Loop
import M2M.Lib.Steps
import M2M.Network.Routing
import M2M.Network.RoutingLaws
import M2M.Network.NodeInfo
import M2M.Network.Dbp
import M2M.Network.QueueAddress
import M2M.Lib.Region
import M2M.Network.Layout
import M2M.Network.Startup
import M2M.Network.StartupLaws
import M2M.Network.StartupArrival
import M2M.Network.Scan
import M2M.Network.ScanOrder
import M2M.Lib.Locked
import M2M.Lib.Ring
import M2M.Vpmu.Dinero
import M2M.Vpmu.Threads
import M2M.Vpmu.BranchRing
import M2M.Vpmu.TraceRing
import M2M.Vpmu.SyncPoint
import M2M.Vpmu.Wakeup
import M2M.Vpmu.Counters
import M2M.Vpmu.Totals
import M2M.Vpmu.Cycles
import M2M.Vpmu.Reset
import M2M.Network.Reinit
import M2M.Lib.Decimal
import M2M.Network.TopologyFile
import M2M.Network.TopologyScan
import M2M.Network.TopologyReading
import M2M.Network.TopologyRoundTrip
import M2M.Network.Delivery
import M2M.Network.DeliveryBooks
import M2M.Network.DeliveryQueues
import M2M.Network.DeliveryLaws
import M2M.Network.DeliverySend
import M2M.Network.DeliveryRoute
import M2M.Network.DeliveryRun
import M2M.Lib.Runs
import M2M.Vpmu.Oprofile
import M2M.Vpmu.InterruptLine
import M2M.Vpmu.VirtualCounter
import M2M.Lib.Probing
import M2M.Tracing.Process
import M2M.Tracing.ProcTable
import M2M.Tracing.ProcHash
import M2M.Tracing.ObjCount
import M2M.Tracing.Records
import M2M.Tracing.Replay
import M2M.Lib.Buffer
import M2M.Tracing.Output
import M2M.Lib.Cutting
import M2M.Telephony.Gsm
import M2M.Telephony.GsmText
import M2M.Telephony.GsmRope
import M2M.Telephony.Sms
import M2M.Telephony.SmsDeliver
import M2M.Telephony.Fragments
import M2M.Telephony.Lossless
import M2M.Telephony.SmsReader
import M2M.Telephony.RoundTrip
import M2M.Telephony.SmsReceiver
import M2M.Telephony.FragmentBooks
import M2M.Lib.Bits
import M2M.Telephony.Packing
import M2M.Telephony.GsmRoundTrip
import M2M.Lib.Checked
import M2M.Telephony.Inside
import M2M.Lib.RangeTree
import M2M.Memcheck.RbtMap
import M2M.Memcheck.MMRangeMap
import M2M.Memcheck.LastWriter
import M2M.Memcheck.AllocMap
import M2M.Memcheck.Replacing
import M2M.Memcheck.Tlb
import M2M.Memcheck.Softmmu
import M2M.Memcheck.Watching
import M2M.Memcheck.ProcManagement
import M2M.Memcheck.Descriptors
import M2M.Lib.Chunks
import M2M.Qemud.Hex
import M2M.Qemud.Serial
import M2M.Qemud.Packets
import M2M.Lib.Keyed
import M2M.Qemud.Multiplexer
import M2M.Qemud.Clients
import M2M.Qemud.Callbacks
import M2M.Qemud.Frames
import M2M.Qemud.Transport
import M2M.Qemud.Snapshot
import M2M.Network.Memory
import M2M.Shaper.NetShaper
import M2M.Trace.Instructions
import M2M.Trace.BasicBlocks
import M2M.Lib.ByteFile
import M2M.Nand.Device
import M2M.Nand.Image
import M2M.Nand.Snapshot
import M2M.Charpipe.CBuffer
import M2M.Charpipe.Charpipe
import M2M.Charpipe.BufferLists
import M2M.Charpipe.ByteStream
import M2M.Lib.BackLinks
import M2M.Qemud.ClientLists
import M2M.Qemud.ListLaws
import M2M.Qemud.Twins
import M2M.Qemud.TwinRuns
import M2M.Network.Latency
import M2M.Network.WaitFor
import M2M.Network.Selection
import M2M.Network.WaitEnds
import M2M.Network.HopFailure
import M2M.Network.AcceptedReceivers
import M2M.Network.TopologyAgreement
import M2M.Vpmu.ArmTicks
import M2M.Vpmu.ArmWords
import M2M.Vpmu.TickConsistency
import M2M.Vpmu.BlockTransfers
import M2M.Vpmu.TickAgreement
import M2M.Qemud.Loading
import M2M.Tracing.Returns
import M2M.Vpmu.BranchSignals
import M2M.Vpmu.DataSheet
import M2M.Vpmu.LoadInterlocks
import M2M.Vpmu.PcChanges
import M2M.Vpmu.BlockCounts
import M2M.Vpmu.DualIssue
import M2M.Vpmu.ConfigFile
import M2M.Tracing.FailedStart
import M2M.Qemud.Restoring
import M2M.Qemud.RoundTrip
import M2M.Charpipe.Capacity
import M2M.Charpipe.BoundedQueue
import M2M.Nand.Padding
import M2M.Lib.OpenAddressing
import M2M.Tracing.FuncTable
import M2M.Lib.SortedTable
import M2M.Tracing.AttachedTables
import M2M.Qemud.Resync
import M2M.Shaper.Spacing
import M2M.Qemud.FrameLoop
import M2M.Shaper.NetDelay
import M2M.Shaper.DelayedTraffic
import M2M.Shaper.DoCopy
import M2M.Lib.PrefixCode
import M2M.Trace.Varint
import M2M.Lib.BinarySearch
import M2M.Memcheck.AddrArray
import M2M.Telephony.DialNumbers
import M2M.Telephony.AddressHex
import M2M.Telephony.AddressText
import M2M.Lib.SearchTree
import M2M.Memcheck.CallStack
import M2M.Memcheck.Verdict
import M2M.Memcheck.GuestEvents
import M2M.Memcheck.Lookups
import M2M.Memcheck.BlockLives
import M2M.Memcheck.LeakReports
import M2M.Lib.Reserve
import M2M.Trace.Streams
import M2M.Trace.Reserves
import M2M.Network.RoutePath
import M2M.Telephony.RopeGrowth
import M2M.Telephony.UserHeader
import M2M.Telephony.Ucs2
import M2M.Telephony.Ucs2Gsm
import M2M.Telephony.MessageText
import M2M.Telephony.SubmitParts
import M2M.Telephony.Reassembly
import M2M.Exec.CodeWrites
import M2M.Exec.CpuLoop
import M2M.Exec.Timers
import M2M.Goldfish.Events
import M2M.Tcg.Liveness
import M2M.Tcg.Meaning
