import LustreSimulator.Lib.Run
import LustreSimulator.Lib.Check
import LustreSimulator.Rbtree
import LustreSimulator.Proofs.Rbtree
import LustreSimulator.FileSystem
import LustreSimulator.ReadWrite
import LustreSimulator.Proofs.DiskOwner
import LustreSimulator.Proofs.ReadWrite
import LustreSimulator.Lib.Stripe
import LustreSimulator.Raid0Device
import LustreSimulator.Proofs.Raid0Device
import LustreSimulator.Lov
import LustreSimulator.Proofs.Lov
import LustreSimulator.Proofs.StripeMap
import LustreSimulator.NrsTbf
import LustreSimulator.Proofs.NrsTbf
import LustreSimulator.Network
import LustreSimulator.Proofs.Network
import LustreSimulator.Lib.Courier
import LustreSimulator.NetTime
import LustreSimulator.Proofs.NetCourier
import LustreSimulator.Proofs.NetDelivery
import LustreSimulator.Lib.Coalesce
import LustreSimulator.Elevator
import LustreSimulator.Disk
import LustreSimulator.Proofs.Elevator
import LustreSimulator.Proofs.Disk
import LustreSimulator.Proofs.ElvMerge
import LustreSimulator.Proofs.ElvConserve
import LustreSimulator.Proofs.DiskPlug
import LustreSimulator.Proofs.ElvIndex
import LustreSimulator.Proofs.ElvAccept
import LustreSimulator.Proofs.ElvJoin
import LustreSimulator.Proofs.ElvCount
import LustreSimulator.Lib.Agenda
import LustreSimulator.Event
import LustreSimulator.Proofs.Event
import LustreSimulator.Proofs.RunQueue
import LustreSimulator.Proofs.PreallocAccount
import LustreSimulator.Proofs.MapSpace
import LustreSimulator.Proofs.PreallocApart
import LustreSimulator.Lib.BinHeap
import LustreSimulator.NrsRbtree
import LustreSimulator.NrsBinheap
import LustreSimulator.Proofs.NrsRbtree
import LustreSimulator.Proofs.NrsBinheap
import LustreSimulator.Lib.KeyedHeap
import LustreSimulator.NrsTbfHeap
import LustreSimulator.Proofs.NrsTbfHeap
import LustreSimulator.Proofs.NrsTbfWake
import LustreSimulator.Proofs.NrsTbfDue
import LustreSimulator.Proofs.NrsTbfRefs
import LustreSimulator.NrsTbfRules
import LustreSimulator.Proofs.NrsTbfRate
import LustreSimulator.Proofs.NrsTbfRange
import LustreSimulator.Processor
import LustreSimulator.Proofs.Processor
import LustreSimulator.Proofs.CongestController
import LustreSimulator.Proofs.CongestAccount
import LustreSimulator.NrsMessage
import LustreSimulator.NrsFifo
import LustreSimulator.NrsFRR
import LustreSimulator.Proofs.NrsFRR
import LustreSimulator.Proofs.NrsFrrDeadline
import LustreSimulator.Lib.Rank
import LustreSimulator.Proofs.NrsFrrService
import LustreSimulator.NrsPrio
import LustreSimulator.Lib.Ledger
import LustreSimulator.NrsPrioFlavor
import LustreSimulator.Proofs.NrsPrioFlavor
import LustreSimulator.Proofs.NrsPrioQuantum
import LustreSimulator.Proofs.NrsTally
import LustreSimulator.Proofs.NrsFrrExpiry
import LustreSimulator.NrsEpoch
import LustreSimulator.Proofs.NrsEpoch
import LustreSimulator.Proofs.NrsEpochClock
import LustreSimulator.Proofs.NrsEpochArm
import LustreSimulator.Scheduler
import LustreSimulator.Proofs.Scheduler
import LustreSimulator.Proofs.NrsTieOrder
import LustreSimulator.Proofs.SchedulerTree
import LustreSimulator.IntervalTree
import LustreSimulator.Proofs.IntervalTree
import LustreSimulator.IntervalSearch
import LustreSimulator.Proofs.IntervalSearch
import LustreSimulator.Proofs.IntervalExpand
import LustreSimulator.Proofs.IntervalExact
import LustreSimulator.Lib.Align
import LustreSimulator.Ldlm
import LustreSimulator.Proofs.LdlmPolicy
import LustreSimulator.Proofs.LdlmGrant
import LustreSimulator.Proofs.LdlmScan
import LustreSimulator.Proofs.Ldlm
import LustreSimulator.LdlmEnqueue
import LustreSimulator.Proofs.LdlmWaiting
import LustreSimulator.Proofs.LdlmFixup
import LustreSimulator.Lib.Ring
import LustreSimulator.LdlmSkip
import LustreSimulator.Proofs.LdlmSkip
import LustreSimulator.AdaptiveTimeout
import LustreSimulator.Lib.Sliding
import LustreSimulator.Proofs.AdaptiveTimeout
import LustreSimulator.Proofs.BulkRpcRuns
import LustreSimulator.PtlrpcServer
import LustreSimulator.Proofs.PtlrpcServer
import LustreSimulator.Ptlrpc
import LustreSimulator.Proofs.Ptlrpc
import LustreSimulator.PtlrpcSend
import LustreSimulator.Proofs.PtlrpcSend
import LustreSimulator.Proofs.EarlyReply
import LustreSimulator.GrantRcc
import LustreSimulator.Proofs.GrantRcc
import LustreSimulator.Lib.Dispense
import LustreSimulator.Pios
import LustreSimulator.Proofs.Pios
import LustreSimulator.Lib.PriorityQueue
import LustreSimulator.NrsAutoArray
import LustreSimulator.Proofs.NrsAutoArray
import LustreSimulator.Proofs.NrsPriorityQueue
import LustreSimulator.Proofs.NrsEnomem
import LustreSimulator.Lib.LinkedTree
import LustreSimulator.LinkedRbtree
import LustreSimulator.Proofs.LinkedRbtree
import LustreSimulator.Proofs.RbtreeRepair
import LustreSimulator.Proofs.RbtreeWalks
import LustreSimulator.Proofs.RbtreeUpdate
import LustreSimulator.Proofs.RbtreeRuns
import LustreSimulator.Lib.PageTable
import LustreSimulator.CfsBinheap
import LustreSimulator.Proofs.CfsBinheapPages
import LustreSimulator.Proofs.CfsBinheap
import LustreSimulator.Proofs.CfsBinheapRuns
import LustreSimulator.NrsTbfBinheap
import LustreSimulator.Proofs.NrsTbfBinheap
import LustreSimulator.ClientUser
import LustreSimulator.Proofs.ClientUserTurn
import LustreSimulator.Proofs.ClientUser
