import SimpleDfs.Common.ConfigCut
import SimpleDfs.Common.ConfigReads
import SimpleDfs.Common.ConfigScan
import SimpleDfs.Common.ConfigText
import SimpleDfs.Common.HashKey
import SimpleDfs.Common.Id
import SimpleDfs.Common.LockQueue
import SimpleDfs.Common.LockQueueLinear
import SimpleDfs.Common.NumStr
import SimpleDfs.Common.QueueRuns
import SimpleDfs.Common.S1r1wDelivery
import SimpleDfs.Common.S1r1wQueue
import SimpleDfs.Common.SArray
import SimpleDfs.Common.SConfig
import SimpleDfs.Common.SHash
import SimpleDfs.Common.SHashMap
import SimpleDfs.Common.SHashPlace
import SimpleDfs.Common.SHashRefs
import SimpleDfs.Common.SHashShape
import SimpleDfs.Common.SList
import SimpleDfs.Common.SQueue
import SimpleDfs.Common.StringEqual
import SimpleDfs.Dserv.Chain
import SimpleDfs.Dserv.Completion
import SimpleDfs.Dserv.Effects
import SimpleDfs.Dserv.Forgetting
import SimpleDfs.Dserv.Handlers
import SimpleDfs.Dserv.Invariant
import SimpleDfs.Dserv.Lock
import SimpleDfs.Dserv.LockReads
import SimpleDfs.Dserv.Moves
import SimpleDfs.Dserv.Network
import SimpleDfs.Dserv.Ordering
import SimpleDfs.Dserv.Preservation
import SimpleDfs.Dserv.Releases
import SimpleDfs.Dserv.Serial
import SimpleDfs.Dserv.Waiting
import SimpleDfs.Library.Bytes
import SimpleDfs.Library.CharArithmetic
import SimpleDfs.Library.Decimal
import SimpleDfs.Library.Fifo
import SimpleDfs.Library.LinkFamily
import SimpleDfs.Library.LinkRing
import SimpleDfs.Library.LinkThread
import SimpleDfs.Library.LinkWrites
import SimpleDfs.Library.Poll
import SimpleDfs.Library.Ranking
import SimpleDfs.Library.Run
import SimpleDfs.Library.Sequence
import SimpleDfs.Library.SlotMap
import SimpleDfs.Library.Table
import SimpleDfs.Library.Tally
import SimpleDfs.Library.Turns
import SimpleDfs.Lockfree.Linearization
import SimpleDfs.Lockfree.MsQueue
import SimpleDfs.Lockfree.Progress
import SimpleDfs.Mserv.AttemptLedger
import SimpleDfs.Mserv.AttemptReplies
import SimpleDfs.Mserv.AttemptRounds
import SimpleDfs.Mserv.Attempts
import SimpleDfs.Mserv.BlockNum
import SimpleDfs.Mserv.Create
import SimpleDfs.Mserv.CreateEffects
import SimpleDfs.Mserv.CreateMoves
import SimpleDfs.Mserv.CreateNetwork
import SimpleDfs.Mserv.CreateOnce
import SimpleDfs.Mserv.CreateRounds
import SimpleDfs.Mserv.FileIds
import SimpleDfs.Mserv.GlobalLock
import SimpleDfs.Mserv.GlobalLockExclusion
import SimpleDfs.Mserv.GlobalLockReplies
import SimpleDfs.Mserv.GlobalLockWaiting
import SimpleDfs.Mserv.Placement
import SimpleDfs.Net.Connection
import SimpleDfs.Net.ConnectionPool
import SimpleDfs.Net.Dispatch
import SimpleDfs.Net.FanOut
import SimpleDfs.Net.Fields
import SimpleDfs.Net.Packet
import SimpleDfs.Net.PacketPool
import SimpleDfs.Net.Reassembly
import SimpleDfs.Net.SendQueue
import SimpleDfs.Net.Stream
import SimpleDfs.Net.TypedFields
import SimpleDfs.Net.Writer
import SimpleDfs.Paxos.Acceptor
import SimpleDfs.Paxos.Agreement
import SimpleDfs.Paxos.Answers
import SimpleDfs.Paxos.Calls
import SimpleDfs.Paxos.Effects
import SimpleDfs.Paxos.Freeze
import SimpleDfs.Paxos.Group
import SimpleDfs.Paxos.GroupLeader
import SimpleDfs.Paxos.GroupLearner
import SimpleDfs.Paxos.GroupTurns
import SimpleDfs.Paxos.GroupVotes
import SimpleDfs.Paxos.History
import SimpleDfs.Paxos.Installing
import SimpleDfs.Paxos.Learner
import SimpleDfs.Paxos.Membership
import SimpleDfs.Paxos.Moves
import SimpleDfs.Paxos.Network
import SimpleDfs.Paxos.OneValue
import SimpleDfs.Paxos.Process
import SimpleDfs.Paxos.Promises
import SimpleDfs.Paxos.ProposalRefs
import SimpleDfs.Paxos.ProposalShares
import SimpleDfs.Paxos.Proposer
import SimpleDfs.Paxos.Quorum
import SimpleDfs.Paxos.Refresh
import SimpleDfs.Paxos.Rounds
import SimpleDfs.Paxos.Steps
import SimpleDfs.Paxos.Topic
import SimpleDfs.Paxos.TopicNumber
import SimpleDfs.Paxos.Validity
import SimpleDfs.Paxos.VersionOrder
import SimpleDfs.ServerGroup.ActiveServers
import SimpleDfs.ServerGroup.CallEffects
import SimpleDfs.ServerGroup.CallMoves
import SimpleDfs.ServerGroup.CallSteps
import SimpleDfs.ServerGroup.CallbackOnce
import SimpleDfs.ServerGroup.Calls
import SimpleDfs.ServerGroup.Closing
import SimpleDfs.ServerGroup.ConfigQueries
import SimpleDfs.ServerGroup.Creation
import SimpleDfs.ServerGroup.Deployment
import SimpleDfs.ServerGroup.DeploymentStart
import SimpleDfs.ServerGroup.Events
import SimpleDfs.ServerGroup.Group
import SimpleDfs.ServerGroup.Identity
import SimpleDfs.ServerGroup.ListLaw
import SimpleDfs.ServerGroup.Moves
import SimpleDfs.ServerGroup.Names
import SimpleDfs.ServerGroup.Order
import SimpleDfs.ServerGroup.Orderly
import SimpleDfs.ServerGroup.Start
import SimpleDfs.ServerGroup.Timeouts
import SimpleDfs.Wire.Abi
import SimpleDfs.Wire.Counts
import SimpleDfs.Wire.CreateOutcome
import SimpleDfs.Wire.Entries
import SimpleDfs.Wire.FileMetaData
import SimpleDfs.Wire.LearnDump
import SimpleDfs.Wire.MetaMetaData
import SimpleDfs.Wire.PrepareResponse
import SimpleDfs.Zookeeper.Barrier
import SimpleDfs.Zookeeper.Lock
import SimpleDfs.Zookeeper.LockCalls
import SimpleDfs.Zookeeper.LockOrder
import SimpleDfs.Zookeeper.LockProgress
import SimpleDfs.Zookeeper.LockVector
import SimpleDfs.Zookeeper.LockVectorOrder
import SimpleDfs.Zookeeper.Sync
