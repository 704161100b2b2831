import DistributedMQ.Raft.LogMatching
import DistributedMQ.Lib.Replication
import DistributedMQ.Raft.MatchIndex
import DistributedMQ.Raft.Acks
import DistributedMQ.Raft.LeaderCompleteness
import DistributedMQ.Raft.MatchSound
import DistributedMQ.Raft.FreshCluster
import DistributedMQ.Broker.AcksAll
import DistributedMQ.Raft.ApplyOrder
import DistributedMQ.Lib.Journal
import DistributedMQ.Raft.Restart
import DistributedMQ.Raft.InstallSnapshot
import DistributedMQ.NameServer.Registry
import DistributedMQ.Broker.Bootstrap
import DistributedMQ.Raft.ConfigChange
import DistributedMQ.Raft.PeerViews
import DistributedMQ.Raft.CommitQuorum
import DistributedMQ.Raft.QuorumOverlap
import DistributedMQ.Raft.RunLoop
import DistributedMQ.Lib.LockProgram
import DistributedMQ.Raft.Locks
import DistributedMQ.Storage.CommitLog
import DistributedMQ.Broker.Partitions
import DistributedMQ.Broker.ApplyLoop
import DistributedMQ.Broker.Fetch
import DistributedMQ.Broker.Isolation
import DistributedMQ.Broker.StoreRestart
import DistributedMQ.Broker.Idempotent
import DistributedMQ.NameServer.Transactions
import DistributedMQ.NameServer.TxLog
import DistributedMQ.Lib.Blocks
import DistributedMQ.NameServer.Groups
import DistributedMQ.Broker.Namespaces
import DistributedMQ.Broker.Duplicates
import DistributedMQ.Broker.TransactionManager
import DistributedMQ.Broker.Redelivery
import DistributedMQ.Broker.AccessPaths
import DistributedMQ.NameServer.Offsets
import DistributedMQ.NameServer.FormerOwners
import DistributedMQ.NameServer.Consumers
import DistributedMQ.Client.Decoder
import DistributedMQ.Client.Requests
import DistributedMQ.Client.PendingResponse
import DistributedMQ.Broker.Routing
import DistributedMQ.Client.Resume
import DistributedMQ.Raft.Deliveries
import DistributedMQ.Raft.Backtracking
import DistributedMQ.Raft.Lag
import DistributedMQ.Storage.FailedAppend
import DistributedMQ.Broker.Consumption
import DistributedMQ.Storage.Batch
import DistributedMQ.Raft.CommitAll
import DistributedMQ.Lib.Thresholds
import DistributedMQ.Raft.Yield
import DistributedMQ.Raft.VoteCount
import DistributedMQ.Broker.RetryQueue
import DistributedMQ.Broker.TransactionViews
import DistributedMQ.Storage.TimeWheel
import DistributedMQ.Storage.Punctuality
import DistributedMQ.Broker.Retention
import DistributedMQ.CStorage.CommitLog
import DistributedMQ.CStorage.SparseIndex
import DistributedMQ.CStorage.Reopen
import DistributedMQ.CStorage.Agreement
import DistributedMQ.CStorage.ReadBounds
import DistributedMQ.Raft.NextIndex
import DistributedMQ.Raft.StateMachineSafety
import DistributedMQ.Client.Delivery
