import GravitySdk.Lib.KeyMap
import GravitySdk.Lib.Except
import GravitySdk.Lib.Transition
import GravitySdk.Lib.StackSearch
import GravitySdk.Lib.Walk
import GravitySdk.Lib.SortedStore
import GravitySdk.BlockBuffer.Types
import GravitySdk.BlockBuffer.Ops
import GravitySdk.BlockBuffer.Step
import GravitySdk.BlockBuffer.Spec
import GravitySdk.BlockBuffer.Lifecycle
import GravitySdk.BlockBuffer.Atomicity
import GravitySdk.BlockBuffer.Suffix
import GravitySdk.BlockBuffer.EpochChange
import GravitySdk.BlockBuffer.TxnBuffer
import GravitySdk.BlockBuffer.OrderedFeed
import GravitySdk.BlockBuffer.EpochBoundary
import GravitySdk.Consensus.Types
import GravitySdk.Consensus.SafetyRules
import GravitySdk.Consensus.SafetyStep
import GravitySdk.Consensus.NoEquivocation
import GravitySdk.Pipeline.BufferManager
import GravitySdk.BlockStorage.BlockTree
import GravitySdk.BlockStorage.Pruning
import GravitySdk.BlockStorage.TreeInvariant
import GravitySdk.BlockStorage.BlockStore
import GravitySdk.ConsensusDb.Schema
import GravitySdk.ConsensusDb.Unwind
import GravitySdk.ConsensusDb.ReputationAnchor
import GravitySdk.Consensus.ValidatorVerifier
import GravitySdk.Consensus.IdealVerifier
import GravitySdk.Consensus.Timeout2Chain
import GravitySdk.Consensus.PendingVotes
import GravitySdk.Consensus.VoteAggregation
import GravitySdk.Consensus.TimeoutAggregation
import GravitySdk.QuorumStore.Types
import GravitySdk.QuorumStore.BatchStore
import GravitySdk.QuorumStore.QuotaAccounting
import GravitySdk.QuorumStore.Expiry
import GravitySdk.QuorumStore.BatchStoreRuns
import GravitySdk.Lib.Checked
import GravitySdk.QuorumStore.ProofQueue
import GravitySdk.Lib.RoundRobin
import GravitySdk.QuorumStore.PullProofs
import GravitySdk.QuorumStore.ProofQueueRuns
import GravitySdk.Pipeline.CommitCaches
import GravitySdk.Pipeline.CommitCacheRuns
import GravitySdk.Mempool.Types
import GravitySdk.Mempool.GetBatch
import GravitySdk.Mempool.Broadcast
import GravitySdk.Mempool.BroadcastRuns
import GravitySdk.Lib.KeyedRun
import GravitySdk.GravityNode.BestTxns
import GravitySdk.GravityNode.BestTxnsRuns
import GravitySdk.Lib.Chain
import GravitySdk.Pipeline.Buffer
import GravitySdk.Pipeline.BufferItem
import GravitySdk.Pipeline.MainLoop
import GravitySdk.Pipeline.MainLoopRuns
import GravitySdk.Lib.Fibers
import GravitySdk.BlockPreparer.Shuffler
import GravitySdk.BlockPreparer.ShufflerRuns
import GravitySdk.BlockPreparer.Deduper
import GravitySdk.BlockPreparer.Prepare
