import Dymint.Core.Procedure
import Dymint.Core.CrashSystem
import Dymint.Types.Tendermint
import Dymint.Types.Block
import Dymint.Types.Serialization
import Dymint.Types.Reference
import Dymint.Types.Codec
import Dymint.State.Executor
import Dymint.State.DataHash
import Dymint.Store.Store
import Dymint.Store.Blocks
import Dymint.Block.Node
import Dymint.Block.Manager
import Dymint.Block.Produce
import Dymint.Block.Retriever
import Dymint.Block.Steps
import Dymint.Block.System
import Dymint.Block.Reference
import Dymint.Block.Heights
import Dymint.Block.ExactlyOnce
import Dymint.Block.StoredBlocks
import Dymint.Block.FaultFree
import Dymint.Block.Settled
import Dymint.Block.Recovery
import Dymint.Types.Decoding
import Dymint.P2P.Gossip
import Dymint.Block.Panics
import Dymint.DA.Celestia
import Dymint.Block.Produced
import Dymint.Block.Sync
import Dymint.Block.CallHistory
import Dymint.Block.Course
import Dymint.Block.InitChain
import Dymint.Block.Moments
import Dymint.Block.Rotation
import Dymint.Block.Agreement
import Dymint.Block.Pruning
import Dymint.Block.Records
import Dymint.Block.Restart
import Dymint.Block.Links
import Dymint.Block.Published
import Dymint.Block.Retention
import Dymint.Block.Storage
import Dymint.Core.Runs
import Dymint.Mempool.Cache
import Dymint.Mempool.Mempool
import Dymint.Mempool.Changes
import Dymint.Core.ListIndex
import Dymint.Mempool.Invariant
import Dymint.Mempool.Bounds
import Dymint.Core.Threads
import Dymint.Block.StoreHeight
import Dymint.Mempool.Seen
import Dymint.Mempool.Commit
import Dymint.Mempool.Recheck
import Dymint.Block.ProduceLoop
import Dymint.Node.Health
import Dymint.State.Indexer
import Dymint.Block.SyncTarget
import Dymint.Block.FirstBlock
import Dymint.Block.Submit
import Dymint.Block.Aggregator
import Dymint.Block.SubmitRange
import Dymint.Block.SyncedProduction
import Dymint.Block.Overlap
import Dymint.Block.AppHash
import Dymint.Conv.Block
import Dymint.RPC.Commit
import Dymint.Core.Cuts
import Dymint.Mempool.Eviction
import Dymint.Mempool.LocalRecheck
import Dymint.Mempool.Reap
import Dymint.Mempool.Submission
import Dymint.Block.PruneFailure
import Dymint.Block.LostUpdate
import Dymint.Core.Steered
import Dymint.Block.GossipOnce
import Dymint.Block.InFlight
import Dymint.Settlement.PostBatch
import Dymint.Core.Decimal
import Dymint.Core.Narrow
import Dymint.Core.Retry
import Dymint.DA.Avail
import Dymint.Settlement.DAPath
import Dymint.Settlement.StateInfo
import Dymint.Settlement.SubmitBatch
import Dymint.State.BlockIndex
import Dymint.State.BlockSearch
import Dymint.State.Inclusions
import Dymint.State.SearchPanics
import Dymint.DA.Concatenated
import Dymint.Node.PeerIDs
import Dymint.RPC.Requests
