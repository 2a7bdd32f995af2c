import TeraSlab.Ops.DahCompleteness
import TeraSlab.Redo.Recoverable
import TeraSlab.Redo.RepeatedCrash
import TeraSlab.Redo.GroupCommit
import TeraSlab.Redo.LinearReopen
import TeraSlab.Redo.Admission
import TeraSlab.Recovery.CounterRecovery
import TeraSlab.Recovery.LifecycleRecovery
import TeraSlab.Recovery.OffsetOwners
import TeraSlab.Backup.Job
import TeraSlab.Recovery.MinedRecovery
import TeraSlab.Cluster.ReplayWindow
import TeraSlab.Recovery.TombstoneRecovery
import TeraSlab.Allocator.SegmentInterleaving
import TeraSlab.Replication.BaselineCreate
import TeraSlab.Index.HashTableRefinement
import TeraSlab.Index.HeightIndex
import TeraSlab.Replication.SendLoop
import TeraSlab.Allocator.SegmentCrash
import TeraSlab.Device.StreamingWrite
import TeraSlab.Cluster.InboundFence
import TeraSlab.Cluster.VoteDecision
import TeraSlab.Replication.AckTracker
import TeraSlab.Cluster.ShardHandoff
import TeraSlab.Cluster.VoteDurability
import TeraSlab.Device.PhysicalBarrier
import TeraSlab.Cluster.FrameAuth
import TeraSlab.Ops.Refusals
import TeraSlab.Storage.BlobStore
