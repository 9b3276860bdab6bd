import Vosfs.Consensus.Matching
import Vosfs.Consensus.Completeness
import Vosfs.Library.Disk
import Vosfs.Library.UnorderedMap
import Vosfs.Raft.Log
import Vosfs.Raft.Persister
import Vosfs.Raft.Snapshotter
import Vosfs.Raft.StateMachine
import Vosfs.Raft.Node
import Vosfs.Library.Run
import Vosfs.Library.Mutexes
import Vosfs.Raft.Cluster
import Vosfs.Raft.Effects
import Vosfs.Consensus.Growth
import Vosfs.Raft.Simulation
import Vosfs.Raft.Voting
import Vosfs.Raft.Replicating
import Vosfs.Raft.Conditions
import Vosfs.Raft.Committing
import Vosfs.Raft.ClusterSteps
import Vosfs.Raft.ElectionSafety
import Vosfs.Raft.LogSafety
import Vosfs.Raft.CommitSafety
import Vosfs.Raft.Writes
import Vosfs.Raft.Life
import Vosfs.Raft.HardStateSafety
import Vosfs.Raft.LogStore
import Vosfs.Raft.LogDurability
import Vosfs.Raft.Determinism
import Vosfs.Raft.Entries
import Vosfs.Storage.DataNode
import Vosfs.Storage.BlockStore
import Vosfs.Library.Counters
import Vosfs.Raft.Numbers
import Vosfs.Raft.InodeNumbers
import Vosfs.Library.Paths
import Vosfs.Raft.Reachable
import Vosfs.Raft.Correspondence
import Vosfs.Raft.Listing
import Vosfs.Raft.Frames
import Vosfs.Raft.Names
import Vosfs.Raft.Placement
import Vosfs.Raft.Following
import Vosfs.Raft.Sending
import Vosfs.Raft.Batches
import Vosfs.Raft.Transfer
import Vosfs.Raft.Chunks
import Vosfs.Raft.SnapshotFiles
import Vosfs.Raft.Terms
import Vosfs.Raft.Ballots
import Vosfs.Raft.IndexChain
import Vosfs.Raft.Assembly
import Vosfs.Raft.Locks
import Vosfs.Raft.Unlocking
import Vosfs.Raft.LogAccess
import Vosfs.Raft.Resumptions
import Vosfs.Raft.Installing
import Vosfs.Raft.VoteRule
import Vosfs.Raft.Restoring
import Vosfs.Raft.Merging
import Vosfs.Raft.LeaderHint
import Vosfs.Raft.CommitBound
import Vosfs.Raft.MajorityCommits
import Vosfs.Consensus.Repair
import Vosfs.Raft.LogRepair
import Vosfs.Raft.Compaction
import Vosfs.Library.Conversions
import Vosfs.Ui.Client
import Vosfs.Ui.Redirects
import Vosfs.Ui.Grants
import Vosfs.Ui.Uploads
import Vosfs.Ui.Downloads
import Vosfs.Library.Bytes
import Vosfs.Ui.RoundTrip
import Vosfs.Ui.Splitting
import Vosfs.Ui.Saving
import Vosfs.Auth.AuthNode
import Vosfs.Auth.Accounts
import Vosfs.Auth.Answers
import Vosfs.Library.Replicas
import Vosfs.Library.Namespace
import Vosfs.FileSystem.Tree
import Vosfs.FileSystem.Replication
import Vosfs.FileSystem.Applying
import Vosfs.FileSystem.Replication
import Vosfs.FileSystem.Clients
import Vosfs.FileSystem.Origins
import Vosfs.Ui.Publishing
import Vosfs.Service.Deployment
import Vosfs.Service.Contents
import Vosfs.Library.Reader
import Vosfs.Library.Wire
import Vosfs.Library.Varint
import Vosfs.Raft.Encoding
import Vosfs.FileSystem.Reloading
import Vosfs.Raft.StoredBytes
import Vosfs.Raft.PartialTransfer
import Vosfs.Raft.Campaign
import Vosfs.Raft.Electorate
