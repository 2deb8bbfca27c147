import Nukv.Base.Effect
import Nukv.Raft.Run
import Nukv.Model.Wire
import Nukv.Model.Cluster
import Nukv.Proof.Refine
import Nukv.Property.Capture
import Nukv.Property.CatchUp
import Nukv.Property.Compaction
import Nukv.Property.Conflicts
import Nukv.Property.Consensus
import Nukv.Property.Contents
import Nukv.Property.Deployment
import Nukv.Property.Durability
import Nukv.Property.Failures
import Nukv.Property.Frames
import Nukv.Property.Framing
import Nukv.Property.Freshness
import Nukv.Property.Indexes
import Nukv.Property.Inflight
import Nukv.Property.Install
import Nukv.Property.Labels
import Nukv.Property.Later
import Nukv.Property.Linearizable
import Nukv.Property.Membership
import Nukv.Property.Peers
import Nukv.Property.Progress
import Nukv.Property.ReadQueue
import Nukv.Property.Reads
import Nukv.Property.Replicas
import Nukv.Property.Replication
import Nukv.Property.Requests
import Nukv.Property.Responses
import Nukv.Property.Retry
import Nukv.Property.Serving
import Nukv.Property.Snapshots
import Nukv.Property.StateMachine
