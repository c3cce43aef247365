import Yali.Order.Best
import Yali.Proof.Arrival
import Yali.Proof.Atomic
import Yali.Proof.Attach
import Yali.Proof.Backup
import Yali.Proof.Balance
import Yali.Proof.Converge
import Yali.Proof.Delivery
import Yali.Proof.Details
import Yali.Proof.Fleet
import Yali.Proof.Host
import Yali.Proof.Independent
import Yali.Proof.Legacy
import Yali.Proof.Linear
import Yali.Proof.Listing
import Yali.Proof.Merge
import Yali.Proof.Migration
import Yali.Proof.Progress
import Yali.Proof.Recovery
import Yali.Proof.Register
import Yali.Proof.Registry
import Yali.Proof.Rotation
import Yali.Proof.Routing
import Yali.Proof.Snapshots
import Yali.Proof.Startup
import Yali.Proof.Status
import Yali.Proof.Stream
import Yali.Proof.Table
import Yali.Proof.Version
import Yali.Spec.Execution
import Yali.Spec.Init
