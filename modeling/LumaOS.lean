import LumaOS.Models.ValidationRuns
import LumaOS.Resources.Accounting
import LumaOS.Resources.Atomic
import LumaOS.Resources.Permanence
import LumaOS.Resources.WorkerRuns
import LumaOS.Governance.Observation
import LumaOS.Governance.Timestamps
import LumaOS.Governance.Quorum
import LumaOS.Governance.Ownership
import LumaOS.Audit.Commit
import LumaOS.Utc.BatchRuns
import LumaOS.Workflow.Listing
import LumaOS.Workflow.Replays
import LumaOS.Inference.Reopening
import LumaOS.Policy.Retention
import LumaOS.Boot.Commitments
import LumaOS.Memory.Failures
import LumaOS.Artifacts.EndStates
import LumaOS.Artifacts.PruneRuns
import LumaOS.StateTransfer.RoundTrip
import LumaOS.Anchors.Runs
import LumaOS.TypedDag.Runs
import LumaOS.Publication.Runs
import LumaOS.Updater.Runs
import LumaOS.BrokerEffects.Runs
import LumaOS.Policy.Evaluation
import LumaOS.Utc.Sampled
import LumaOS.Evidence.Blocked
import LumaOS.Delegation.Runs
import LumaOS.Calculation.Delivery
import LumaOS.Accounts.Rewrites
import LumaOS.Accounts.Inverse
