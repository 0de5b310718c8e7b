import Delegation.Fund.History
import Delegation.Lib.Accrual
import Delegation.Latest.NodeCalls
import Delegation.Latest.Conservation
import Delegation.Latest.OwnerOnly
import Delegation.Latest.Completion
import Delegation.Latest.Unstaking
import Delegation.Latest.Unbonding
import Delegation.Latest.Locks
import Delegation.Latest.CapInvariant
import Delegation.Latest.CapReached
import Delegation.Latest.Fairness
import Delegation.Latest.DustResume
import Delegation.Latest.Custody
import Delegation.Latest.DryRun
import Delegation.Latest.ClaimTiming
import Delegation.Latest.UnbondPeriod
import Delegation.Latest.UserRegistry
import Delegation.Latest.NodeRegistry
import Delegation.Latest.UnbondAll
import Delegation.Latest.Egld
import Delegation.Latest.ProRata
import Delegation.Latest.Queues
import Delegation.Latest.Views
import Delegation.Latest.Lifecycle
import Delegation.Latest.Refusals
import Delegation.Latest.Claimable
