import Kcr.Cache.Accesses
import Kcr.Cache.Agreement
import Kcr.Cache.Buckets
import Kcr.Cache.Callbacks
import Kcr.Cache.Capacity
import Kcr.Cache.Concurrency
import Kcr.Cache.Failure
import Kcr.Cache.Guarantee
import Kcr.Cache.Hits
import Kcr.Cache.Interference
import Kcr.Cache.Interleaving
import Kcr.Cache.Invalidation
import Kcr.Cache.Linked
import Kcr.Cache.Operations
import Kcr.Cache.Ownership
import Kcr.Cache.Payloads
import Kcr.Cache.Phases
import Kcr.Cache.Promotion
import Kcr.Cache.Protocol
import Kcr.Cache.Reachable
import Kcr.Cache.Readers
import Kcr.Cache.Reclamation
import Kcr.Cache.Refinement
import Kcr.Cache.Replacement
import Kcr.Cache.Returns
import Kcr.Cache.Slots
import Kcr.Cache.Stability
import Kcr.Cache.State
import Kcr.Cache.Sweep
import Kcr.Cache.System
import Kcr.Cache.Termination
import Kcr.Cache.Visibility
import Kcr.Core.Counting
import Kcr.Core.Custody
import Kcr.Core.Determinism
import Kcr.Core.Fingerprint
import Kcr.Core.Freshness
import Kcr.Core.Injection
import Kcr.Core.Iommu
import Kcr.Core.Learners
import Kcr.Core.Lifecycle
import Kcr.Core.Lifetime
import Kcr.Core.Operations
import Kcr.Core.Recycling
import Kcr.Core.Segmentation
import Kcr.Core.Shutdown
import Kcr.Core.Statistics
import Kcr.Hlist.Accesses
import Kcr.Hlist.Avoid
import Kcr.Hlist.Chain
import Kcr.Hlist.Clear
import Kcr.Hlist.Colour
import Kcr.Hlist.Concurrent
import Kcr.Hlist.Ends
import Kcr.Hlist.Front
import Kcr.Hlist.Heap
import Kcr.Hlist.Quiet
import Kcr.Hlist.Readers
import Kcr.Hlist.Region
import Kcr.Semantics.Accounts
import Kcr.Semantics.Execution
import Kcr.Semantics.Ledger
import Kcr.Semantics.Program
import Kcr.Semantics.Rcu
import Kcr.Semantics.Recurrence
import Kcr.Semantics.RelyGuarantee
import Kcr.Semantics.TtlMap
