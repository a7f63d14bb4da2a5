import DependentWatch.ClusterWatch
import DependentWatch.Json.Reader
import DependentWatch.Manifest.Reader
import DependentWatch.Object.Reader
import DependentWatch.Registration.Recorder
import DependentWatch.WatchesFile.Printer
import DependentWatch.WatchesFile.Reader
import DependentWatch.Proofs.History
import DependentWatch.Proofs.Manifest.ListKinds
import DependentWatch.Proofs.Manifest.Lists
import DependentWatch.Proofs.ObjectCache.Notices
import DependentWatch.Proofs.ObjectCache.Relist
import DependentWatch.Proofs.ObjectCache.Replica
import DependentWatch.Proofs.Routing.Handover
import DependentWatch.Proofs.Routing.Owners
import DependentWatch.Proofs.Routing.Requests
import DependentWatch.Proofs.Routing.Selectors
import DependentWatch.Proofs.Routing.UnchangedContent
import DependentWatch.Proofs.WorkQueue.Acts
import DependentWatch.Proofs.WorkQueue.Operations
import DependentWatch.Proofs.WorkQueue.Copies
import DependentWatch.Proofs.WorkQueue.RetryCounts
import DependentWatch.Proofs.WorkQueue.Delays
import DependentWatch.Proofs.WorkQueue.Draining
import DependentWatch.Proofs.WorkQueue.HandingOut
import DependentWatch.Proofs.WorkQueue.SkippedRetries
import DependentWatch.Proofs.WorkQueue.WakeUps
import DependentWatch.Proofs.Registration.Calls
import DependentWatch.Proofs.Registration.Outcome
import DependentWatch.Proofs.Registration.OwnerKinds
import DependentWatch.Proofs.Registration.Retries
import DependentWatch.Proofs.WatchesFile.Delays
import DependentWatch.Proofs.WatchesFile.Trees
import DependentWatch.Proofs.WorkQueue.FilteredEvents
import DependentWatch.Proofs.WatchesFile.RoundTrip
import DependentWatch.Proofs.Discovery.Lookups
import DependentWatch.Proofs.KindTexts
import DependentWatch.Proofs.WatchesFile.Validation
import DependentWatch.Proofs.Routing.NamedOwners
import DependentWatch.Proofs.ScopeTable
