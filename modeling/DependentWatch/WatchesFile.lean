import DependentWatch.Duration
import DependentWatch.Event
/-! Files that say which owner kinds are watched, and how. -/
namespace DependentWatch

/-- One owner kind. The dependents carry all labels of the selector. -/
structure Watch where
  gvk : GroupVersionKind
  watchDependents : Bool
  selector : TextMap
  backoff : Backoff
deriving DecidableEq

namespace Watch

def ofKind (k : GroupVersionKind) : Watch := ⟨k, true, .empty, .default⟩

/-- The filters of every subscription for a dependent. -/
def filters (w : Watch) : List Filter :=
  .dependentChanges :: if w.selector.isEmpty then [] else [.matchLabels w.selector]

/-- What is wrong with a watch by itself. -/
def fault? (w : Watch) : Option ConfigFault :=
  if Text.blank w.gvk.version then some (.emptyVersion w.gvk.kind)
  else if Text.blank w.gvk.kind then some (.emptyKind w.gvk.group)
  else if w.backoff.max.nanos < w.backoff.base.nanos then some (.invertedDelays w.gvk.kind)
  else none

end Watch

structure WatchesFile where
  watches : List Watch
deriving DecidableEq

namespace WatchesFile

/-- The first fault of watches that follow others with these kinds. A kind is watched once. -/
def faultAfter (seen : List GroupVersionKind) : List Watch → Option ConfigFault
  | [] => none
  | w :: ws =>
    match w.fault? with
    | some f => some f
    | none =>
      if w.gvk ∈ seen then some (.duplicateWatch w.gvk.group w.gvk.version w.gvk.kind)
      else faultAfter (w.gvk :: seen) ws

def fault? (f : WatchesFile) : Option ConfigFault := faultAfter [] f.watches

/-- The watch of an owner kind. -/
def get? (f : WatchesFile) (k : GroupVersionKind) : Option Watch := f.watches.find? (·.gvk = k)

end WatchesFile
end DependentWatch
