import DependentWatch.Error
import DependentWatch.Kind
/-! The dependent kinds that are registered for one owner kind. -/
namespace DependentWatch

/-- Kinds in the order of their registration, each once. -/
structure KindSet where
  kinds : List GroupVersionKind
deriving DecidableEq

namespace KindSet

def empty : KindSet := ⟨[]⟩

instance : Membership GroupVersionKind KindSet := ⟨fun s k => k ∈ s.kinds⟩

instance (k : GroupVersionKind) (s : KindSet) : Decidable (k ∈ s) :=
  inferInstanceAs (Decidable (k ∈ s.kinds))

def insert (s : KindSet) (k : GroupVersionKind) : KindSet :=
  if k ∈ s then s else ⟨s.kinds ++ [k]⟩

def size (s : KindSet) : Nat := s.kinds.length

/-- Subscribes to a kind that is not registered, and registers it where that succeeds. Says
whether it did. -/
def registerOnce (s : KindSet) (k : GroupVersionKind) (subscribe : Unit → Except WatchError Unit) :
    Except WatchError Bool × KindSet :=
  if k ∈ s then (.ok false, s)
  else
    match subscribe () with
    | .ok () => (.ok true, s.insert k)
    | .error e => (.error e, s)

end KindSet
end DependentWatch
