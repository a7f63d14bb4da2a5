import DependentWatch.Json
import DependentWatch.TextMap
import DependentWatch.Timestamp
/-! Objects of the cluster: their type, the metadata that is understood, and everything else. -/
namespace DependentWatch

structure TypeMeta where
  apiVersion : String
  kind : String
deriving DecidableEq

structure OwnerReference where
  apiVersion : String
  kind : String
  name : String
  uid : String
  controller : Option Bool
  blockOwnerDeletion : Option Bool
deriving DecidableEq

/-- An absent field is none; an empty map or list is present. -/
structure ObjectMeta where
  annotations : Option TextMap
  creationTimestamp : Option Timestamp
  deletionGracePeriodSeconds : Option Int
  deletionTimestamp : Option Timestamp
  finalizers : Option (List String)
  generateName : Option String
  generation : Option Int
  labels : Option TextMap
  managedFields : Option (List Json)
  name : Option String
  ns : Option String
  ownerReferences : Option (List OwnerReference)
  resourceVersion : Option String
  selfLink : Option String
  uid : Option String
deriving DecidableEq

def ObjectMeta.empty : ObjectMeta :=
  ⟨none, none, none, none, none, none, none, none, none, none, none, none, none, none, none⟩

structure Object where
  types : Option TypeMeta
  metadata : ObjectMeta
  other : List (String × Json)
deriving DecidableEq

namespace Object

/-- The object without its status and the bookkeeping of the server. -/
def significant (o : Object) : Object :=
  { o with
    metadata := { o.metadata with resourceVersion := none, managedFields := none }
    other := o.other.filter (·.1 ≠ "status") }

/-- An object without a name has no key. -/
def key? (o : Object) : Option (Option String × String) :=
  o.metadata.name.map fun name => (o.metadata.ns, name)

/-- All of these labels with these values. -/
def hasLabels (o : Object) (selector : TextMap) : Bool :=
  selector.entries.all fun (k, v) => (o.metadata.labels.bind (·.get? k)) == some v

end Object
end DependentWatch
