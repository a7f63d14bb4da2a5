import DependentWatch.Annotations
import DependentWatch.Error
import DependentWatch.Kind
import DependentWatch.Object
/-! Owners: the resources whose release made the dependents. -/
namespace DependentWatch

/-- An owner outside of every namespace has none. -/
structure Owner where
  gvk : GroupVersionKind
  ns : Option String
  name : String
deriving DecidableEq

/-- `namespace/name`, or the name alone. -/
def namespacedName (ns : Option String) (name : String) : String :=
  match ns with
  | some ns => ns ++ "/" ++ name
  | none => name

namespace Owner

def ofObject (o : Object) : Except WatchError Owner :=
  match o.types, o.metadata.name with
  | none, _ => .error (.invalidConfig .ownerWithoutType)
  | some _, none => .error (.invalidConfig .ownerWithoutName)
  | some types, some name => .ok ⟨.ofApiVersion types.apiVersion types.kind, o.metadata.ns, name⟩

def namespacedName (o : Owner) : String := DependentWatch.namespacedName o.ns o.name

def text (o : Owner) : String := o.gvk.kind ++ "/" ++ o.namespacedName

/-- Writes the owner into the annotations of a dependent. -/
def annotate (o : Owner) (annotations : TextMap) : TextMap :=
  (annotations.insert Annotations.primaryResource o.namespacedName).insert
    Annotations.primaryResourceType o.gvk.typeText

end Owner
end DependentWatch
