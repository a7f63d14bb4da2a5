import DependentWatch.Object
import DependentWatch.Timestamp.Printer
/-! Objects as trees of fields. What is absent is left out; what is empty is not. -/
namespace DependentWatch

namespace Json

/-- The tree without a field. -/
def erase (k : String) : Json → Json
  | .obj fields => .obj (fields.filter (·.1 ≠ k))
  | j => j

/-- The tree with a field changed, if it has one of this name. -/
def modify (k : String) (f : Json → Json) : Json → Json
  | .obj fields => .obj (fields.map fun e => (e.1, if e.1 = k then f e.2 else e.2))
  | j => j

end Json

def TextMap.toJson (m : TextMap) : Json := .ofFields (m.entries.map fun (k, v) => (k, .str v))

namespace OwnerReference

def fields (r : OwnerReference) : List (String × Option Json) := [
  ("apiVersion", some (.str r.apiVersion)),
  ("blockOwnerDeletion", r.blockOwnerDeletion.map .bool),
  ("controller", r.controller.map .bool),
  ("kind", some (.str r.kind)),
  ("name", some (.str r.name)),
  ("uid", some (.str r.uid))]

def toJson (r : OwnerReference) : Json := .ofPresent r.fields

end OwnerReference

namespace ObjectMeta

/-- What the server notes down about an object. -/
def bookkeeping (m : ObjectMeta) : List (String × Option Json) := [
  ("managedFields", m.managedFields.map .arr),
  ("resourceVersion", m.resourceVersion.map .str)]

/-- All the other fields. -/
def content (m : ObjectMeta) : List (String × Option Json) := [
  ("annotations", m.annotations.map TextMap.toJson),
  ("creationTimestamp", m.creationTimestamp.map fun t => .str t.text),
  ("deletionGracePeriodSeconds", m.deletionGracePeriodSeconds.map .int),
  ("deletionTimestamp", m.deletionTimestamp.map fun t => .str t.text),
  ("finalizers", m.finalizers.map fun texts => .arr (texts.map .str)),
  ("generateName", m.generateName.map .str),
  ("generation", m.generation.map .int),
  ("labels", m.labels.map TextMap.toJson),
  ("name", m.name.map .str),
  ("namespace", m.ns.map .str),
  ("ownerReferences", m.ownerReferences.map fun rs => .arr (rs.map OwnerReference.toJson)),
  ("selfLink", m.selfLink.map .str),
  ("uid", m.uid.map .str)]

def toJson (m : ObjectMeta) : Json := .ofPresent (m.bookkeeping ++ m.content)

end ObjectMeta

namespace Object

def typeFields (o : Object) : List (String × Json) :=
  match o.types with
  | some t => [("apiVersion", .str t.apiVersion), ("kind", .str t.kind)]
  | none => []

def toJson (o : Object) : Json :=
  .ofFields (o.typeFields ++ ("metadata", o.metadata.toJson) :: o.other)

/-- The tree of an object without its status and the bookkeeping of the server. -/
def comparable (o : Object) : Json :=
  (o.toJson.erase "status").modify "metadata" fun metadata =>
    (metadata.erase "resourceVersion").erase "managedFields"

end Object
end DependentWatch
