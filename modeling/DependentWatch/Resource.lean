import DependentWatch.Annotations
import DependentWatch.Error
import DependentWatch.Kind
import DependentWatch.Yaml.Value
/-! The resources that a release creates, as they are described by mappings. -/
namespace DependentWatch
open Yaml (Value)

/-- A resource, with the place of its document in the manifest. -/
structure Resource where
  index : Nat
  gvk : GroupVersionKind
  name : Option String
  ns : Option String
  annotations : TextMap
deriving DecidableEq

namespace Resource

/-- A retained resource is kept when its owner is deleted. -/
def retained (r : Resource) : Bool := Annotations.retained r.annotations

def text (r : Resource) : String :=
  let tail := r.gvk.kind ++ "/" ++ r.name.getD "unnamed"
  match r.ns with
  | some ns => ns ++ "/" ++ tail
  | none => tail

/-- The text behind the tags of a value. -/
def text? (v : Value) : Option String :=
  match v.untagged with
  | .str s => some s
  | _ => none

/-- The entries behind the tags of a value; null has none. -/
def entries? (v : Value) : Option (List (Value × Value)) :=
  match v.untagged with
  | .mapping entries => some entries
  | .null => some []
  | _ => none

/-- The entries by name. Every key is a text, and none of these names has two entries. -/
def fields? (names : List String) (entries : List (Value × Value)) :
    Option (List (String × Value)) := do
  let fields ← entries.mapM fun (k, v) => do return (← text? k, v)
  if names.any fun name => 1 < (fields.filter (·.1 = name)).length then none else some fields

/-- A field that may be missing or null. -/
def optional {α : Type} (read : Value → Option α) (v : Option Value) : Option (Option α) :=
  match v with
  | none | some .null => some none
  | some v => (read v).map some

def textMap? (v : Value) : Option TextMap := do
  return .ofList (← (← entries? v).mapM fun (k, v) => do return (← text? k, ← text? v))

/-- The namespace and the name are optional, and so are the annotations. -/
def metadata? (v : Value) : Option (Option String × Option String × TextMap) := do
  let fields ← fields? ["name", "namespace", "annotations"] (← entries? v)
  let name ← optional text? (fields.lookup "name")
  let ns ← optional text? (fields.lookup "namespace")
  let annotations ← optional textMap? (fields.lookup "annotations")
  return (ns, name, annotations.getD .empty)

/-- What a mapping says of a resource, before its type is checked. -/
structure Header where
  apiVersion : String
  kind : String
  ns : Option String
  name : Option String
  annotations : TextMap

def header? (entries : List (Value × Value)) : Option Header := do
  let fields ← fields? ["apiVersion", "kind", "metadata"] entries
  let apiVersion ← ((fields.lookup "apiVersion").map text?).getD (some "")
  let kind ← ((fields.lookup "kind").map text?).getD (some "")
  let metadata ← optional metadata? (fields.lookup "metadata")
  let (ns, name, annotations) := metadata.getD (none, none, .empty)
  return { apiVersion, kind, ns, name, annotations }

/-- The resource with these entries. Its `apiVersion` and `kind` must not be blank. -/
def ofEntries (index : Nat) (entries : List (Value × Value)) : Except WatchError Resource :=
  match header? entries with
  | none => .error (.manifestParse index .malformed)
  | some h =>
    if Text.blank h.apiVersion || Text.blank h.kind then .error (.manifestParse index .missingType)
    else .ok ⟨index, .ofApiVersion h.apiVersion h.kind, h.name, h.ns, h.annotations⟩

end Resource

end DependentWatch
