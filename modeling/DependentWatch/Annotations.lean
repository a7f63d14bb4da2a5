import DependentWatch.Text
import DependentWatch.TextMap
/-! The annotations that carry a resource's policy and the owner it belongs to. -/
namespace DependentWatch.Annotations

def resourcePolicy : String := "sherpack.io/resource-policy"
def helmResourcePolicy : String := "helm.sh/resource-policy"
/-- `namespace/name`, or `name`, of the owner. -/
def primaryResource : String := "sherpack.io/primary-resource"
/-- `Kind.group` of the owner. -/
def primaryResourceType : String := "sherpack.io/primary-resource-type"

/-- The value of the first key, and of the second where the first is missing. -/
def either? (annotations : TextMap) (first second : String) : Option String :=
  (annotations.get? first).or (annotations.get? second)

/-- A retained resource outlives its owner. -/
def retained (annotations : TextMap) : Bool :=
  (either? annotations resourcePolicy helmResourcePolicy).any fun policy =>
    Text.trim policy == "keep"

/-- A namespace and a name, cut at the first slash; an empty namespace is none. -/
def ofText? (value : String) : Option (Option String × String) :=
  let cs := Text.trimList value.toList
  let (ns, name) :=
    match Text.cutFirst '/' cs with
    | some ([], name) => (none, name)
    | some (ns, name) => (some (String.ofList ns), name)
    | none => (none, cs)
  if name.isEmpty then none else some (ns, .ofList name)

def primary? (annotations : TextMap) : Option (Option String × String) :=
  (annotations.get? primaryResource).bind ofText?

end DependentWatch.Annotations
