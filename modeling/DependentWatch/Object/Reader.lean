import DependentWatch.Object
/-! Reading objects from JSON. A known field of the metadata has its form or is null, which means
absent; unknown fields of the metadata are left out. -/
namespace DependentWatch

namespace Json

def text? : Json → Option String
  | .str s => some s
  | _ => none

def flag? : Json → Option Bool
  | .bool b => some b
  | _ => none

def list? : Json → Option (List Json)
  | .arr items => some items
  | _ => none

/-- An integer of 64 bits with sign. -/
def int64? : Json → Option Int
  | .int n => if -Int.pow 2 63 ≤ n ∧ n < Int.pow 2 63 then some n else none
  | _ => none

def texts? (j : Json) : Option (List String) := do (← j.list?).mapM text?

def textMap? : Json → Option TextMap
  | .obj fields => do
    return .ofList (← fields.mapM fun (k, v) => do return (k, ← v.text?))
  | _ => none

def timestamp? (j : Json) : Option Timestamp := do Timestamp.ofText? (← j.text?)

/-- Nothing where the field is missing or null, else what `read` makes of it. -/
def optional {α : Type} (j : Json) (name : String) (read : Json → Option α) : Option (Option α) :=
  match j.field? name with
  | none | some .null => some none
  | some v => (read v).map some

/-- An entry of the bookkeeping: an object in which some fields have their form. -/
def managedField? (j : Json) : Option Json := do
  let .obj _ := j | none
  let names := ["apiVersion", "fieldsType", "manager", "operation", "subresource"]
  let _ ← names.mapM fun name => j.optional name text?
  let _ ← j.optional "time" timestamp?
  return j

end Json

def OwnerReference.ofJson? : Json → Option OwnerReference
  | j@(.obj _) => do
    return {
      apiVersion := (← j.optional "apiVersion" Json.text?).getD ""
      kind := (← j.optional "kind" Json.text?).getD ""
      name := (← j.optional "name" Json.text?).getD ""
      uid := (← j.optional "uid" Json.text?).getD ""
      controller := ← j.optional "controller" Json.flag?
      blockOwnerDeletion := ← j.optional "blockOwnerDeletion" Json.flag? }
  | _ => none

def ObjectMeta.ofJson? : Json → Option ObjectMeta
  | j@(.obj _) => do
    return {
      annotations := ← j.optional "annotations" Json.textMap?
      creationTimestamp := ← j.optional "creationTimestamp" Json.timestamp?
      deletionGracePeriodSeconds := ← j.optional "deletionGracePeriodSeconds" Json.int64?
      deletionTimestamp := ← j.optional "deletionTimestamp" Json.timestamp?
      finalizers := ← j.optional "finalizers" Json.texts?
      generateName := ← j.optional "generateName" Json.text?
      generation := ← j.optional "generation" Json.int64?
      labels := ← j.optional "labels" Json.textMap?
      managedFields := ← j.optional "managedFields"
        fun v => do (← v.list?).mapM Json.managedField?
      name := ← j.optional "name" Json.text?
      ns := ← j.optional "namespace" Json.text?
      ownerReferences := ← j.optional "ownerReferences"
        fun v => do (← v.list?).mapM OwnerReference.ofJson?
      resourceVersion := ← j.optional "resourceVersion" Json.text?
      selfLink := ← j.optional "selfLink" Json.text?
      uid := ← j.optional "uid" Json.text? }
  | _ => none

namespace Object

/-- An object has its type only where `apiVersion` and `kind` are both texts. -/
def types? (fields : List (String × Json)) : Option TypeMeta :=
  match fields.lookup "apiVersion", fields.lookup "kind" with
  | some (.str apiVersion), some (.str kind) => some ⟨apiVersion, kind⟩
  | _, _ => none

/-- The fields that are left when those of the type are taken out, one after the other. The first of
them that is no text ends this, and what stands behind it is left. -/
def behindTypes : List (String × Json) → List (String × Json)
  | [] => []
  | (k, v) :: fields =>
    if k = "apiVersion" ∨ k = "kind" then
      match v with
      | .str _ => behindTypes fields
      | _ => fields
    else (k, v) :: behindTypes fields

def ofJson? : Json → Option Object
  | j@(.obj fields) => do
    let metadata ←
      match j.field? "metadata" with
      | none => some ObjectMeta.empty
      | some v => ObjectMeta.ofJson? v
    return {
      types := types? fields, metadata
      other := (behindTypes fields).filter (·.1 ≠ "metadata") }
  | _ => none

end Object
end DependentWatch
