import DependentWatch.Resource
import DependentWatch.Yaml.Value.Reader
/-! Manifests: the resources that a release creates, document by document. A `List` stands for its
items. The first document that is no resource ends the manifest. -/
namespace DependentWatch
open Yaml (Value)

/-- What the reading of a document gives: its value, unless it has an error. -/
abbrev DocumentResult := Option Value

namespace DocumentResult

/-- The value of the entry whose key is this text, without a tag. -/
def valueAt? (name : String) (entries : List (Value × Value)) : Option Value :=
  (entries.find? fun e => e.1.same (.str name)).map (·.2)

def isList (entries : List (Value × Value)) : Bool :=
  ((valueAt? "kind" entries).bind Resource.text?) == some "List"

/-- A `List` among the items is refused. -/
def item (index : Nat) (v : Value) : Except WatchError Resource :=
  match v.untagged with
  | .mapping entries =>
    if isList entries then .error (.nestedList index) else Resource.ofEntries index entries
  | _ => .error (.invalidList index .itemNotMapping)

def items (index : Nat) (entries : List (Value × Value)) : Except WatchError (List Resource) :=
  match valueAt? "items" entries with
  | some (.sequence vs) => vs.mapM (item index)
  | none | some .null => .error (.invalidList index .missingItems)
  | some _ => .error (.invalidList index .itemsNotSequence)

/-- The resources of the document at a place. -/
def resources (index : Nat) : DocumentResult → Except WatchError (List Resource)
  | none => .error (.manifestParse index .malformed)
  | some .null => .ok []
  | some (.mapping entries) =>
    if isList entries then items index entries
    else (Resource.ofEntries index entries).map fun r => [r]
  | some _ => .error (.manifestParse index .notMapping)

/-- The documents of a text. -/
def ofText (text : String) : List DocumentResult :=
  (Yaml.Document.ofText text).map fun d => d.bind Yaml.Document.value?

end DocumentResult

/-- The resources before the first error, and that error. -/
structure Manifest where
  resources : List Resource
  error : Option WatchError
deriving DecidableEq

namespace Manifest

/-- The manifest of the documents that start at a place. -/
def ofDocuments (index : Nat) : List DocumentResult → Manifest
  | [] => ⟨[], none⟩
  | d :: ds =>
    match d.resources index with
    | .error e => ⟨[], some e⟩
    | .ok rs =>
      let rest := ofDocuments (index + 1) ds
      ⟨rs ++ rest.resources, rest.error⟩

def ofText (text : String) : Manifest := ofDocuments 0 (DocumentResult.ofText text)

/-- All the resources, or the error. -/
def result (m : Manifest) : Except WatchError (List Resource) :=
  match m.error with
  | none => .ok m.resources
  | some e => .error e

end Manifest

end DependentWatch
