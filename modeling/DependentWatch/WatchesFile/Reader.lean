import DependentWatch.Duration.Text
import DependentWatch.WatchesFile
import DependentWatch.Yaml.Value.Reader
/-! Reading watches files. The fields are taken from the nodes as they are written: a text is that
of any scalar, and fields that are not known are skipped. -/
namespace DependentWatch
open Yaml (Node Links Decoder)

namespace Yaml.Links

/-- A collection that is left empty. -/
def isNothing : Node → Bool
  | .scalar _ _ style text => style = .plain && text.isEmpty
  | _ => false

def text (l : Links) (n : Node) : Decoder String := do
  match ← l.follow n with
  | .scalar _ _ _ text => return text
  | _ => failure

/-- A block with the lines of a flag needs the tag of flags. -/
def flag (l : Links) (n : Node) : Decoder Bool := do
  match ← l.follow n with
  | .scalar _ tag style text =>
    if style = .plain ∨ (style = .literal ∧ tag = some "tag:yaml.org,2002:bool") then
      Plain.bool? text
    else failure
  | _ => failure

/-- The items of a sequence, with so many collections to be opened. -/
def items (l : Links) (depth : Nat) (n : Node) : Decoder (List Node) := do
  let n ← l.follow n
  match n with
  | .sequence _ _ items => if depth = 0 then failure else return items
  | n => if isNothing n then return [] else failure

def entries (l : Links) (depth : Nat) (n : Node) : Decoder (List (Node × Node)) := do
  match ← l.follow n with
  | .mapping _ _ entries => if depth = 0 then failure else return entries
  | n => if isNothing n then return [] else failure

/-- The entries by name. None of these names has two entries. -/
def fields (l : Links) (depth : Nat) (names : List String) (n : Node) :
    Decoder (List (String × Node)) := do
  let fields ← (← l.entries depth n).mapM fun (k, v) => do return (← l.text k, v)
  if names.any fun name => 1 < (fields.filter (·.1 = name)).length then failure
  return fields

def duration (l : Links) (n : Node) : Decoder Duration := do Duration.ofText? (← l.text n)

end Yaml.Links

/-- A field that may be missing. -/
def Yaml.Decoder.fieldOr {α : Type} (default : α) (read : Node → Decoder α) (n : Option Node) :
    Decoder α :=
  match n with
  | none => return default
  | some n => read n

def TextMap.ofNode (l : Links) (depth : Nat) (n : Node) : Decoder TextMap := do
  return .ofList (← (← l.entries depth n).mapM fun (k, v) => do return (← l.text k, ← l.text v))

def Backoff.ofNode (l : Links) (depth : Nat) (n : Node) : Decoder Backoff := do
  let fields ← l.fields depth ["baseDelay", "maxDelay"] n
  let base ← Decoder.fieldOr default.base l.duration (fields.lookup "baseDelay")
  let max ← Decoder.fieldOr default.max l.duration (fields.lookup "maxDelay")
  return ⟨base, max⟩

def Watch.ofNode (l : Links) (depth : Nat) (n : Node) : Decoder Watch := do
  let fields ← l.fields depth
    ["group", "version", "kind", "watchDependentResources", "selector", "backoff"] n
  let group ← Decoder.fieldOr "" l.text (fields.lookup "group")
  let version ← l.text (← fields.lookup "version")
  let kind ← l.text (← fields.lookup "kind")
  let watchDependents ← Decoder.fieldOr true l.flag (fields.lookup "watchDependentResources")
  let selector ← Decoder.fieldOr .empty (TextMap.ofNode l (depth - 1)) (fields.lookup "selector")
  let backoff ← Decoder.fieldOr .default (Backoff.ofNode l (depth - 1)) (fields.lookup "backoff")
  return ⟨⟨group, version, kind⟩, watchDependents, selector, backoff⟩

namespace WatchesFile

def ofNode (l : Links) (depth : Nat) (n : Node) : Decoder WatchesFile := do
  return ⟨← (← l.items depth n).mapM (Watch.ofNode l (depth - 1))⟩

def ofDocument? (d : Yaml.Document) : Option WatchesFile :=
  let l := Links.ofDocument d
  (ofNode l Links.maxDepth d.root).run' 0

/-- The file of a text with one document, if nothing is wrong with it. -/
def ofText (text : String) : Except WatchError WatchesFile :=
  match (Yaml.Document.single? text).bind ofDocument? with
  | none => .error (.serialization "")
  | some f =>
    match f.fault? with
    | none => .ok f
    | some fault => .error (.invalidConfig fault)

/-- The file of these bytes; there may be no file. -/
def ofBytes (bytes : Option ByteArray) : Except WatchError WatchesFile :=
  match bytes.bind String.fromUTF8? with
  | some text => ofText text
  | none => .error (.io "")

end WatchesFile
end DependentWatch
