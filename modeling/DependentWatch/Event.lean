import DependentWatch.Owner
/-! Events of dependents, the requests they lead to, and the filters before that. -/
namespace DependentWatch

inductive Event where
  | create (object : Object)
  | update (old new : Object)
  | delete (object : Object)
  /-- An event from outside of the watch. -/
  | generic (object : Object)
deriving DecidableEq

namespace Event

def objects : Event → List Object
  | create o | delete o | generic o => [o]
  | update old new => [old, new]

def name : Event → String
  | create _ => "create"
  | update .. => "update"
  | delete _ => "delete"
  | generic _ => "generic"

end Event

/-- A request to reconcile one owner. -/
structure Request where
  ns : Option String
  name : String
deriving DecidableEq, Inhabited

namespace Request

def text (r : Request) : String := namespacedName r.ns r.name

/-- No namespace stands before every namespace; then the name decides. -/
def before (a b : Request) : Bool :=
  match a.ns, b.ns with
  | none, some _ => true
  | some _, none => false
  | none, none => a.name < b.name
  | some m, some n => m < n || (m == n && a.name < b.name)

/-- Puts a request at its place in a list in order, once. -/
def insert (r : Request) : List Request → List Request
  | [] => [r]
  | s :: rs => if r.before s then r :: s :: rs else if r = s then s :: rs else s :: r.insert rs

def sorted (rs : List Request) : List Request := rs.foldr insert []

end Request

inductive Filter where
  /-- Drops updates that change no more than the status and the server's bookkeeping. -/
  | dependentChanges
  /-- Passes events of objects that carry all of these labels. -/
  | matchLabels (labels : TextMap)
deriving DecidableEq

namespace Filter

def allows : Filter → Event → Bool
  | dependentChanges, .update old new => old.significant ≠ new.significant
  | dependentChanges, _ => true
  | matchLabels labels, e => e.objects.any (·.hasLabels labels)

def allowsAll (filters : List Filter) (e : Event) : Bool := filters.all (·.allows e)

/-- The labels of all the filters; where two disagree on a key, the later one has it. -/
def labels (filters : List Filter) : TextMap :=
  .ofList (filters.flatMap fun
    | matchLabels labels => labels.entries
    | dependentChanges => [])

/-- The labels as the server reads them, `key=value` joined by commas; no text without a label. -/
def selector? (filters : List Filter) : Option String :=
  let pairs := (labels filters).entries
  if pairs.isEmpty then none else some (",".intercalate (pairs.map fun (k, v) => k ++ "=" ++ v))

end Filter
end DependentWatch
