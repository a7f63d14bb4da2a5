import DependentWatch.Event
/-! The objects of a watch as they were last seen, which tell new objects from changed ones. -/
namespace DependentWatch

/-- What a watch says: a list of all objects starts, goes on, or ends; an object has changed, or
has gone. -/
inductive Notice where
  | listStart
  | listed (o : Object)
  | listEnd
  | applied (o : Object)
  | deleted (o : Object)
deriving DecidableEq

/-- A namespace and a name. -/
abbrev ObjectKey := Option String × String

/-- `seen` holds the keys of a list that has started and not ended. -/
structure ObjectCache where
  objects : List (ObjectKey × Object)
  seen : Option (List ObjectKey)
deriving DecidableEq

namespace ObjectCache

def empty : ObjectCache := ⟨[], none⟩

def get? (c : ObjectCache) (k : ObjectKey) : Option Object := c.objects.lookup k

def put (c : ObjectCache) (k : ObjectKey) (o : Object) : ObjectCache :=
  { c with objects := (k, o) :: c.objects.filter (·.1 ≠ k) }

def remove (c : ObjectCache) (k : ObjectKey) : ObjectCache :=
  { c with objects := c.objects.filter (·.1 ≠ k) }

/-- An object without a name is not kept. -/
def apply (c : ObjectCache) (o : Object) : Event × ObjectCache :=
  match o.key? with
  | none => (.generic o, c)
  | some k =>
    match c.get? k with
    | some old => (.update old o, c.put k o)
    | none => (.create o, c.put k o)

/-- The events of a notice. At the end of a list the objects that were not listed are gone. -/
def observe (c : ObjectCache) : Notice → List Event × ObjectCache
  | .listStart => ([], { c with seen := some [] })
  | .listed o =>
    let seen := c.seen.map fun keys => o.key?.toList ++ keys
    let (e, c) := { c with seen }.apply o
    ([e], c)
  | .listEnd =>
    match c.seen with
    | none => ([], c)
    | some keys =>
      let (kept, gone) := c.objects.partition (·.1 ∈ keys)
      (gone.map fun g => .delete g.2, ⟨kept, none⟩)
  | .applied o =>
    let (e, c) := c.apply o
    ([e], c)
  | .deleted o =>
    ([.delete o], match o.key? with
      | some k => c.remove k
      | none => c)

/-- The events of notices one after the other. -/
def observeAll (c : ObjectCache) : List Notice → List Event × ObjectCache
  | [] => ([], c)
  | n :: ns =>
    let (es, c) := c.observe n
    let (rest, c) := c.observeAll ns
    (es ++ rest, c)

end ObjectCache

/-- A whole list as a watch tells it. -/
def Notice.list (os : List Object) : List Notice :=
  .listStart :: (os.map .listed ++ [.listEnd])

end DependentWatch
