import DependentWatch.Manifest
/-! Reading a manifest one resource at a time. -/
namespace DependentWatch

/-- `ready` holds the rest of a `List`. A reader that has `failed` leaves its documents alone. -/
structure ManifestReader where
  index : Nat
  ready : List Resource
  failed : Bool
  documents : List DocumentResult

namespace ManifestReader

def start (documents : List DocumentResult) : ManifestReader := ⟨0, [], false, documents⟩

/-- The first resource or error of the documents from a place on. -/
def nextOf (index : Nat) :
    List DocumentResult → Option (Except WatchError Resource) × ManifestReader
  | [] => (none, ⟨index, [], false, []⟩)
  | d :: ds =>
    match d.resources index with
    | .error e => (some (.error e), ⟨index + 1, [], true, ds⟩)
    | .ok [] => nextOf (index + 1) ds
    | .ok (r :: rs) => (some (.ok r), ⟨index + 1, rs, false, ds⟩)

def next (m : ManifestReader) : Option (Except WatchError Resource) × ManifestReader :=
  match m.ready with
  | r :: rs => (some (.ok r), { m with ready := rs })
  | [] => if m.failed then (none, m) else nextOf m.index m.documents

/-- The answers of so many calls. -/
def take : Nat → ManifestReader → List (Option (Except WatchError Resource))
  | 0, _ => []
  | n + 1, m =>
    let (answer, m) := m.next
    answer :: take n m

end ManifestReader
end DependentWatch
