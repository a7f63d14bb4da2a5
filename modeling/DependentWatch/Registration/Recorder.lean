import DependentWatch.Registration.Registrar
import DependentWatch.ScopeTable
/-! A registry that records what it is asked for, and refuses some kinds. -/
namespace DependentWatch

/-- The subscriptions in the order in which they were made, all the calls for one, and the kinds
that are refused, with the reason. -/
structure Recorder where
  subscriptions : List Subscription
  calls : Nat
  refused : List (GroupVersionKind × String)

namespace Recorder

def empty : Recorder := ⟨[], 0, []⟩

def refuse (r : Recorder) (k : GroupVersionKind) (reason : String) : Recorder :=
  { r with refused := (k, reason) :: r.refused.filter (·.1 ≠ k) }

def accept (r : Recorder) (k : GroupVersionKind) : Recorder :=
  { r with refused := r.refused.filter (·.1 ≠ k) }

def call (r : Recorder) : Recorder := { r with calls := r.calls + 1 }

def answer (r : Recorder) (s : Subscription) : Except WatchError Unit × Recorder :=
  match r.refused.lookup s.kind with
  | some reason => (.error (.subscription s.kind.label reason), r)
  | none => (.ok (), { r with subscriptions := r.subscriptions ++ [s] })

def subscriptionsFor (r : Recorder) (k : GroupVersionKind) : List Subscription :=
  r.subscriptions.filter (·.kind = k)

end Recorder

/-- Scopes from a table, and subscriptions with a recorder. -/
def Backend.recording : Backend (ScopeTable × Recorder) where
  scope := fun (t, r) k =>
    let (answer, t) := t.resolve k
    (answer, t, r)
  call := fun (t, r) _ => (t, r.call)
  answer := fun (t, r) s =>
    let (answer, r) := r.answer s
    (answer, t, r)

end DependentWatch
