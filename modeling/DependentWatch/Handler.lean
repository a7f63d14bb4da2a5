import DependentWatch.Event
import DependentWatch.Strategy
/-! Handlers, which lead the events of a dependent kind back to its owners. -/
namespace DependentWatch

inductive Handler where
  /-- Follows the reference of the controller. -/
  | ownerReference (group kind : String) (owner : Scope)
  /-- Follows the annotations. -/
  | annotations (ownerType : String)
deriving DecidableEq

namespace Handler

def forOwner (s : Strategy) (owner : GroupVersionKind) (scope : Scope) : Handler :=
  match s with
  | .ownerReference => .ownerReference owner.group owner.kind scope
  | .annotations => .annotations owner.typeText

def strategy : Handler → Strategy
  | ownerReference .. => .ownerReference
  | annotations _ => .annotations

/-- A reference of the controller to an owner of this group and kind, in any version. -/
def refersTo (group kind : String) (r : OwnerReference) : Bool :=
  r.controller == some true && r.kind == kind
    && (GroupVersionKind.ofApiVersion r.apiVersion r.kind).group == group

/-- The owner that an object names. -/
def request? : Handler → Object → Option Request
  | ownerReference group kind scope, o => do
    let r ← (← o.metadata.ownerReferences).find? (refersTo group kind)
    return ⟨match scope with
      | .namespaced => o.metadata.ns
      | .cluster => none, r.name⟩
  | annotations ownerType, o => do
    let found ← o.metadata.annotations
    if found.get? Annotations.primaryResourceType ≠ some ownerType then none
    let (ns, name) ← Annotations.primary? found
    return ⟨ns, name⟩

/-- The owners to reconcile after an event, in order and each once. -/
def requests (h : Handler) (e : Event) : List Request :=
  Request.sorted (e.objects.filterMap h.request?)

end Handler

/-- What handlers put their requests into: how to add one, and how many retries it has. -/
structure Sink (σ : Type) where
  add : σ → Request → σ
  retryCount : σ → Request → Nat

namespace Sink
variable {σ : Type}

/-- Leaves out the requests that have a retry. -/
def skipRetried (s : Sink σ) : Sink σ where
  add q r := if 0 < s.retryCount q r then q else s.add q r
  retryCount := s.retryCount

/-- Adds the requests of an event one after the other. -/
def handle (s : Sink σ) (h : Handler) (e : Event) (q : σ) : σ := (h.requests e).foldl s.add q

end Sink
end DependentWatch
