import DependentWatch.Handler
import DependentWatch.Manifest
import DependentWatch.Registration
/-! One pass over the resources of a manifest, which registers their kinds for an owner kind. A
pass stops at every question to the scopes and to the registry. -/
namespace DependentWatch

structure Subscription where
  kind : GroupVersionKind
  handler : Handler
  filters : List Filter
deriving DecidableEq

/-- What a pass is to do. -/
structure Registration where
  owner : GroupVersionKind
  filters : List Filter
  manifest : Manifest
deriving DecidableEq

/-- How far a pass is: it waits for its turn, asks for the scope of the owner, asks for that of the
resource, is about to subscribe, has asked for the subscription, or is at its end. -/
inductive Pass where
  | waiting
  | askOwner (r : Resource) (rest : List Resource)
  | askDependent (owner : Scope) (r : Resource) (rest : List Resource)
  | subscribe (s : Subscription) (rest : List Resource)
  | subscribing (s : Subscription) (rest : List Resource)
  | finished (result : Except WatchError Unit)

namespace Registration

/-- Goes on to the next resource whose kind is not registered. Behind the last one comes the error
of the manifest. -/
def seek (g : Registration) (set : KindSet) : List Resource → Pass
  | [] =>
    .finished (match g.manifest.error with
      | none => .ok ()
      | some e => .error e)
  | r :: rest => if r.gvk ∈ set then g.seek set rest else .askOwner r rest

def start (g : Registration) (set : KindSet) : Pass := g.seek set g.manifest.resources

def subscription (g : Registration) (owner dependent : Scope) (r : Resource) : Subscription :=
  ⟨r.gvk, .forOwner (.select owner dependent r.retained) g.owner owner, g.filters⟩

/-- The kind whose scope a pass asks for. -/
def asked? (g : Registration) : Pass → Option GroupVersionKind
  | .askOwner .. => some g.owner
  | .askDependent _ r _ => some r.gvk
  | _ => none

/-- Goes on with a scope. -/
def onScope (g : Registration) (answer : Except WatchError Scope) : Pass → Pass
  | .askOwner r rest =>
    match answer with
    | .ok owner => .askDependent owner r rest
    | .error e => .finished (.error e)
  | .askDependent owner r rest =>
    match answer with
    | .ok dependent => .subscribe (g.subscription owner dependent r) rest
    | .error e => .finished (.error e)
  | p => p

/-- Goes on with the answer of the registry. A kind is registered when its subscription is made. -/
def onSubscribed (g : Registration) (set : KindSet) (answer : Except WatchError Unit) :
    Pass → Pass × KindSet
  | .subscribing s rest =>
    match answer with
    | .ok () => (g.seek (set.insert s.kind) rest, set.insert s.kind)
    | .error e => (.finished (.error e), set)
  | p => (p, set)

end Registration
end DependentWatch
