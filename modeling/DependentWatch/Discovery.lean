import DependentWatch.ScopeTable
/-! Scopes as a server tells them. What it told last is kept, and asked for again where a kind is
not in it. -/
namespace DependentWatch

/-- A resource as a server lists it. -/
structure ApiResource where
  name : String
  kind : String
  namespaced : Bool
deriving DecidableEq

structure ApiVersion where
  version : String
  resources : List ApiResource
deriving DecidableEq

/-- All that a server serves. The core group is the empty text. -/
structure ApiGroup where
  group : String
  versions : List ApiVersion
deriving DecidableEq

namespace ApiVersion

/-- A part of a resource, such as its log, has a slash in its name. -/
def isPart (r : ApiResource) : Bool := r.name.toList.contains '/'

/-- The scope of the first resource of a name holds for all of that name. -/
def scopeOf (v : ApiVersion) (name : String) : Scope :=
  match v.resources.find? (·.name = name) with
  | some r => if r.namespaced then .namespaced else .cluster
  | none => .cluster

/-- The kinds with their scopes. -/
def kinds (v : ApiVersion) : List (String × Scope) :=
  (v.resources.filter (!isPart ·)).map fun r => (r.kind, v.scopeOf r.name)

end ApiVersion

/-- How mature a version is. -/
inductive Maturity where
  | stable (major : Nat)
  | beta (major : Nat) (minor : Option Nat)
  | alpha (major : Nat) (minor : Option Nat)
  | other (text : String)
deriving DecidableEq

namespace Maturity

/-- Digits of a number of 32 bits. -/
def number? (cs : List Char) : Option Nat :=
  if cs.isEmpty || !cs.all Char.isDigit then none
  else some (cs.foldl (fun n c => n * 10 + (c.toNat - '0'.toNat)) 0) |>.filter (· < Nat.pow 2 32)

/-- A plus sign may stand before the digits. -/
def minor? (cs : List Char) : Option (Option Nat) :=
  match cs with
  | [] => some none
  | '+' :: cs => (number? cs).map some
  | cs => (number? cs).map some

def ofText? (s : String) : Option Maturity :=
  match s.toList with
  | 'v' :: cs => do
    let major ← number? (cs.takeWhile Char.isDigit)
    match cs.dropWhile Char.isDigit with
    | [] => some (stable major)
    | 'a' :: 'l' :: 'p' :: 'h' :: 'a' :: cs => (minor? cs).map (alpha major)
    | 'b' :: 'e' :: 't' :: 'a' :: cs => (minor? cs).map (beta major)
    | _ => none
  | _ => none

def ofText (s : String) : Maturity := (ofText? s).getD (other s)

/-- No number stands below every number. -/
def atLeast : Option Nat → Option Nat → Bool
  | _, none => true
  | none, some _ => false
  | some a, some b => b ≤ a

/-- Stable versions come before beta ones, these before alpha ones, and all of them before other
texts; higher numbers come first, and other texts by the alphabet. -/
def before : Maturity → Maturity → Bool
  | stable a, stable b => b ≤ a
  | stable _, _ => true
  | beta .., stable _ => false
  | beta a m, beta b n => b < a || (a == b && atLeast m n)
  | beta .., _ => true
  | alpha a m, alpha b n => b < a || (a == b && atLeast m n)
  | alpha .., other _ => true
  | alpha .., _ => false
  | other a, other b => a ≤ b
  | other _, _ => false

end Maturity

/-- What a server told: by group, the versions in order with their kinds. -/
structure Snapshot where
  groups : List (String × List (String × List (String × Scope)))
deriving DecidableEq

namespace Snapshot

/-- No group may be without a version, and the core group must be there. -/
def ofApi? (api : List ApiGroup) : Option Snapshot :=
  if api.any (·.versions.isEmpty) || !api.any (·.group = "") then none
  else some ⟨api.map fun g =>
    let versions := g.versions.map fun v => (v.version, v.kinds)
    (g.group, versions.mergeSort fun a b => (Maturity.ofText a.1).before (.ofText b.1))⟩

def versionsOf (s : Snapshot) (group : String) : List (String × List (String × Scope)) :=
  (s.groups.lookup group).getD []

/-- The scope of a kind in its version. -/
def scope? (s : Snapshot) (k : GroupVersionKind) : Option Scope := do
  (← (s.versionsOf k.group).lookup k.version).lookup k.kind

/-- The versions of a group that serve a kind. -/
def served (s : Snapshot) (group kind : String) : List String :=
  ((s.versionsOf group).filter fun v => v.2.any (·.1 = kind)).map (·.1)

def answer (s : Snapshot) (k : GroupVersionKind) : Except WatchError Scope :=
  match s.scope? k with
  | some scope => .ok scope
  | none => .error (kindNotFound k (s.served k.group k.kind))

/-- Asks a server for what it serves now. If that fails, the old answer is kept. -/
def refresh {σ : Type} (discover : σ → Option Snapshot × σ) (s : Snapshot) (server : σ) :
    Except WatchError Unit × Snapshot × σ :=
  match discover server with
  | (some s, server) => (.ok (), s, server)
  | (none, server) => (.error (.api ""), s, server)

/-- The scope of a kind. The server is asked once if the kind is not known. -/
def resolve {σ : Type} (discover : σ → Option Snapshot × σ) (s : Snapshot) (server : σ)
    (k : GroupVersionKind) : Except WatchError Scope × Snapshot × σ :=
  match s.scope? k with
  | some scope => (.ok scope, s, server)
  | none =>
    match s.refresh discover server with
    | (.ok (), s, server) => (s.answer k, s, server)
    | (.error e, s, server) => (.error e, s, server)

end Snapshot

/-- A server that serves some groups, or fails, and counts the lists of groups it gave. -/
structure ApiServer where
  api : List ApiGroup
  failing : Bool
  groupLists : Nat
deriving DecidableEq

def ApiServer.discover (server : ApiServer) : Option Snapshot × ApiServer :=
  if server.failing then (none, server)
  else (Snapshot.ofApi? server.api, { server with groupLists := server.groupLists + 1 })

end DependentWatch
