import DependentWatch.Error
import DependentWatch.Kind
import DependentWatch.Strategy
/-! Scopes by kind from a fixed table. -/
namespace DependentWatch

/-- The requested version stands behind those that are served, once. -/
def kindNotFound (k : GroupVersionKind) (served : List String) : WatchError :=
  .kindNotFound k.group k.kind (if k.version ∈ served then served else served ++ [k.version])

/-- The registrations in order, and how often the table was asked. -/
structure ScopeTable where
  kinds : List (GroupVersionKind × Scope)
  lookups : Nat

namespace ScopeTable

def empty : ScopeTable := ⟨[], 0⟩

def add (t : ScopeTable) (k : GroupVersionKind) (s : Scope) : ScopeTable :=
  { t with kinds := t.kinds ++ [(k, s)] }

def namespaced (t : ScopeTable) (group version kind : String) : ScopeTable :=
  t.add ⟨group, version, kind⟩ .namespaced

def cluster (t : ScopeTable) (group version kind : String) : ScopeTable :=
  t.add ⟨group, version, kind⟩ .cluster

/-- The scope that was registered last. -/
def scope? (t : ScopeTable) (k : GroupVersionKind) : Option Scope :=
  (t.kinds.reverse.find? (·.1 = k)).map (·.2)

/-- Puts a version at its place in a list in order, once. -/
def insertVersion (v : String) : List String → List String
  | [] => [v]
  | w :: ws => if v < w then v :: w :: ws else if v = w then w :: ws else w :: insertVersion v ws

/-- The versions in which a kind is registered, in order. -/
def versions (t : ScopeTable) (group kind : String) : List String :=
  ((t.kinds.filter fun e => e.1.group = group ∧ e.1.kind = kind).map (·.1.version)).foldr
    insertVersion []

def answer (t : ScopeTable) (k : GroupVersionKind) : Except WatchError Scope :=
  match t.scope? k with
  | some s => .ok s
  | none => .error (kindNotFound k (t.versions k.group k.kind))

def resolve (t : ScopeTable) (k : GroupVersionKind) : Except WatchError Scope × ScopeTable :=
  (t.answer k, { t with lookups := t.lookups + 1 })

/-- The common kinds that every cluster has. -/
def builtins : ScopeTable :=
  let namespaced := [
    ("", "ConfigMap"), ("", "Secret"), ("", "Service"), ("", "ServiceAccount"),
    ("", "PersistentVolumeClaim"), ("apps", "Deployment"), ("apps", "ReplicaSet"),
    ("apps", "StatefulSet"), ("apps", "DaemonSet"), ("batch", "Job"), ("batch", "CronJob"),
    ("networking.k8s.io", "Ingress"), ("rbac.authorization.k8s.io", "Role"),
    ("rbac.authorization.k8s.io", "RoleBinding")]
  let cluster := [
    ("", "Namespace"), ("", "PersistentVolume"), ("rbac.authorization.k8s.io", "ClusterRole"),
    ("rbac.authorization.k8s.io", "ClusterRoleBinding"),
    ("apiextensions.k8s.io", "CustomResourceDefinition")]
  let entry (s : Scope) (k : String × String) : GroupVersionKind × Scope := (⟨k.1, "v1", k.2⟩, s)
  ⟨namespaced.map (entry .namespaced) ++ cluster.map (entry .cluster), 0⟩

end ScopeTable
end DependentWatch
