import DependentWatch.Text
/-! Kinds of resources and the texts that stand for them. -/
namespace DependentWatch

/-- The core group is the empty text. -/
structure GroupVersionKind where
  group : String
  version : String
  kind : String
deriving DecidableEq, Inhabited

namespace GroupVersionKind

/-- The group is what stands before the last slash of an `apiVersion`. -/
def ofApiVersion (apiVersion kind : String) : GroupVersionKind :=
  match Text.cutLast '/' apiVersion.toList with
  | some (group, version) => ⟨.ofList group, .ofList version, kind⟩
  | none => ⟨"", apiVersion, kind⟩

def apiVersion (k : GroupVersionKind) : String :=
  if k.group = "" then k.version else k.group ++ "/" ++ k.version

/-- The text for errors: `apps/v1/ReplicaSet`, and `v1/ConfigMap` in the core group. -/
def label (k : GroupVersionKind) : String := k.apiVersion ++ "/" ++ k.kind

/-- The text for annotations, which leaves the version out: `Deployment.apps`, `ConfigMap`. -/
def typeText (k : GroupVersionKind) : String :=
  if k.group = "" then k.kind else k.kind ++ "." ++ k.group

end GroupVersionKind
end DependentWatch
