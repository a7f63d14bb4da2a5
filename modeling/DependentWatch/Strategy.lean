/-! Where a kind lives, and how the events of a dependent are led back to its owner. -/
namespace DependentWatch

inductive Scope where
  | namespaced
  | cluster
deriving DecidableEq, Inhabited

def Scope.text : Scope → String
  | .namespaced => "Namespaced"
  | .cluster => "Cluster"

inductive Strategy where
  | ownerReference
  | annotations
deriving DecidableEq, Inhabited

namespace Strategy

def text : Strategy → String
  | .ownerReference => "owner-reference"
  | .annotations => "annotation"

/-- The cluster refuses a reference from a cluster-wide dependent to an owner in a namespace. -/
def referable (owner dependent : Scope) : Bool :=
  owner = .cluster || dependent = .namespaced

/-- A retained dependent carries no reference either: it would be collected with its owner. -/
def select (owner dependent : Scope) (retained : Bool) : Strategy :=
  if retained || !referable owner dependent then .annotations else .ownerReference

end Strategy
end DependentWatch
