import DependentWatch.Yaml.Token
/-! The nodes of a YAML document. -/
namespace DependentWatch.Yaml

/-- Anchors are numbers; an alias stands for the last node with its number. -/
inductive Node where
  | scalar (anchor : Option Nat) (tag : Option String) (style : Style) (text : String)
  | sequence (anchor : Option Nat) (tag : Option String) (items : List Node)
  | mapping (anchor : Option Nat) (tag : Option String) (entries : List (Node × Node))
  | reference (anchor : Nat)

namespace Node

def empty : Node := scalar none none .plain ""

instance : Inhabited Node := ⟨empty⟩

mutual
/-- The nodes with an anchor, in the order in which they start. -/
def anchored : Node → List (Nat × Node)
  | scalar anchor tag style text =>
    anchor.toList.map fun a => (a, scalar anchor tag style text)
  | sequence anchor tag items =>
    anchor.toList.map (fun a => (a, sequence anchor tag items)) ++ anchoredItems items
  | mapping anchor tag entries =>
    anchor.toList.map (fun a => (a, mapping anchor tag entries)) ++ anchoredEntries entries
  | reference _ => []
def anchoredItems : List Node → List (Nat × Node)
  | [] => []
  | n :: ns => anchored n ++ anchoredItems ns
def anchoredEntries : List (Node × Node) → List (Nat × Node)
  | [] => []
  | (k, v) :: es => anchored k ++ (anchored v ++ anchoredEntries es)
end

mutual
/-- One for a scalar and an alias, two for a collection. -/
def size : Node → Nat
  | scalar .. | reference _ => 1
  | sequence _ _ items => 2 + sizeItems items
  | mapping _ _ entries => 2 + sizeEntries entries
def sizeItems : List Node → Nat
  | [] => 0
  | n :: ns => size n + sizeItems ns
def sizeEntries : List (Node × Node) → Nat
  | [] => 0
  | (k, v) :: es => size k + size v + sizeEntries es
end

end Node
end DependentWatch.Yaml
