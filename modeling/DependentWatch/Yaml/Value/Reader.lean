import DependentWatch.Yaml.Document
import DependentWatch.Yaml.Plain
/-! What nodes mean. Aliases stand for what they lead to. -/
namespace DependentWatch.Yaml

/-- The name of a tag of one's own, which starts with an exclamation mark. -/
def ownTag? (tag : Option String) : Option String := do
  match (← tag).toList with
  | '!' :: '!' :: c :: cs => some (.ofList (c :: cs))
  | '!' :: cs => some (.ofList cs)
  | _ => none

/-- What a scalar means. The tags of the standard ask for a type; other ones make a text, and a
tag of one's own is kept. -/
def scalarValue? (tag : Option String) (style : Style) (text : String) : Option Value :=
  let untagged := if style = .plain then Plain.value? text else some (.str text)
  match tag with
  | none => untagged
  | some t =>
    match ownTag? tag with
    | some own => untagged.map (.tagged own)
    | none =>
      match t with
      | "tag:yaml.org,2002:bool" => (Plain.bool? text).map .bool
      | "tag:yaml.org,2002:int" => (Plain.int? text).join
      | "tag:yaml.org,2002:float" => (Plain.float? text.toList).map .float
      | "tag:yaml.org,2002:null" => if Plain.isNull text then some .null else none
      | _ => some (.str text)

/-- A collection with its tag; only tags of one's own matter. -/
def withTag (tag : Option String) (v : Value) : Value :=
  match ownTag? tag with
  | none => v
  | some own => .tagged own v

/-- Nodes are decoded along the aliases, which are counted. -/
abbrev Decoder := StateT Nat Option

/-- Where the aliases of a document lead, and how many may be followed. -/
structure Links where
  targets : List (Nat × Node)
  limit : Nat

namespace Links

/-- So many collections may be nested. -/
def maxDepth : Nat := 128

def ofDocument (d : Document) : Links := ⟨d.root.anchored.reverse, 100 * d.root.size⟩

/-- The node that an alias stands for, and any other node itself. -/
def follow (l : Links) : Node → Decoder Node
  | .reference a => do
    if l.limit ≤ (← get) then failure
    modify (· + 1)
    l.targets.lookup a
  | n => return n

/-- Decodes a node with so many collections to be opened. -/
def value (l : Links) (depth : Nat) (n : Node) : Decoder Value := do
  match ← l.follow n with
  | .scalar _ tag style text => scalarValue? tag style text
  | .sequence _ tag items =>
    match depth with
    | 0 => failure
    | depth + 1 => return withTag tag (.sequence (← items.mapM (l.value depth)))
  | .mapping _ tag entries =>
    match depth with
    | 0 => failure
    | depth + 1 =>
      let entries ← entries.mapM fun (k, v) => do
        return (← l.value depth k, ← l.value depth v)
      if Value.hasDuplicate entries then failure
      return withTag tag (.mapping entries)
  | .reference _ => failure

end Links

def Document.value? (d : Document) : Option Value :=
  ((Links.ofDocument d).value Links.maxDepth d.root).run' 0

end DependentWatch.Yaml
