import DependentWatch.Yaml.Node
/-! Reading nodes from tokens. -/
namespace DependentWatch.Yaml
namespace Node

/-- Where a node stands: inside brackets, in a block, or in a mapping, whose sequences need not be
indented. -/
inductive Place where
  | flow | block | mapped
deriving DecidableEq

/-- The tokens that are left, and the names of the anchors so far. -/
structure Reading where
  tokens : List Token
  anchors : List (String × Nat)

abbrev Reader := StateT Reading Option

namespace Reader

def peek : Reader Token := do (← get).tokens.head?

def skip : Reader Unit := modify fun r => { r with tokens := r.tokens.drop 1 }

def next : Reader Token := do
  let t ← peek
  skip
  return t

/-- A new anchor takes the number of the names that are known. -/
def place (name : String) : Reader Nat := do
  let r ← get
  let n := r.anchors.length
  set { r with anchors := (name, n) :: r.anchors.filter (·.1 ≠ name) }
  return n

def placed (name : String) : Reader Nat := do (← get).anchors.lookup name

/-- The tag that a handle and a suffix stand for. -/
def expand (handles : List (String × String)) (handle suffix : String) : Reader String :=
  if handle = "" then return suffix else do return (← handles.lookup handle) ++ suffix

def anchor? : Reader (Option String) := do
  match ← peek with
  | .anchor name => skip; return some name
  | _ => return none

def tag? (handles : List (String × String)) : Reader (Option String) := do
  match ← peek with
  | .tag handle suffix => skip; return some (← expand handles handle suffix)
  | _ => return none

/-- An anchor and a tag in any order. -/
def properties (handles : List (String × String)) : Reader (Option String × Option String) := do
  match ← anchor? with
  | some name => return (some name, ← tag? handles)
  | none =>
    let tag ← tag? handles
    return (← anchor?, tag)

/-- Reads the comma between two items. None stands before the first and the end. -/
def separator (first : Bool) (close : Token) : Reader Unit := do
  if !first && (← peek) ≠ close then
    if (← next) ≠ .flowEntry then failure

end Reader
open Reader

mutual
def readNode (handles : List (String × String)) : Nat → Place → Reader Node
  | 0, _ => failure
  | n + 1, p => do
    match ← peek with
    | .reference name => skip; return reference (← placed name)
    | _ =>
      let (name, tag) ← properties handles
      let t ← peek
      let anchor ← name.mapM place
      match t with
      | .scalar style text =>
        skip
        return scalar anchor (if tag = some "!" then none else tag) style text
      | .flowSequenceStart => skip; return sequence anchor tag (← readFlowItems handles n true [])
      | .flowMappingStart => skip; return mapping anchor tag (← readFlowEntries handles n true [])
      | _ =>
        if t = .blockSequenceStart ∧ p ≠ .flow then
          skip
          return sequence anchor tag (← readItems handles n [])
        else if t = .blockMappingStart ∧ p ≠ .flow then
          skip
          return mapping anchor tag (← readEntries handles n [])
        else if t = .blockEntry ∧ p = .mapped then
          return sequence anchor tag (← readMappedItems handles n [])
        else if anchor.isSome ∨ tag.isSome then return scalar anchor tag .plain ""
        else failure
/-- The items of a block sequence, after those already read in reverse. -/
def readItems (handles : List (String × String)) : Nat → List Node → Reader (List Node)
  | 0, _ => failure
  | n + 1, done => do
    match ← next with
    | .blockEntry =>
      let item ← readUnless handles n [.blockEntry, .blockEnd] .block
      readItems handles n (item :: done)
    | .blockEnd => return done.reverse
    | _ => failure
/-- The items of a sequence that is not indented. It ends before the first other token. -/
def readMappedItems (handles : List (String × String)) : Nat → List Node → Reader (List Node)
  | 0, _ => failure
  | n + 1, done => do
    match ← peek with
    | .blockEntry =>
      skip
      let item ← readUnless handles n [.blockEntry, .key, .value, .blockEnd] .block
      readMappedItems handles n (item :: done)
    | _ => return done.reverse
def readEntries (handles : List (String × String)) :
    Nat → List (Node × Node) → Reader (List (Node × Node))
  | 0, _ => failure
  | n + 1, done => do
    match ← next with
    | .key =>
      let k ← readUnless handles n [.key, .value, .blockEnd] .mapped
      let v ← readValue handles n [.key, .value, .blockEnd] .mapped
      readEntries handles n ((k, v) :: done)
    | .blockEnd => return done.reverse
    | _ => failure
def readFlowItems (handles : List (String × String)) :
    Nat → Bool → List Node → Reader (List Node)
  | 0, _, _ => failure
  | n + 1, first, done => do
    separator first .flowSequenceEnd
    match ← peek with
    | .flowSequenceEnd => skip; return done.reverse
    | .key =>
      skip
      let item ← readPair handles n
      readFlowItems handles n false (item :: done)
    | _ =>
      let item ← readNode handles n .flow
      readFlowItems handles n false (item :: done)
def readFlowEntries (handles : List (String × String)) :
    Nat → Bool → List (Node × Node) → Reader (List (Node × Node))
  | 0, _, _ => failure
  | n + 1, first, done => do
    separator first .flowMappingEnd
    match ← peek with
    | .flowMappingEnd => skip; return done.reverse
    | .key =>
      skip
      let k ← readUnless handles n [.value, .flowEntry, .flowMappingEnd] .flow
      let v ← readValue handles n [.flowEntry, .flowMappingEnd] .flow
      readFlowEntries handles n false ((k, v) :: done)
    | _ =>
      let k ← readNode handles n .flow
      readFlowEntries handles n false ((k, empty) :: done)
/-- A mapping of one entry without brackets. An empty key takes the token behind it away. -/
def readPair (handles : List (String × String)) : Nat → Reader Node
  | 0 => failure
  | n + 1 => do
    let k ←
      if [.value, .flowEntry, .flowSequenceEnd].contains (← peek) then skip; pure empty
      else readNode handles n .flow
    let v ← readValue handles n [.flowEntry, .flowSequenceEnd] .flow
    return mapping none none [(k, v)]
/-- The node behind a colon; empty if there is none. -/
def readValue (handles : List (String × String)) : Nat → List Token → Place → Reader Node
  | 0, _, _ => failure
  | n + 1, ends, p => do
    if (← peek) = .value then
      skip
      readUnless handles n ends p
    else return empty
/-- A node that is empty if one of these tokens stands in its place. -/
def readUnless (handles : List (String × String)) : Nat → List Token → Place → Reader Node
  | 0, _, _ => failure
  | n + 1, ends, p => do
    if ends.contains (← peek) then return empty else readNode handles n p
end

end Node
end DependentWatch.Yaml
