import DependentWatch.Yaml.Node.Reader
import DependentWatch.Yaml.Token.Reader
/-! The documents of a text. -/
namespace DependentWatch.Yaml

/-- The directives in front of a document. -/
structure Directives where
  version : Bool
  handles : List (String × String)

/-- Reads the directives: one version at most, and each handle once. -/
def Directives.read (d : Directives) : List Token → Option (Directives × List Token)
  | .versionDirective major minor :: ts =>
    if d.version || major ≠ 1 || (minor ≠ 1 && minor ≠ 2) then none
    else { d with version := true }.read ts
  | .tagDirective handle lead :: ts =>
    if d.handles.any (·.1 = handle) then none
    else { d with handles := d.handles ++ [(handle, lead)] }.read ts
  | ts => some (d, ts)

def Directives.defaultHandles : List (String × String) :=
  [("!", "!"), ("!!", "tag:yaml.org,2002:")]

/-- A document is its root. -/
structure Document where
  root : Node

namespace Document

/-- Whether a token stands before or behind the content of a document. -/
def isBoundary : Token → Bool
  | .versionDirective .. | .tagDirective .. | .documentStart | .documentEnd | .streamEnd => true
  | _ => false

/-- Reads the content and the mark at its end. -/
def readContent (handles : List (String × String)) (ts : List Token) :
    Option (Document × List Token) := do
  let handles := handles ++ Directives.defaultHandles
  let read := Node.readNode handles (4 * ts.length + 4) .block
  let (root, r) ←
    if (ts.head?.any isBoundary) then some (Node.empty, ⟨ts, []⟩) else read.run ⟨ts, []⟩
  match r.tokens with
  | [] => none
  | .documentEnd :: ts => some (⟨root⟩, ts)
  | ts => some (⟨root⟩, ts)

/-- Reads the document in front. Only the first needs no mark at its start. -/
def read (first : Bool) (ts : List Token) : Option (Document × List Token) :=
  match ts with
  | [] => none
  | t :: _ =>
    if first && (t = .documentEnd || !isBoundary t) then
      if t = .documentEnd then none else readContent [] ts
    else do
      let (d, rest) ← Directives.read ⟨false, []⟩ ts
      match rest with
      | .documentStart :: rest => readContent d.handles rest
      | _ => none

/-- All the documents in order. The first that cannot be read is none, and the last. -/
def readAll : Nat → List Token → List (Option Document)
  | 0, _ => []
  | fuel + 1, ts =>
    match ts.dropWhile (· = .documentEnd) with
    | [.streamEnd] => []
    | ts =>
      match read false ts with
      | some (d, rest) => some d :: readAll fuel rest
      | none => [none]

/-- The documents of a text. An empty text is an empty document. -/
def ofText (text : String) : List (Option Document) :=
  match Token.ofText text with
  | [.streamEnd] => [some ⟨.empty⟩]
  | ts =>
    match read true ts with
    | some (d, rest) => some d :: readAll (rest.length + 1) rest
    | none => [none]

/-- The document of a text that has no more than that one. -/
def single? (text : String) : Option Document :=
  match ofText text with
  | [some d] => some d
  | _ => none

end Document
end DependentWatch.Yaml
