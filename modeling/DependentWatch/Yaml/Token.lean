import DependentWatch.Yaml.ScalarText
/-! The tokens of YAML, and how directives, anchors and tags are read. -/
namespace DependentWatch.Yaml

inductive Style where
  | plain
  /-- A block whose lines are kept. -/
  | literal
  /-- In quotes, or as a folded block. -/
  | quoted
deriving DecidableEq

inductive Token where
  | streamEnd
  | versionDirective (major minor : Nat)
  | tagDirective (handle lead : String)
  | documentStart | documentEnd
  | blockSequenceStart | blockMappingStart | blockEnd
  | flowSequenceStart | flowSequenceEnd | flowMappingStart | flowMappingEnd
  | blockEntry | flowEntry | key | value
  | reference (name : String)
  | anchor (name : String)
  | tag (handle suffix : String)
  | scalar (style : Style) (text : String)
deriving DecidableEq

namespace Token

def isWordChar (c : Char) : Bool := c.isAlphanum || c = '-' || c = '_'

/-- The name behind `&` or `*`. -/
def readName (cells : List Cell) : Option (String × List Cell) :=
  let (name, rest) := Cell.span isWordChar cells
  let c := Cell.charOf rest
  if !name.isEmpty && (isGap c || ['?', ':', ',', ']', '}', '%', '@', '`'].contains c) then
    some (.ofList name, rest)
  else none

/-- A word between exclamation marks, with both of them; the second may be missing. -/
def readHandle : List Cell → Option (List Char × List Cell)
  | ⟨'!', _⟩ :: cells =>
    let (word, rest) := Cell.span isWordChar cells
    match rest with
    | ⟨'!', _⟩ :: rest => some ('!' :: (word ++ ['!']), rest)
    | rest => some ('!' :: word, rest)
  | _ => none

def isUriChar (c : Char) : Bool :=
  isWordChar c || [';', '/', '?', ':', '@', '&', '=', '+', '$', '.', '!', '~', '*', '\'', '(',
    ')'].contains c

/-- How many more bytes belong to a character that starts with this byte, and its first bits. -/
def leadingByte? (b : Nat) : Option (Nat × Nat) :=
  if b < 0x80 then some (0, b)
  else if b < 0xC0 then none
  else if b < 0xE0 then some (1, b - 0xC0)
  else if b < 0xF0 then some (2, b - 0xE0)
  else if b < 0xF8 then some (3, b - 0xF0)
  else none

/-- Reads the characters of an address. Those written as bytes in hexadecimal digits are put
together; so many bytes are `missing` from the one with the bits `code`. -/
def readUri (bracketed : Bool) (missing code : Nat) (done : List Char) :
    List Cell → Option (List Char × List Cell)
  | ⟨'%', _⟩ :: a :: b :: cells => do
    let byte := (← Text.hexDigit? a.char) * 16 + (← Text.hexDigit? b.char)
    let (missing, code) ←
      match missing with
      | 0 => leadingByte? byte
      | n + 1 => if 0x80 ≤ byte ∧ byte < 0xC0 then some (n, code * 64 + (byte - 0x80)) else none
    if missing = 0 then readUri bracketed 0 0 (.ofNat code :: done) cells
    else readUri bracketed missing code done cells
  | [] => if missing = 0 then some (done.reverse, []) else none
  | cell :: cells =>
    let c := cell.char
    if missing ≠ 0 || c = '%' then none
    else if isUriChar c || (bracketed && (c = ',' || c = '[' || c = ']')) then
      readUri bracketed 0 0 (c :: done) cells
    else some (done.reverse, cell :: cells)

/-- Reads behind the first exclamation mark, which is given with the rest. A tag is an address in
brackets, or a handle and a suffix; a lone exclamation mark is a suffix without a handle. -/
def readTag (flow : Bool) (cells : List Cell) : Option (Token × List Cell) := do
  let (token, rest) ←
    match cells with
    | ⟨_, _⟩ :: ⟨'<', _⟩ :: cells => do
      let (suffix, rest) ← readUri true 0 0 [] cells
      if suffix.isEmpty then none
      match rest with
      | ⟨'>', _⟩ :: rest => some (tag "" (.ofList suffix), rest)
      | _ => none
    | cells => do
      let (handle, rest) ← readHandle cells
      if 1 < handle.length ∧ handle.getLast? = some '!' then
        let (suffix, rest) ← readUri false 0 0 [] rest
        if suffix.isEmpty then none
        some (tag (.ofList handle) (.ofList suffix), rest)
      else
        let (suffix, rest) ← readUri false 0 0 (handle.drop 1).reverse rest
        some (if suffix.isEmpty then tag "" "!" else tag "!" (.ofList suffix), rest)
  let c := Cell.charOf rest
  if isGap c || (flow && c = ',') then some (token, rest) else none

/-- At most nine digits. -/
def readNumber (cells : List Cell) : Option (Nat × List Cell) :=
  let (digits, rest) := Cell.span Char.isDigit cells
  if digits.isEmpty ∨ 9 < digits.length then none
  else some (digits.foldl (fun n d => n * 10 + (d.toNat - '0'.toNat)) 0, rest)

/-- Reads behind the percent sign to the end of the line. -/
def readDirective (cells : List Cell) : Option (Token × List Cell) := do
  let (name, rest) := Cell.span isWordChar cells
  if !isGap (Cell.charOf rest) then none
  let rest := Cell.skip isBlank rest
  let (directive, rest) ←
    match String.ofList name with
    | "YAML" => do
      match ← readNumber rest with
      | (major, ⟨'.', _⟩ :: rest) =>
        let (minor, rest) ← readNumber rest
        some (versionDirective major minor, rest)
      | _ => none
    | "TAG" => do
      let (handle, rest) ← readHandle rest
      if 1 < handle.length ∧ handle.getLast? ≠ some '!' then none
      if !isBlank (Cell.charOf rest) then none
      let (lead, rest) ← readUri true 0 0 [] (Cell.skip isBlank rest)
      if lead.isEmpty ∨ !isGap (Cell.charOf rest) then none
      some (tagDirective (.ofList handle) (.ofList lead), rest)
    | _ => none
  return (directive, ← Cell.skipLineEnd? rest)

end Token
end DependentWatch.Yaml
