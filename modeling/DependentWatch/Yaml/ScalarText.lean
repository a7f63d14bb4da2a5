import DependentWatch.Text
import DependentWatch.Yaml.Source
/-! The texts of scalars: plain, in single or double quotes, and as blocks of lines. -/
namespace DependentWatch.Yaml.ScalarText

/-- White space inside a scalar, the last character first: blanks, or line breaks. The first break
may be one that leaves nothing behind. -/
inductive Gap where
  | blanks (cs : List Char)
  | lines (first : Option Char) (more : List Char)

namespace Gap

def none : Gap := blanks []

def isLines : Gap → Bool
  | blanks _ => false
  | lines .. => true

def isNone : Gap → Bool
  | blanks cs => cs.isEmpty
  | lines .. => false

/-- Blanks beside a break are dropped. -/
def push (c : Char) : Gap → Gap
  | blanks cs => if isBreak c then lines (some c) [] else blanks (c :: cs)
  | lines first more => if isBreak c then lines first (c :: more) else lines first more

/-- What a gap leaves in front of a text in reverse. A single line feed becomes a space, and the
first of several is dropped. -/
def fold (done : List Char) : Gap → List Char
  | blanks cs => cs ++ done
  | lines (some '\n') [] => ' ' :: done
  | lines (some '\n') more => more ++ done
  | lines first more => more ++ (first.toList ++ done)

end Gap

def isFlowIndicator (c : Char) : Bool :=
  c = ',' || c = '[' || c = ']' || c = '{' || c = '}'

/-- Reads a plain scalar and the gap behind it. In a block its lines start at `margin` or
further. -/
def plain (flow : Bool) (margin : Nat) (done : List Char) (gap : Gap) :
    List Cell → Option (List Char × Gap × List Cell)
  | [] => some (done.reverse, gap, [])
  | cell :: cells =>
    let c := cell.char
    let next := Cell.charOf cells
    let finished := some (done.reverse, gap, cell :: cells)
    if isBlank c || isBreak c then
      if c = '\t' && gap.isLines && cell.mark.column < margin then none
      else plain flow margin done (gap.push c) cells
    else if c = endChar then finished
    else if !gap.isNone && ((!flow && cell.mark.column < margin)
        || Cell.atDocumentLine (cell :: cells) || c = '#') then finished
    else if flow && c = ':' && (isFlowIndicator next || next = '?') then none
    else if (c = ':' && isGap next) || (flow && isFlowIndicator c) then finished
    else plain flow margin (c :: gap.fold done) .none cells

/-- Reads behind a single quote. -/
def single (done : List Char) (gap : Gap) : List Cell → Option (List Char × List Cell)
  | [] => none
  | ⟨'\'', _⟩ :: ⟨'\'', _⟩ :: cells => single ('\'' :: gap.fold done) .none cells
  | ⟨'\'', _⟩ :: cells => some ((gap.fold done).reverse, cells)
  | cell :: cells =>
    let c := cell.char
    if c = endChar then none
    else if isBlank c || isBreak c then single done (gap.push c) cells
    else if Cell.atDocumentLine (cell :: cells) then none
    else single (c :: gap.fold done) .none cells

def escaped? : Char → Option Char
  | '0' => some '\x00'
  | 'a' => some '\x07'
  | 'b' => some '\x08'
  | 't' | '\t' => some '\t'
  | 'n' => some '\n'
  | 'v' => some '\x0b'
  | 'f' => some '\x0c'
  | 'r' => some '\r'
  | 'e' => some '\x1b'
  | ' ' => some ' '
  | '"' => some '"'
  | '/' => some '/'
  | '\\' => some '\\'
  | 'N' => some '\x85'
  | '_' => some '\xa0'
  | 'L' => some '\u2028'
  | 'P' => some '\u2029'
  | _ => none

/-- The character with this code in hexadecimal digits. -/
def ofHex? (digits : List Cell) : Option Char := do
  let n ← digits.foldlM (fun n d => (Text.hexDigit? d.char).map (n * 16 + ·)) 0
  if n.isValidChar then some (.ofNat n) else none

/-- Reads behind a double quote. -/
def double (done : List Char) (gap : Gap) : List Cell → Option (List Char × List Cell)
  | [] => none
  | ⟨'"', _⟩ :: cells => some ((gap.fold done).reverse, cells)
  | ⟨'\\', _⟩ :: ⟨'x', _⟩ :: a :: b :: cells => do
    double ((← ofHex? [a, b]) :: gap.fold done) .none cells
  | ⟨'\\', _⟩ :: ⟨'u', _⟩ :: a :: b :: c :: d :: cells => do
    double ((← ofHex? [a, b, c, d]) :: gap.fold done) .none cells
  | ⟨'\\', _⟩ :: ⟨'U', _⟩ :: a :: b :: c :: d :: e :: f :: g :: h :: cells => do
    double ((← ofHex? [a, b, c, d, e, f, g, h]) :: gap.fold done) .none cells
  | ⟨'\\', _⟩ :: ⟨c, _⟩ :: cells =>
    if isBreak c then double (gap.fold done) (.lines none []) cells
    else do double ((← escaped? c) :: gap.fold done) .none cells
  | cell :: cells =>
    let c := cell.char
    if c = endChar then none
    else if isBlank c || isBreak c then double done (gap.push c) cells
    else if Cell.atDocumentLine (cell :: cells) then none
    else double (c :: gap.fold done) .none cells

/-- What happens to the breaks at the end of a block. -/
inductive Chomping where
  | strip | clip | keep

/-- Behind the mark of a block: how it is chomped, and the depth of its lines where that is
given. -/
def blockHeader : List Cell → Option (Chomping × Nat × List Cell)
  | ⟨'+', _⟩ :: cells => depth .keep cells
  | ⟨'-', _⟩ :: cells => depth .strip cells
  | ⟨c, m⟩ :: cells =>
    if c.isDigit then
      let n := c.toNat - '0'.toNat
      if n = 0 then none
      else
        match cells with
        | ⟨'+', _⟩ :: cells => some (.keep, n, cells)
        | ⟨'-', _⟩ :: cells => some (.strip, n, cells)
        | cells => some (.clip, n, cells)
    else some (.clip, 0, ⟨c, m⟩ :: cells)
  | [] => none
where
  depth (chomping : Chomping) : List Cell → Option (Chomping × Nat × List Cell)
    | ⟨c, m⟩ :: cells =>
      if c.isDigit then
        if c = '0' then none else some (chomping, c.toNat - '0'.toNat, cells)
      else some (chomping, 0, ⟨c, m⟩ :: cells)
    | [] => none

/-- Reads empty lines and the indentation of the next line. No `indent` means that it is still to
be found: the deepest line is reported. -/
def emptyLines (indent : Option Nat) (deepest : Nat) (breaks : List Char) :
    List Cell → Option (Nat × List Char × List Cell)
  | [] => some (deepest, breaks, [])
  | cell :: cells =>
    let c := cell.char
    let column := cell.mark.column
    let inside := indent.all (column < ·)
    if inside && c = ' ' then emptyLines indent deepest breaks cells
    else if inside && c = '\t' then none
    else if isBreak c then emptyLines indent (deepest.max column) (c :: breaks) cells
    else some (deepest.max column, breaks, cell :: cells)

/-- The lines read so far, the last character first: the text, the break at the end of its last
line, the breaks of the empty lines behind that, and whether the last line began with a blank. -/
structure Lines where
  done : List Char
  last : Option Char
  breaks : List Char
  blank : Bool

/-- Puts the breaks into the text before the next line. Between two lines that begin with no
blank a folded block loses a line feed, or keeps it as a space. -/
def Lines.join (literal blank : Bool) (l : Lines) : List Char :=
  if !literal && l.last = some '\n' && !l.blank && !blank then
    if l.breaks.isEmpty then ' ' :: l.done else l.breaks ++ l.done
  else l.breaks ++ (l.last.toList ++ l.done)

/-- Reads the lines that start at the column `indent`. -/
def lines (literal : Bool) (indent : Nat) :
    Nat → Lines → List Cell → Option (Lines × List Cell)
  | 0, _, _ => none
  | fuel + 1, l, cells =>
    let c := Cell.charOf cells
    if (Cell.markOf cells).column ≠ indent || c = endChar then some (l, cells)
    else do
      let (line, rest) := Cell.span (fun c => !isBreak c && c ≠ endChar) cells
      let done := line.reverse ++ l.join literal (isBlank c)
      let (last, rest) :=
        match rest with
        | cell :: more => if isBreak cell.char then (some cell.char, more) else (none, rest)
        | [] => (none, [])
      let (_, breaks, rest) ← emptyLines (some indent) 0 [] rest
      lines literal indent fuel ⟨done, last, breaks, isBlank c⟩ rest

/-- Reads behind the mark of a block. Its lines are deeper than the block around it, which starts
before `margin`. -/
def block (literal : Bool) (margin : Nat) (cells : List Cell) :
    Option (List Char × List Cell) := do
  let (chomping, depth, cells) ← blockHeader cells
  let cells ← Cell.skipLineEnd? cells
  let given := if depth = 0 then none else some (margin - 1 + depth)
  let (deepest, breaks, cells) ← emptyLines given 0 [] cells
  let indent := given.getD ((deepest.max margin).max 1)
  let (l, cells) ← lines literal indent (cells.length + 1) ⟨[], none, breaks, false⟩ cells
  let done :=
    match chomping with
    | .strip => l.done
    | .clip => l.last.toList ++ l.done
    | .keep => l.breaks ++ (l.last.toList ++ l.done)
  return (done.reverse, cells)

end DependentWatch.Yaml.ScalarText
