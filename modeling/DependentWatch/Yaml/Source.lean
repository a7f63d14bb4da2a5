/-! The characters of a YAML text with their places. Line breaks are brought to one form here: all
but the line and the paragraph separator become a line feed. -/
namespace DependentWatch.Yaml

structure Mark where
  index : Nat
  line : Nat
  column : Nat

def Mark.start : Mark := ⟨0, 0, 0⟩

/-- Behind a character on the same line. -/
def Mark.next (m : Mark) : Mark := ⟨m.index + 1, m.line, m.column + 1⟩

/-- Behind a break of so many characters. -/
def Mark.nextLine (m : Mark) (n : Nat) : Mark := ⟨m.index + n, m.line + 1, 0⟩

/-- One character; a pair of carriage return and line feed counts as one. -/
structure Cell where
  char : Char
  mark : Mark

/-- What stands in the cell behind the text. No text may hold it. -/
def endChar : Char := '\x00'

def isBlank (c : Char) : Bool := c = ' ' || c = '\t'
def isBreak (c : Char) : Bool := c = '\n' || c = '\u2028' || c = '\u2029'
/-- Blanks, breaks and the end, which separate tokens. -/
def isGap (c : Char) : Bool := isBlank c || isBreak c || c = endChar

/-- The characters that a text may hold. -/
def isAllowed (c : Char) : Bool :=
  let n := c.toNat
  n == 0x09 || n == 0x0A || n == 0x0D || (0x20 ≤ n && n ≤ 0x7E) || n == 0x85
    || (0xA0 ≤ n && n ≤ 0xD7FF) || (0xE000 ≤ n && n ≤ 0xFFFD) || 0x10000 ≤ n

/-- The texts are read in blocks: as many whole characters as fit into so many bytes. -/
def blockSize : Nat := 16384

/-- Cuts into blocks, with room for some bytes in the first. -/
def blocks (room : Nat) : List Char → List (List Char)
  | [] => [[]]
  | c :: cs =>
    let fits := c.utf8Size ≤ room
    match blocks ((if fits then room else blockSize) - c.utf8Size) cs with
    | [] => [[c]]
    | b :: bs => if fits then (c :: b) :: bs else [] :: (c :: b) :: bs

def cellsFrom (m : Mark) : List Char → List Cell
  | [] => [⟨endChar, m⟩]
  | '\r' :: '\n' :: cs => ⟨'\n', m⟩ :: cellsFrom (m.nextLine 2) cs
  | c :: cs =>
    let c := if c = '\r' || c = '\x85' then '\n' else c
    ⟨c, m⟩ :: cellsFrom (if isBreak c then m.nextLine 1 else m.next) cs

/-- A text up to the first block with a character that is not allowed. It is broken off where
there is such a block. -/
structure Source where
  cells : List Cell
  brokenOff : Bool

def Source.ofText (text : String) : Source :=
  let all := blocks blockSize text.toList
  let good := all.takeWhile (·.all isAllowed)
  ⟨cellsFrom .start good.flatten, good.length < all.length⟩

namespace Cell

def markOf : List Cell → Mark
  | [] => .start
  | cell :: _ => cell.mark

def charOf : List Cell → Char
  | [] => endChar
  | cell :: _ => cell.char

/-- The characters in front that have a property, and the rest. -/
def span (p : Char → Bool) : List Cell → List Char × List Cell
  | [] => ([], [])
  | cell :: cells =>
    if p cell.char then
      let (text, rest) := span p cells
      (cell.char :: text, rest)
    else ([], cell :: cells)

/-- Skips the characters that have a property. -/
def skip (p : Char → Bool) (cells : List Cell) : List Cell := (span p cells).2

/-- Skips a comment and the break behind it; nothing else may stand on the line. -/
def skipLineEnd? (cells : List Cell) : Option (List Cell) :=
  let cells := skip isBlank cells
  let cells :=
    if charOf cells = '#' then skip (fun c => !isBreak c && c ≠ endChar) cells else cells
  match cells with
  | [] => some []
  | cell :: rest =>
    if isBreak cell.char then some rest
    else if cell.char = endChar then some (cell :: rest)
    else none

/-- A line that starts or ends a document. -/
def atDocumentLine : List Cell → Bool
  | ⟨a, m⟩ :: ⟨b, _⟩ :: ⟨c, _⟩ :: rest =>
    m.column == 0 && a == b && b == c && (a == '-' || a == '.') && isGap (charOf rest)
  | _ => false

end Cell
end DependentWatch.Yaml
