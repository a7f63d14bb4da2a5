import DependentWatch.Yaml.Token
/-! Cutting a text into tokens. Blocks open and close by their columns. A token after which a colon
may come is a key only when the colon has been read, so that tokens are held back until then. -/
namespace DependentWatch.Yaml

/-- The place of a token that may begin a key. It is required where nothing but a key can stand. -/
structure KeyPlace where
  required : Bool
  number : Nat
  mark : Mark

/-- `margin` is one more than the column of the innermost block, and zero outside of all blocks;
`margins` are those of the blocks around it. `key` may begin in the innermost flow collection,
`keys` in those around it and the block. `held` tokens follow the `released` ones. -/
structure TokenReader where
  rest : List Cell
  margin : Nat
  margins : List Nat
  keyAllowed : Bool
  key : Option KeyPlace
  keys : List (Option KeyPlace)
  released : Nat
  held : List Token
  finished : Bool

namespace TokenReader

def start (cells : List Cell) : TokenReader := ⟨cells, 0, [], true, none, [], 0, [], false⟩

def inFlow (s : TokenReader) : Bool := !s.keys.isEmpty

def mark (s : TokenReader) : Mark := Cell.markOf s.rest

def push (s : TokenReader) (t : Token) : TokenReader := { s with held := s.held ++ [t] }

/-- A key stands on one line, within 1024 characters. -/
def stillPossible (m : Mark) (k : KeyPlace) : Bool :=
  m.line ≤ k.mark.line && m.index ≤ k.mark.index + 1024

/-- Gives up the places that are too far back. A required one must not be given up. -/
def dropOldKeys (s : TokenReader) : Option TokenReader :=
  if (s.key :: s.keys).any (·.any fun k => k.required && !stillPossible s.mark k) then none
  else
    let keep := fun k : Option KeyPlace => k.filter (stillPossible s.mark)
    some { s with key := keep s.key, keys := s.keys.map keep }

def dropKey (s : TokenReader) : Option TokenReader :=
  if s.key.any (·.required) then none else some { s with key := none }

/-- The next token may begin a key. -/
def placeKey (s : TokenReader) : Option TokenReader :=
  if s.keyAllowed then do
    let required := !s.inFlow && s.margin == s.mark.column + 1
    let place := ⟨required, s.released + s.held.length, s.mark⟩
    some { ← s.dropKey with key := some place }
  else some s

/-- Opens a block at a column beyond the innermost one. Its token is put at a place among those
held. -/
def openBlock (s : TokenReader) (column place : Nat) (t : Token) : TokenReader :=
  if s.inFlow ∨ column < s.margin then s
  else
    { s with
      margin := column + 1
      margins := s.margin :: s.margins
      held := s.held.insertIdx place t }

/-- How many blocks lie beyond a margin, and what is left without them. -/
def unwind (limit margin : Nat) : List Nat → Nat × Nat × List Nat
  | [] => (0, margin, [])
  | m :: ms =>
    if limit < margin then
      let (n, left) := unwind limit m ms
      (n + 1, left)
    else (0, margin, m :: ms)

def closeBlocks (s : TokenReader) (limit : Nat) : TokenReader :=
  if s.inFlow then s
  else
    let (n, margin, margins) := unwind limit s.margin s.margins
    { s with margin, margins, held := s.held ++ .replicate n .blockEnd }

/-- Skips blanks, comments and breaks. A tab is no blank where a block could begin behind it. -/
def skipToToken (flow keyAllowed comment : Bool) : List Cell → Bool × List Cell
  | [] => (keyAllowed, [])
  | cell :: cells =>
    let c := cell.char
    if isBreak c then skipToToken flow (keyAllowed || !flow) false cells
    else if c = endChar then (keyAllowed, cell :: cells)
    else if comment || c = '#' then skipToToken flow keyAllowed true cells
    else if c = ' ' || (c = '\t' && (flow || !keyAllowed)) then
      skipToToken flow keyAllowed false cells
    else (keyAllowed, cell :: cells)

def leaveBlocks (s : TokenReader) : Option TokenReader := do
  some { ← (s.closeBlocks 0).dropKey with keyAllowed := false }

def readEnd (s : TokenReader) : Option TokenReader := do
  some { (← s.leaveBlocks).push .streamEnd with finished := true }

def readDirective (s : TokenReader) : Option TokenReader := do
  let s ← s.leaveBlocks
  let (t, rest) ← Token.readDirective (s.rest.drop 1)
  some { s.push t with rest }

def readDocumentLine (s : TokenReader) : Option TokenReader := do
  let t := if Cell.charOf s.rest = '-' then .documentStart else .documentEnd
  let s ← s.leaveBlocks
  some { s.push t with rest := s.rest.drop 3 }

def readFlowStart (s : TokenReader) (t : Token) : Option TokenReader := do
  let s ← s.placeKey
  some { s.push t with
    rest := s.rest.drop 1, keyAllowed := true, key := none, keys := s.key :: s.keys }

def readFlowEnd (s : TokenReader) (t : Token) : Option TokenReader := do
  let s ← s.dropKey
  let (key, keys) :=
    match s.keys with
    | [] => (none, [])
    | key :: keys => (key, keys)
  some { s.push t with rest := s.rest.drop 1, keyAllowed := false, key, keys }

def readFlowEntry (s : TokenReader) : Option TokenReader := do
  let s ← s.dropKey
  some { s.push .flowEntry with rest := s.rest.drop 1, keyAllowed := true }

/-- An entry or a key with its own mark opens a block where none is open at its column. -/
def enterBlock (s : TokenReader) (t : Token) : Option TokenReader :=
  if s.inFlow then some s
  else if s.keyAllowed then some (s.openBlock s.mark.column s.held.length t)
  else none

def readBlockEntry (s : TokenReader) : Option TokenReader := do
  let s ← (← s.enterBlock .blockSequenceStart).dropKey
  some { s.push .blockEntry with rest := s.rest.drop 1, keyAllowed := true }

def readKey (s : TokenReader) : Option TokenReader := do
  let s ← (← s.enterBlock .blockMappingStart).dropKey
  some { s.push .key with rest := s.rest.drop 1, keyAllowed := !s.inFlow }

/-- The colon. It makes a key of what began at the place for one. -/
def readValue (s : TokenReader) : Option TokenReader := do
  let s ←
    match s.key with
    | some k =>
      let place := k.number - s.released
      let s := { s with held := s.held.insertIdx place .key }
      some { s.openBlock k.mark.column place .blockMappingStart with
        key := none, keyAllowed := false }
    | none => do some { ← s.enterBlock .blockMappingStart with keyAllowed := !s.inFlow }
  some { s.push .value with rest := s.rest.drop 1 }

/-- A token that may begin a key, by its reader. -/
def readWith (s : TokenReader) (read : List Cell → Option (Token × List Cell)) :
    Option TokenReader := do
  let s ← s.placeKey
  let (t, rest) ← read s.rest
  some { s.push t with rest, keyAllowed := false }

def readQuoted (s : TokenReader) (read : List Cell → Option (List Char × List Cell)) :
    Option TokenReader :=
  s.readWith fun cells => (read (cells.drop 1)).map fun (text, rest) =>
    (.scalar .quoted (.ofList text), rest)

def readBlock (s : TokenReader) (literal : Bool) : Option TokenReader := do
  let s ← s.dropKey
  let (text, rest) ← ScalarText.block literal s.margin (s.rest.drop 1)
  let style := if literal then .literal else .quoted
  some { s.push (.scalar style (.ofList text)) with rest, keyAllowed := true }

def readPlain (s : TokenReader) : Option TokenReader := do
  let s ← s.placeKey
  let (text, gap, rest) ← ScalarText.plain s.inFlow s.margin [] .none s.rest
  some { s.push (.scalar .plain (.ofList text)) with rest, keyAllowed := gap.isLines }

/-- The characters that cannot begin a plain scalar. -/
def isIndicator (c : Char) : Bool :=
  isGap c || ['-', '?', ':', ',', '[', ']', '{', '}', '#', '&', '*', '!', '|', '>', '\'', '"', '%',
    '@', '`'].contains c

/-- Reads one token. -/
def readToken (s : TokenReader) : Option TokenReader := do
  let (keyAllowed, rest) := skipToToken s.inFlow s.keyAllowed false s.rest
  let s ← { s with keyAllowed, rest }.dropOldKeys
  let s := s.closeBlocks (s.mark.column + 1)
  let flow := s.inFlow
  let c := Cell.charOf s.rest
  let next := Cell.charOf (s.rest.drop 1)
  if c = endChar then s.readEnd
  else if c = '%' && s.mark.column = 0 then s.readDirective
  else if Cell.atDocumentLine s.rest then s.readDocumentLine
  else if c = '-' && isGap next then s.readBlockEntry
  else if c = '?' && (flow || isGap next) then s.readKey
  else if c = ':' && (flow || isGap next) then s.readValue
  else
    match c with
    | '[' => s.readFlowStart .flowSequenceStart
    | ']' => s.readFlowEnd .flowSequenceEnd
    | '\x7b' => s.readFlowStart .flowMappingStart
    | '\x7d' => s.readFlowEnd .flowMappingEnd
    | ',' => s.readFlowEntry
    | '&' => s.readWith fun cells => (Token.readName (cells.drop 1)).map (.map .anchor id)
    | '*' => s.readWith fun cells => (Token.readName (cells.drop 1)).map (.map .reference id)
    | '!' => s.readWith (Token.readTag flow)
    | '\'' => s.readQuoted (ScalarText.single [] .none)
    | '"' => s.readQuoted (ScalarText.double [] .none)
    | _ =>
      if (c = '|' || c = '>') && !flow then s.readBlock (c = '|')
      else if !isIndicator c || c = '-' || ((c = '?' || c = ':') && !flow) then s.readPlain
      else none

/-- Where the first of the places lies that may become a key. -/
def firstKey? (s : TokenReader) : Option Nat :=
  ((s.key :: s.keys).filterMap id).map (·.number) |>.min?

/-- The held tokens in front of that place, which nothing can change. -/
def release (s : TokenReader) : List Token × TokenReader :=
  let n := match s.firstKey? with
    | some place => place - s.released
    | none => s.held.length
  (s.held.take n, { s with released := s.released + n, held := s.held.drop n })

/-- All tokens in order, as far as they can be told. A text that is broken off has no end. -/
def tokens (brokenOff : Bool) : Nat → TokenReader → List Token
  | 0, _ => []
  | fuel + 1, s =>
    match s.dropOldKeys with
    | none => []
    | some s =>
      let (ready, s) := s.release
      if s.finished then ready
      else
        match s.readToken with
        | none => ready
        | some s =>
          if brokenOff && Cell.charOf s.rest = endChar then ready
          else ready ++ tokens brokenOff fuel s

end TokenReader

/-- The tokens of a text. The last one is the end of the stream, unless something cannot be read;
then the tokens end before it. -/
def Token.ofText (text : String) : List Token :=
  let source := Source.ofText text
  (TokenReader.start source.cells).tokens source.brokenOff (source.cells.length + 2)

end DependentWatch.Yaml
