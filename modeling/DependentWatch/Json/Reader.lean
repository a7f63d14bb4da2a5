import DependentWatch.Json
import DependentWatch.Text
/-! Reading JSON texts. At most 127 collections may be nested; a number is an integer where it is
written as one and fits into 64 bits. -/
namespace DependentWatch.Json

def isSpace (c : Char) : Bool := c = ' ' || c = '\n' || c = '\t' || c = '\r'

/-- Half of a character, or a whole one, in four digits. -/
def unit? (a b c d : Char) : Option Nat :=
  [a, b, c, d].foldlM (fun n d => (Text.hexDigit? d).map (n * 16 + ·)) 0

/-- The character of two halves of a surrogate pair. -/
def pair? (high low : Nat) : Option Char :=
  if 0xD800 ≤ high ∧ high < 0xDC00 ∧ 0xDC00 ≤ low ∧ low < 0xE000 then
    some (.ofNat (0x10000 + (high - 0xD800) * 0x400 + (low - 0xDC00)))
  else none

def unescape? : Char → Option Char
  | '"' => some '"'
  | '\\' => some '\\'
  | '/' => some '/'
  | 'b' => some '\x08'
  | 'f' => some '\x0c'
  | 'n' => some '\n'
  | 'r' => some '\r'
  | 't' => some '\t'
  | _ => none

/-- The characters up to the closing quote, put before those already read in reverse. -/
def readString (done : List Char) : List Char → Option (String × List Char)
  | [] => none
  | '"' :: cs => some (.ofList done.reverse, cs)
  | '\\' :: 'u' :: a :: b :: c :: d :: '\\' :: 'u' :: e :: f :: g :: h :: cs => do
    let high ← unit? a b c d
    if 0xD800 ≤ high ∧ high < 0xE000 then
      readString ((← pair? high (← unit? e f g h)) :: done) cs
    else
      let low ← unit? e f g h
      if 0xD800 ≤ low ∧ low < 0xE000 then
        readString (.ofNat high :: done) ('\\' :: 'u' :: e :: f :: g :: h :: cs)
      else readString (.ofNat low :: .ofNat high :: done) cs
  | '\\' :: 'u' :: a :: b :: c :: d :: cs => do
    let n ← unit? a b c d
    if 0xD800 ≤ n ∧ n < 0xE000 then none else readString (.ofNat n :: done) cs
  | '\\' :: c :: cs => do readString ((← unescape? c) :: done) cs
  | c :: cs => if c.toNat < 0x20 then none else readString (c :: done) cs

def digitsValue (ds : List Char) : Nat := ds.foldl (fun n d => n * 10 + (d.toNat - '0'.toNat)) 0

/-- Takes digits into a significand while it fits into 64 bits; the rest are left. -/
def takeSignificand : Nat → List Char → Nat × List Char
  | n, [] => (n, [])
  | n, d :: ds =>
    let m := n * 10 + (d.toNat - '0'.toNat)
    if m < Nat.pow 2 64 then takeSignificand m ds else (n, d :: ds)

/-- The exponent that is written; digits beyond 31 bits stand for a number past every bound. -/
def readExponent : List Char → Option (Int × List Char)
  | c :: cs =>
    if c = 'e' ∨ c = 'E' then
      let (negative, cs) :=
        match cs with
        | '+' :: cs => (false, cs)
        | '-' :: cs => (true, cs)
        | cs => (false, cs)
      let ds := cs.takeWhile Char.isDigit
      if ds.isEmpty then none
      else
        let n : Int := digitsValue ds
        some (if negative then -n else n, cs.dropWhile Char.isDigit)
    else some (0, c :: cs)
  | [] => some (0, [])

def readFraction : List Char → Option (List Char × List Char)
  | '.' :: cs =>
    let ds := cs.takeWhile Char.isDigit
    if ds.isEmpty then none else some (ds, cs.dropWhile Char.isDigit)
  | cs => some ([], cs)

def readNumber (negative : Bool) (cs : List Char) : Option (Json × List Char) := do
  let whole := cs.takeWhile Char.isDigit
  let cs := cs.dropWhile Char.isDigit
  if whole.isEmpty ∨ (whole.head? = some '0' ∧ whole.length ≠ 1) then none
  let isWhole := match cs with
    | '.' :: _ | 'e' :: _ | 'E' :: _ => false
    | _ => true
  let value : Int := if negative then -(digitsValue whole : Int) else digitsValue whole
  if isWhole && ((negative && -Int.pow 2 63 ≤ value && value < 0)
      || (!negative && value < Int.pow 2 64)) then
    return (.int value, cs)
  let (fraction, cs) ← readFraction cs
  let (exponent, cs) ← readExponent cs
  let (n, dropped) := takeSignificand 0 whole
  let (m, left) := takeSignificand n fraction
  let place : Int := dropped.length - (fraction.length - left.length : Nat)
  let x ← Binary64.ofParts? negative (.ofNat m) (place + exponent)
  return (.float x, cs)

def literal (word : List Char) (value : Json) (cs : List Char) : Option (Json × List Char) :=
  if word.isPrefixOf cs then some (value, cs.drop word.length) else none

mutual
/-- Reads one value, with `depth` collections still to be opened. -/
def readValue : (fuel depth : Nat) → List Char → Option (Json × List Char)
  | 0, _, _ => none
  | fuel + 1, depth, cs =>
    match cs.dropWhile isSpace with
    | '{' :: cs =>
      if depth = 0 then none
      else
        match cs.dropWhile isSpace with
        | '}' :: cs => some (.obj [], cs)
        | cs => readFields fuel (depth - 1) [] cs
    | '[' :: cs =>
      if depth = 0 then none
      else
        match cs.dropWhile isSpace with
        | ']' :: cs => some (.arr [], cs)
        | cs => readItems fuel (depth - 1) [] cs
    | '"' :: cs => (readString [] cs).map fun (s, cs) => (.str s, cs)
    | '-' :: cs => readNumber true cs
    | 't' :: cs => literal ['r', 'u', 'e'] (.bool true) cs
    | 'f' :: cs => literal ['a', 'l', 's', 'e'] (.bool false) cs
    | 'n' :: cs => literal ['u', 'l', 'l'] .null cs
    | cs => readNumber false cs
/-- Reads the items of an array after those already read in reverse. -/
def readItems : (fuel depth : Nat) → List Json → List Char → Option (Json × List Char)
  | 0, _, _, _ => none
  | fuel + 1, depth, done, cs => do
    let (v, cs) ← readValue fuel depth cs
    match cs.dropWhile isSpace with
    | ',' :: cs => readItems fuel depth (v :: done) cs
    | ']' :: cs => some (.arr (v :: done).reverse, cs)
    | _ => none
/-- Reads the fields of an object after those already read in reverse. -/
def readFields : (fuel depth : Nat) → List (String × Json) → List Char →
    Option (Json × List Char)
  | 0, _, _, _ => none
  | fuel + 1, depth, done, cs =>
    match cs.dropWhile isSpace with
    | '"' :: cs => do
      let (k, cs) ← readString [] cs
      match cs.dropWhile isSpace with
      | ':' :: cs =>
        let (v, cs) ← readValue fuel depth cs
        match cs.dropWhile isSpace with
        | ',' :: cs => readFields fuel depth ((k, v) :: done) cs
        | '}' :: cs => some (ofFields ((k, v) :: done).reverse, cs)
        | _ => none
      | _ => none
    | _ => none
end

def ofText? (text : String) : Option Json := do
  let cs := text.toList
  let (v, rest) ← readValue (2 * cs.length + 2) 127 cs
  if rest.all isSpace then some v else none

end DependentWatch.Json
