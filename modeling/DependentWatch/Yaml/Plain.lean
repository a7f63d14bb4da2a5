import DependentWatch.Text
import DependentWatch.Yaml.Value
/-! What plain scalars mean: nothing, flags, numbers, and otherwise texts. -/
namespace DependentWatch.Yaml.Plain

def isNull (s : String) : Bool := s = "null" || s = "Null" || s = "NULL" || s = "~"

def bool? (s : String) : Option Bool :=
  if s = "true" || s = "True" || s = "TRUE" then some true
  else if s = "false" || s = "False" || s = "FALSE" then some false
  else none

def digit? (base : Nat) (c : Char) : Option Nat := (Text.hexDigit? c).filter (· < base)

/-- A number of one digit or more. -/
def digits? (base : Nat) (cs : List Char) : Option Nat :=
  if cs.isEmpty then none else cs.foldlM (fun n c => (digit? base c).map (n * base + ·)) 0

/-- A whole number without a sign; no zero leads other digits. -/
def natural? : List Char → Option Nat
  | '0' :: 'x' :: cs => digits? 16 cs
  | '0' :: 'o' :: cs => digits? 8 cs
  | '0' :: 'b' :: cs => digits? 2 cs
  | '0' :: _ :: _ => none
  | cs => digits? 10 cs

def whole? : List Char → Option Int
  | '-' :: cs => (natural? cs).map fun n => -(n : Int)
  | '+' :: cs => (natural? cs).map (↑·)
  | cs => (natural? cs).map (↑·)

/-- Digits behind a zero are a text and no number. -/
def isPaddedNumber (cs : List Char) : Bool :=
  let cs := match cs with
    | '+' :: cs | '-' :: cs => cs
    | cs => cs
  match cs with
  | '0' :: d :: ds => (d :: ds).all Char.isDigit
  | _ => false

/-- A decimal number without a sign: digits with a point anywhere, and an exponent. -/
def decimal? (negative : Bool) (cs : List Char) : Option Binary64 := do
  let whole := cs.takeWhile Char.isDigit
  let rest := cs.dropWhile Char.isDigit
  let (fraction, rest) := match rest with
    | '.' :: rest => (rest.takeWhile Char.isDigit, rest.dropWhile Char.isDigit)
    | rest => ([], rest)
  let n ← digits? 10 (whole ++ fraction)
  let exponent ← match rest with
    | [] => some 0
    | c :: rest => if c = 'e' || c = 'E' then exponent? rest else none
  Binary64.ofDecimal? negative n (exponent - fraction.length)
where
  exponent? : List Char → Option Int
    | '-' :: cs => (digits? 10 cs).map fun n => -(n : Int)
    | '+' :: cs => (digits? 10 cs).map (↑·)
    | cs => (digits? 10 cs).map (↑·)

def isInfinity (cs : List Char) : Bool :=
  cs = ['.', 'i', 'n', 'f'] || cs = ['.', 'I', 'n', 'f'] || cs = ['.', 'I', 'N', 'F']

def isNotANumber (cs : List Char) : Bool :=
  cs = ['.', 'n', 'a', 'n'] || cs = ['.', 'N', 'a', 'N'] || cs = ['.', 'N', 'A', 'N']

/-- A number with a fraction. It is none where it is too large for a double. -/
def float? (cs : List Char) : Option Binary64 :=
  if isNotANumber cs then some .notANumber
  else
    let (negative, cs) := match cs with
      | '-' :: cs => (true, cs)
      | '+' :: cs => (false, cs)
      | cs => (false, cs)
    if isInfinity cs then some (.infinity negative) else decimal? negative cs

/-- A whole number as a value, where the text is one. Numbers of 64 bits are values; those that
need up to 128 bits are refused, and any beyond are none. -/
def int? (s : String) : Option (Option Value) :=
  match whole? s.toList with
  | none => none
  | some n =>
    if -Int.pow 2 63 ≤ n ∧ n < Int.pow 2 64 then some (some (.int n))
    else if -Int.pow 2 127 ≤ n ∧ n < Int.pow 2 128 then some none
    else none

/-- What a plain scalar means. -/
def value? (s : String) : Option Value :=
  if s.isEmpty || isNull s then some .null
  else
    match bool? s, int? s with
    | some b, _ => some (.bool b)
    | none, some v => v
    | none, none =>
      match if isPaddedNumber s.toList then none else float? s.toList with
      | some x => some (.float x)
      | none => some (.str s)

end DependentWatch.Yaml.Plain
