import DependentWatch.Duration
import DependentWatch.Text
/-! Durations as texts such as `1h 30m`: numbers with units, which are added up. -/
namespace DependentWatch.Duration

inductive TimeUnit where
  | nano | micro | milli | second | minute | hour | day | week | month | year
deriving DecidableEq

namespace TimeUnit

/-- All the names of a unit. -/
def names : TimeUnit → List String
  | nano => ["nanos", "nsec", "ns"]
  | micro => ["usec", "us", "µs"]
  | milli => ["millis", "msec", "ms"]
  | second => ["seconds", "second", "secs", "sec", "s"]
  | minute => ["minutes", "minute", "mins", "min", "m"]
  | hour => ["hours", "hour", "hrs", "hr", "h"]
  | day => ["days", "day", "d"]
  | week => ["weeks", "week", "wks", "wk", "w"]
  | month => ["months", "month", "M"]
  | year => ["years", "year", "yrs", "yr", "y"]

def all : List TimeUnit := [nano, micro, milli, second, minute, hour, day, week, month, year]

def ofName? (s : String) : Option TimeUnit := all.find? fun u => u.names.contains s

/-- A unit below the second is counted in nanoseconds, the others in seconds. -/
def isSmall : TimeUnit → Bool
  | nano | micro | milli => true
  | _ => false

def count : TimeUnit → Nat
  | nano => 1
  | micro => 1000
  | milli => 1000000
  | second => 1
  | minute => 60
  | hour => 3600
  | day => 86400
  | week => 604800
  | month => 2630016
  | year => 31557600

end TimeUnit

/-- A number with its unit. A fraction is its digits as a number and how many they are. -/
structure Part where
  whole : Nat
  fraction : Option (Nat × Nat)
  unit : TimeUnit
deriving DecidableEq

/-- Nanoseconds are added to those below the second first, in 64 bits. -/
def addNanos? (d : Duration) (n : Nat) : Option Duration :=
  if d.subsecNanos + n < Nat.pow 2 64 then ofNanos? (d.nanos + n) else none

def addSecs? (d : Duration) (n : Nat) : Option Duration := ofNanos? (d.nanos + n * Nat.pow 10 9)

/-- A product in 64 bits. -/
def product? (a b : Nat) : Option Nat := if a * b < Nat.pow 2 64 then some (a * b) else none

def quotient? (a b : Nat) : Option Nat := if a % b = 0 then some (a / b) else none

/-- Adds a fraction, which comes out as whole nanoseconds below the hour and as whole seconds
from there on. -/
def addFraction? (d : Duration) (digits places : Nat) (u : TimeUnit) : Option Duration := do
  if Nat.pow 2 64 ≤ Nat.pow 10 places then none
  match u with
  | .nano => none
  | .micro | .milli => d.addNanos? (← quotient? (← product? digits u.count) (Nat.pow 10 places))
  | .second | .minute =>
    d.addNanos? (← quotient? (← product? digits (u.count * Nat.pow 10 9)) (Nat.pow 10 places))
  | _ => d.addSecs? (← quotient? (← product? digits u.count) (Nat.pow 10 places))

def addPart? (d : Duration) (p : Part) : Option Duration := do
  if Nat.pow 2 64 ≤ p.whole then none
  let n ← product? p.whole p.unit.count
  let d ← if p.unit.isSmall then d.addNanos? n else d.addSecs? n
  match p.fraction with
  | none => some d
  | some (digits, places) => d.addFraction? digits places p.unit

def ofParts? (parts : List Part) : Option Duration := parts.foldlM addPart? zero

def digitValue (c : Char) : Nat := c.toNat - '0'.toNat

def isUnitChar (c : Char) : Bool := c.isAlpha || c = 'µ'

/-- Reads digits up to the first character of the unit, with white space anywhere between. -/
def readFraction (digits places : Nat) : List Char → Option (Nat × Nat × List Char)
  | [] => some (digits, places, [])
  | c :: cs =>
    if c.isDigit then readFraction (digits * 10 + digitValue c) (places + 1) cs
    else if Text.isBlank c then readFraction digits places cs
    else if isUnitChar c then some (digits, places, c :: cs)
    else none

/-- Reads a number up to the first character of the unit. A point needs a digit after it. -/
def readNumber (whole : Nat) : List Char → Option (Nat × Option (Nat × Nat) × List Char)
  | [] => some (whole, none, [])
  | c :: cs =>
    if c.isDigit then readNumber (whole * 10 + digitValue c) cs
    else if Text.isBlank c then readNumber whole cs
    else if isUnitChar c then some (whole, none, c :: cs)
    else if c = '.' then
      match readFraction 0 0 cs with
      | some (digits, places, rest) =>
        if places = 0 then none else some (whole, some (digits, places), rest)
      | none => none
    else none

/-- Reads one part; after its unit stands a digit, white space or nothing. -/
def readPart (first : Char) (cs : List Char) : Option (Part × List Char) := do
  let (whole, fraction, rest) ← readNumber (digitValue first) cs
  let unit ← TimeUnit.ofName? (.ofList (rest.takeWhile isUnitChar))
  let rest := rest.dropWhile isUnitChar
  match rest with
  | [] => some (⟨whole, fraction, unit⟩, [])
  | c :: _ => if c.isDigit || Text.isBlank c then some (⟨whole, fraction, unit⟩, rest) else none

def readParts : Nat → List Char → Option (List Part)
  | 0, _ => none
  | fuel + 1, cs =>
    match cs.dropWhile Text.isBlank with
    | [] => some []
    | c :: cs => do
      if !c.isDigit then none
      let (p, rest) ← readPart c cs
      return p :: (← readParts fuel rest)

/-- One part or more; the text `0` needs no unit. -/
def ofText? (s : String) : Option Duration :=
  if s = "0" then some zero
  else if Text.blank s then none
  else (readParts (s.toList.length + 1) s.toList).bind ofParts?

/-- The parts that are written, the larger units first. -/
def counts (d : Duration) : List (Nat × String × String) :=
  let s := d.secs
  let y := s % 31557600
  let m := y % 2630016
  let n := d.subsecNanos
  [(s / 31557600, "year", "years"), (y / 2630016, "month", "months"), (m / 86400, "day", "days"),
    (m % 86400 / 3600, "h", "h"), (m % 3600 / 60, "m", "m"), (m % 60, "s", "s"),
    (n / 1000000, "ms", "ms"), (n / 1000 % 1000, "us", "us"), (n % 1000, "ns", "ns")]

def partText (p : Nat × String × String) : String :=
  toString p.1 ++ if p.1 = 1 then p.2.1 else p.2.2

def text (d : Duration) : String :=
  if d.nanos = 0 then "0s"
  else " ".intercalate ((d.counts.filter (·.1 ≠ 0)).map partText)

end DependentWatch.Duration
