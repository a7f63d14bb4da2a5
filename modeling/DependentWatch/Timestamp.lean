import DependentWatch.Text
/-! Points in time as whole seconds of UTC. They are read from texts such as
`2024-01-31T09:30:00+01:00`, in which white space may stand around the numbers, and the numbers need
not be padded. -/
namespace DependentWatch

/-- A leap second is told apart from the second before it. -/
structure Timestamp where
  seconds : Int
  leap : Bool
deriving DecidableEq

namespace Timestamp

def isLeapYear (y : Int) : Bool := (y % 4 = 0 && y % 100 ≠ 0) || y % 400 = 0

def daysInMonth (y : Int) (m : Nat) : Nat :=
  if m = 2 then (if isLeapYear y then 29 else 28)
  else if m = 4 ∨ m = 6 ∨ m = 9 ∨ m = 11 then 30 else 31

/-- The days from the first of January of the year 0 to the first of January of the year `y`. -/
def daysBeforeYear (y : Int) : Int := y * 365 + (y + 3) / 4 - (y + 99) / 100 + (y + 399) / 400

def daysBeforeMonth (y : Int) (m : Nat) : Nat :=
  (List.range (m - 1)).foldl (fun days i => days + daysInMonth y (i + 1)) 0

/-- The days from 1970-01-01. -/
def dayNumber (y : Int) (m d : Nat) : Int :=
  daysBeforeYear y - daysBeforeYear 1970 + (daysBeforeMonth y m + d - 1 : Nat)

/-- The years that a calendar has room for. -/
def hasYear (y : Int) : Bool := -262143 ≤ y && y ≤ 262142

def skipBlanks (cs : List Char) : List Char := cs.dropWhile Text.isBlank

/-- Digits in front, so many at most. -/
def takeDigits (max : Nat) (cs : List Char) : List Char × List Char :=
  let digits := (cs.take max).takeWhile Char.isDigit
  (digits, cs.drop digits.length)

def value (digits : List Char) : Nat := digits.foldl (fun n c => n * 10 + (c.toNat - '0'.toNat)) 0

/-- A number of one digit or more, behind any white space. -/
def number? (max : Nat) (cs : List Char) : Option (Nat × List Char) :=
  let (digits, rest) := takeDigits max (skipBlanks cs)
  if digits.isEmpty then none else some (value digits, rest)

/-- A year with a sign has any number of digits, and else at most four. -/
def year? (cs : List Char) : Option (Int × List Char) :=
  match skipBlanks cs with
  | '+' :: rest => signed 1 rest
  | '-' :: rest => signed (-1) rest
  | cs => (number? 4 cs).map fun (n, rest) => (n, rest)
where
  signed (sign : Int) (cs : List Char) : Option (Int × List Char) :=
    let (digits, rest) := takeDigits cs.length cs
    if digits.isEmpty then none else some (sign * value digits, rest)

/-- A mark behind any white space. -/
def skipMark? (mark : Char) (cs : List Char) : Option (List Char) :=
  match skipBlanks cs with
  | c :: rest => if c = mark then some rest else none
  | [] => none

/-- A fraction of a second has at least one digit and is left out. -/
def skipFraction? : List Char → Option (List Char)
  | '.' :: cs =>
    let (digits, rest) := takeDigits cs.length cs
    if digits.isEmpty then none else some rest
  | cs => some cs

/-- The offset from UTC in seconds: hours and minutes of two digits, less than a day. -/
def offset? (cs : List Char) : Option (Int × List Char) :=
  match cs with
  | u :: t :: c :: rest =>
    if u.toUpper = 'U' ∧ t.toUpper = 'T' ∧ c.toUpper = 'C' then some (0, rest) else zone? cs
  | cs => zone? cs
where
  zone? : List Char → Option (Int × List Char)
    | [] => none
    | c :: cs =>
      if c = 'Z' ∨ c = 'z' then some (0, cs)
      else if c = '+' then hoursAndMinutes? 1 cs
      else if c = '-' ∨ c = '\u2212' then hoursAndMinutes? (-1) cs
      else none
  hoursAndMinutes? (sign : Int) (cs : List Char) : Option (Int × List Char) :=
    let (hours, rest) := takeDigits 2 cs
    let (minutes, rest) := takeDigits 2 (rest.dropWhile fun c => c = ':' || Text.isBlank c)
    if hours.length = 2 ∧ minutes.length = 2 ∧ value hours < 24 ∧ value minutes < 60 then
      some (sign * ((value hours * 60 + value minutes) * 60 : Nat), rest)
    else none

def ofList? (cs : List Char) : Option Timestamp := do
  let (y, cs) ← year? cs
  let (m, cs) ← number? 2 (← skipMark? '-' cs)
  let (d, cs) ← number? 2 (← skipMark? '-' cs)
  let cs ← match cs with
    | t :: cs => if t = 'T' ∨ t = 't' ∨ t = ' ' then some cs else none
    | [] => none
  let (h, cs) ← number? 2 cs
  let (n, cs) ← number? 2 (← skipMark? ':' cs)
  let (s, cs) ← number? 2 (← skipMark? ':' cs)
  let (offset, cs) ← offset? (skipBlanks (← skipFraction? cs))
  if !hasYear y ∨ m = 0 ∨ 12 < m ∨ d = 0 ∨ daysInMonth y m < d ∨ 23 < h ∨ 59 < n ∨ 60 < s
      ∨ !cs.all Text.isBlank then none
  else
    return ⟨dayNumber y m d * 86400 + (h * 60 + n : Nat) * 60 + (min s 59 : Nat) - offset, s = 60⟩

def ofText? (s : String) : Option Timestamp := ofList? s.toList

end Timestamp
end DependentWatch
