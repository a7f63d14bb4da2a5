import DependentWatch.Timestamp
/-! Points in time as texts such as `2024-01-31T08:30:00Z`. -/
namespace DependentWatch.Timestamp

/-- The year of a day, by the days since the first of January of the year 0. Four hundred years
have 146097 days. -/
def yearOf (day : Int) : Int :=
  let y := day * 400 / 146097
  if day < daysBeforeYear y then y - 1
  else if daysBeforeYear (y + 1) ≤ day then y + 1
  else y

/-- The month and the day in it, by the days since the month `m`, after which so many months are
left in the year. -/
def monthAndDay (y : Int) : (left m days : Nat) → Nat × Nat
  | 0, m, days => (m, days + 1)
  | left + 1, m, days =>
    if days < daysInMonth y m then (m, days + 1)
    else monthAndDay y left (m + 1) (days - daysInMonth y m)

/-- The year, the month and the day in it, by the days since the first of January of the year 0. -/
def dateOf (day : Int) : Int × Nat × Nat :=
  (yearOf day, monthAndDay (yearOf day) 11 1 (day - daysBeforeYear (yearOf day)).toNat)

def twoDigits (n : Nat) : List Char := [Nat.digitChar (n / 10), Nat.digitChar (n % 10)]

def fourDigits (n : Nat) : List Char :=
  let digits := Nat.toDigits 10 n
  List.replicate (4 - digits.length) '0' ++ digits

/-- A year that does not have four digits has a sign. -/
def yearText (y : Int) : List Char :=
  if y < 0 then '-' :: fourDigits y.natAbs
  else if 9999 < y then '+' :: fourDigits y.natAbs
  else fourDigits y.natAbs

/-- The date and the time of day in UTC. A leap second is the sixtieth of its minute. -/
def text (t : Timestamp) : String :=
  let date := dateOf (t.seconds / 86400 + daysBeforeYear 1970)
  let second := (t.seconds % 86400).toNat
  .ofList (yearText date.1 ++ ('-' :: twoDigits date.2.1) ++ ('-' :: twoDigits date.2.2)
    ++ ('T' :: twoDigits (second / 3600)) ++ (':' :: twoDigits (second / 60 % 60))
    ++ (':' :: twoDigits (second % 60 + if t.leap then 1 else 0)) ++ ['Z'])

end DependentWatch.Timestamp
