/-! Numbers with a fraction, as the doubles they are rounded to. -/
namespace DependentWatch

/-- A double by its bits, with one zero and one not-a-number. -/
structure Binary64 where
  bits : UInt64
deriving DecidableEq

namespace Binary64

def ofFloat (x : Float) : Binary64 :=
  if x.isNaN then ⟨0x7FF8000000000000⟩ else if x == 0 then ⟨0⟩ else ⟨x.toBits⟩

def infinity (negative : Bool) : Binary64 :=
  ⟨if negative then 0xFFF0000000000000 else 0x7FF0000000000000⟩

def notANumber : Binary64 := ⟨0x7FF8000000000000⟩

/-- The power of ten as a double. -/
def powerOfTen (n : Nat) : Float := Float.ofScientific 1 false n

/-- The double nearest to `digits * 10 ^ exponent`, where it is finite. Beyond a thousand places
every number is zero or too large. -/
def ofDecimal? (negative : Bool) (digits : Nat) (exponent : Int) : Option Binary64 :=
  let places := (Nat.toDigits 10 digits).length + exponent
  if digits = 0 ∨ places < -1000 then some ⟨0⟩
  else if 1000 < places then none
  else
    let x := Float.ofScientific digits (exponent < 0) exponent.natAbs
    if x.isInf then none else some (ofFloat (if negative then -x else x))

/-- Brings a whole double to its decimal place by one multiplication or division by a power of
ten, after steps of 308 places where the exponent is lower than that. -/
def shift : Nat → Float → Int → Option Float
  | 0, _, _ => some 0
  | n + 1, x, e =>
    if e.natAbs ≤ 308 then
      let y := if 0 ≤ e then x * powerOfTen e.natAbs else x / powerOfTen e.natAbs
      if y.isInf then none else some y
    else if x == 0 then some x
    else if 0 ≤ e then none
    else shift n (x / powerOfTen 308) (e + 308)

/-- The double of a 64-bit significand at a decimal place, in at most two roundings. -/
def ofParts? (negative : Bool) (significand : UInt64) (exponent : Int) : Option Binary64 :=
  (shift 4 significand.toFloat exponent).map fun x => ofFloat (if negative then -x else x)

end Binary64
end DependentWatch
