/-! Lengths of time in nanoseconds, up to 64 bits of seconds. -/
namespace DependentWatch

def Duration.limit : Nat := Nat.pow 2 64 * Nat.pow 10 9

structure Duration where
  nanos : Nat
  lt_limit : nanos < Duration.limit
deriving DecidableEq

namespace Duration

def zero : Duration := ⟨0, by decide⟩

instance : Inhabited Duration := ⟨zero⟩

def ofNanos? (n : Nat) : Option Duration := if h : n < limit then some ⟨n, h⟩ else none

def secs (d : Duration) : Nat := d.nanos / Nat.pow 10 9
def subsecNanos (d : Duration) : Nat := d.nanos % Nat.pow 10 9

def ofMillis (n : Nat) (h : n * Nat.pow 10 6 < limit := by decide) : Duration := ⟨n * Nat.pow 10 6, h⟩

/-- The shorter of two. -/
def min (a b : Duration) : Duration := if a.nanos ≤ b.nanos then a else b

end Duration

/-- How long to wait before a retry: twice as long each time, up to a bound. -/
structure Backoff where
  base : Duration
  max : Duration
deriving DecidableEq

namespace Backoff

/-- Five milliseconds, doubled up to a thousand seconds. -/
def default : Backoff := ⟨.ofMillis 5, .ofMillis 1000000⟩

instance : Inhabited Backoff := ⟨default⟩

/-- The delay before a retry, by the number of retries before it. A factor beyond 32 bits, or a
product that is no duration, gives the bound. -/
def delay (b : Backoff) (attempt : Nat) : Duration :=
  if attempt < 32 then
    match Duration.ofNanos? (b.base.nanos * Nat.pow 2 attempt) with
    | some d => d.min b.max
    | none => b.max
  else b.max

end Backoff
end DependentWatch
