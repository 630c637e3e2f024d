import LockingDb.Binary64
import LockingDb.NumberText

namespace LockingDb

namespace DoubleReading

/-- Digits are gathered in 64 bits. -/
def gatherLimit : Nat := UInt64.size

/-- Gathers digits as long as the result fits; the second part counts the digits taken, the third
those left. -/
def gather (n : Nat) : List Digit → Nat × Nat × Nat
  | [] => (n, 0, 0)
  | d :: ds =>
    if 10 * n + d.val < gatherLimit then
      let (n, taken, left) := gather (10 * n + d.val) ds
      (n, taken + 1, left)
    else (n, 0, ds.length + 1)

/-- Significand and power of ten of the digits around a point. Whole digits that do not fit
raise the power, further digits after the point are dropped. -/
def significand (whole fraction : List Digit) : Nat × Int :=
  let (n, _, dropped) := gather 0 whole
  let (n, taken, _) := gather n fraction
  (n, (dropped : Int) - taken)

def powerOfTen (k : Nat) : Nat := Binary64.nearest (Nat.pow 10 k) 1

/-- Division by a power of ten in steps that have a double of their own. -/
def divideByPower (f k : Nat) : Nat :=
  if k ≤ 308 then Binary64.divide f (powerOfTen k)
  else if f = 0 then 0
  else divideByPower (Binary64.divide f (powerOfTen 308)) (k - 308)
termination_by k

/-- The magnitude of `n * 10 ^ e`: the double nearest to `n` times or over the one nearest to the
power of ten, rounded once more. `none` if it is too large. -/
def scale (n : Nat) (e : Int) : Option Nat :=
  let f := Binary64.nearest n 1
  match e with
  | .ofNat k =>
    if k ≤ 308 then
      let r := Binary64.multiply f (powerOfTen k)
      if r < Binary64.infinityBits then some r else none
    else if f = 0 then some 0
    else none
  | .negSucc k => some (divideByPower f (k + 1))

/-- Exponents are read in 32 bits. -/
def exponentLimit : Nat := 0x80000000

/-- The magnitude that a written number stands for. -/
def magnitude? (t : NumberText) : Option Nat :=
  let (n, e) := significand t.whole t.fraction
  match t.exponent with
  | none => scale n e
  | some (negative, ds) =>
    let k := ofDigits ds
    if k < exponentLimit then scale n (if negative then e - k else e + k)
    else if n = 0 ∨ negative then some 0
    else none

/-- The double that a written number stands for. It need not be the nearest one: the decoder of the
log gathers digits in 64 bits, takes the doubles nearest to them and to the power of ten, and multiplies
or divides these once. What is proved of stored doubles rests on that, on each of the three results being
rounded to nearest and to even on a tie, and on numbers above the greatest double being refused. -/
def bits? (t : NumberText) : Option UInt64 :=
  (magnitude? t).map (Binary64.withSign t.negative)

end DoubleReading

end LockingDb
