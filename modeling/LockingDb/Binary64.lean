namespace LockingDb

namespace Binary64

/-- The bits of positive infinity, above those of every finite magnitude. -/
def infinityBits : Nat := 0x7ff0000000000000

/-- What the leading bit of a full significand counts, `2 ^ 52`. -/
def leadingBit : Nat := 0x10000000000000

/-- What the sign bit counts, `2 ^ 63`. -/
def signBit : Nat := 0x8000000000000000

/-- The significand and the power of two of a finite magnitude. -/
def parts (bits : Nat) : Nat × Int :=
  if bits < leadingBit then (bits, -1074)
  else (bits % leadingBit + leadingBit, (bits / leadingBit : Nat) - 1075)

/-- `m * 2 ^ q` as a quotient of two numbers. -/
def quotient (m : Nat) (q : Int) : Nat × Nat :=
  match q with
  | .ofNat k => (m * Nat.pow 2 k, 1)
  | .negSucc k => (m, Nat.pow 2 (k + 1))

/-- The quotient rounded to a whole number, a half going to the even neighbour. -/
def roundHalfEven (num den : Nat) : Nat :=
  let n := num / den
  let rest := 2 * (num % den)
  if rest < den then n
  else if den < rest then n + 1
  else n + n % 2

/-- The greatest `e` with `2 ^ e ≤ num / den`. -/
def floorLog2 (num den : Nat) : Int :=
  let e : Int := num.log2 - den.log2
  let (a, b) := quotient 1 e
  if num * b < den * a then e - 1 else e

/-- The magnitude nearest to `num / den`, a tie going to the even significand; infinity for all
that lies beyond the greatest one. -/
def nearest (num den : Nat) : Nat :=
  if num = 0 then 0
  else
    let q := max (floorLog2 num den - 52) (-1074)
    let (a, b) := quotient 1 q
    let m := roundHalfEven (num * b) (den * a)
    min ((q + 1074).toNat * leadingBit + m) infinityBits

/-- The product of two finite magnitudes, rounded. -/
def multiply (x y : Nat) : Nat :=
  let (m, p) := parts x
  let (n, q) := parts y
  let (num, den) := quotient (m * n) (p + q)
  nearest num den

/-- The quotient of two finite magnitudes, rounded. -/
def divide (x y : Nat) : Nat :=
  let (m, p) := parts x
  let (n, q) := parts y
  let (num, den) := quotient m (p - q)
  nearest num (den * n)

/-- Sign and magnitude put together. -/
def withSign (negative : Bool) (magnitude : Nat) : UInt64 :=
  UInt64.ofNat (if negative then signBit + magnitude else magnitude)

def isNegative (bits : UInt64) : Bool := signBit ≤ bits.toNat

def magnitude (bits : UInt64) : Nat := bits.toNat % signBit

/-- Neither an infinity nor a value that is no number. -/
def isFinite (bits : UInt64) : Bool := magnitude bits < infinityBits

end Binary64

end LockingDb
