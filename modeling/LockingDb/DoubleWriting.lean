import LockingDb.NumberText
import LockingDb.ShortestDecimal

namespace LockingDb

namespace DoubleWriting

def dropTrailingZeros (ds : List Digit) : List Digit :=
  (ds.reverse.dropWhile (· = Digit.zero)).reverse

/-- How the digits of a number are laid out when the first one counts `10 ^ d`: with a point
for `-5 ≤ d < 16`, else with one digit before the point and a signed exponent. -/
def layOut (negative : Bool) (ds : List Digit) (d : Int) : NumberText :=
  if -5 ≤ d ∧ d < 0 then
    ⟨negative, [.zero], List.replicate (-d - 1).toNat .zero ++ ds, none⟩
  else if 0 ≤ d ∧ d < 16 then
    let whole := d.toNat + 1
    let fraction := ds.drop whole
    ⟨negative, ds.take whole ++ List.replicate (whole - ds.length) .zero,
      if fraction.isEmpty then [.zero] else fraction, none⟩
  else ⟨negative, ds.take 1, ds.drop 1, some (decide (d < 0), digitsOf d.natAbs)⟩

/-- The text of a finite double; infinities and what is no number have none. What is proved of stored
doubles rests on the digits that the encoder of the log chooses, on where it turns to exponents, and
on its keeping the sign of zero. How it spells exponents, as in `1e+16` and `1e-6`, matters to the text
only. -/
def text? (bits : UInt64) : Option NumberText :=
  let negative := Binary64.isNegative bits
  let magnitude := Binary64.magnitude bits
  if magnitude = 0 then some ⟨negative, [.zero], [.zero], none⟩
  else if Binary64.isFinite bits then
    let (c, e) := ShortestDecimal.ofMagnitude magnitude
    let ds := digitsOf c
    some (layOut negative (dropTrailingZeros ds) (e + ds.length - 1))
  else none

end DoubleWriting

end LockingDb
