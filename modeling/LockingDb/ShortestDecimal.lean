import LockingDb.Binary64

namespace LockingDb

namespace ShortestDecimal

/-- `c * 10 ^ e` compared with the quotient `num / den`: numerators over one denominator. -/
def common (c : Nat) (e : Int) (num den : Nat) : Nat × Nat :=
  match e with
  | .ofNat k => (c * Nat.pow 10 k * den, num)
  | .negSucc k => (c * den, num * Nat.pow 10 (k + 1))

/-- The reals that round to `m * 2 ^ q`, in units of `2 ^ (q - 2)`. The ends belong to it if `m`
is even. -/
def interval (m : Nat) (q : Int) : Nat × Nat :=
  (if m = Binary64.leadingBit ∧ -1074 < q then 4 * m - 1 else 4 * m - 2, 4 * m + 2)

/-- `c * 10 ^ e` reads back as `m * 2 ^ q`. -/
def readsBack (m : Nat) (q : Int) (c : Nat) (e : Int) : Bool :=
  let (low, high) := interval m q
  let (lowNum, lowDen) := Binary64.quotient low (q - 2)
  let (highNum, highDen) := Binary64.quotient high (q - 2)
  let (cl, l) := common c e lowNum lowDen
  let (ch, h) := common c e highNum highDen
  if m % 2 = 0 then l ≤ cl && ch ≤ h else l < cl && ch < h

/-- The greatest `d` with `10 ^ d ≤ num / den`, found by steps of one from a low guess. -/
def climb (num den : Nat) : Nat → Int → Int
  | 0, d => d
  | steps + 1, d =>
    let (t, n) := common 1 (d + 1) num den
    if t ≤ n then climb num den steps (d + 1) else d

def floorLog10 (num den : Nat) : Int :=
  let guess := Binary64.floorLog2 num den * 30103 / 100000 - 1
  climb num den 3 guess

/-- The better of the two neighbours of `num / den` on the grid of `10 ^ e`, if one reads back; the
nearer one, of two equally near the even one. -/
def onGrid? (m : Nat) (q : Int) (num den : Nat) (e : Int) : Option Nat :=
  let (step, value) := common 1 e num den
  let below := value / step
  let above := below + 1
  match readsBack m q below e, readsBack m q above e with
  | true, false => some below
  | false, true => some above
  | true, true => some (Binary64.roundHalfEven value step)
  | false, false => none

/-- Tries ever finer grids, from one significant digit on. -/
def search (m : Nat) (q : Int) (num den : Nat) : Nat → Int → Nat × Int
  | 0, e => (Binary64.roundHalfEven num den, e)
  | steps + 1, e =>
    match onGrid? m q num den e with
    | some c => (c, e)
    | none => search m q num den steps (e - 1)

/-- Significand and power of ten of the shortest decimal that reads back as a positive finite
magnitude, of several the nearest one. Seventeen digits are always enough. A decimal reads back here if
the magnitude is the double nearest to it. The encoder of the log chooses these digits, and what is
proved of stored doubles rests on that: there are at most seventeen of them, and they lie in the
interval that rounds to the magnitude. -/
def ofMagnitude (bits : Nat) : Nat × Int :=
  let (m, q) := Binary64.parts bits
  let (num, den) := Binary64.quotient m q
  search m q num den 17 (floorLog10 num den)

end ShortestDecimal

end LockingDb
