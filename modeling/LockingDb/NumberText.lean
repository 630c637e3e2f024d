import LockingDb.DecimalDigits

namespace LockingDb

/-- The parts of a written number: sign, whole digits, digits after the point if there is one,
and the exponent with its sign if there is one. -/
structure NumberText where
  negative : Bool
  whole : List Digit
  fraction : List Digit
  exponent : Option (Bool × List Digit)
  deriving DecidableEq, Inhabited

namespace NumberText

def ofInt (n : Int) : NumberText := ⟨decide (n < 0), digitsOf n.natAbs, [], none⟩

/-- A number is an integer if it is written as one. Minus zero is no integer. -/
def int? (t : NumberText) : Option Int :=
  if t.fraction.isEmpty && t.exponent.isNone then
    match t.negative, ofDigits t.whole with
    | false, n => some n
    | true, 0 => none
    | true, n + 1 => some (Int.negSucc n)
  else none

def render (t : NumberText) : List Char :=
  (if t.negative then ['-'] else []) ++ t.whole.map Digit.char ++
  (if t.fraction.isEmpty then [] else '.' :: t.fraction.map Digit.char) ++
  match t.exponent with
  | none => []
  | some (negative, ds) => 'e' :: (if negative then '-' else '+') :: ds.map Digit.char

/-- A whole part has a digit, and a zero at its head stands alone. -/
def wholeOk : List Digit → Bool
  | [] => false
  | [_] => true
  | d :: _ :: _ => d != 0

def readFraction : List Char → Option (List Digit × List Char)
  | '.' :: rest =>
    match takeDigits rest with
    | ([], _) => none
    | (ds, rest) => some (ds, rest)
  | cs => some ([], cs)

/-- The digits of an exponent, of which there is at least one. -/
def readExponentDigits (negative : Bool) (cs : List Char) :
    Option (Option (Bool × List Digit) × List Char) :=
  match takeDigits cs with
  | ([], _) => none
  | (ds, rest) => some (some (negative, ds), rest)

def readExponent : List Char → Option (Option (Bool × List Digit) × List Char)
  | c :: rest =>
    if c = 'e' ∨ c = 'E' then
      match rest with
      | '-' :: rest => readExponentDigits true rest
      | '+' :: rest => readExponentDigits false rest
      | rest => readExponentDigits false rest
    else some (none, c :: rest)
  | [] => some (none, [])

def readSign : List Char → Bool × List Char
  | '-' :: rest => (true, rest)
  | cs => (false, cs)

/-- Reads the longest number at the head of a text. -/
def read (cs : List Char) : Option (NumberText × List Char) := do
  let (negative, cs) := readSign cs
  let (whole, cs) := takeDigits cs
  if wholeOk whole then
    let (fraction, cs) ← readFraction cs
    let (exponent, cs) ← readExponent cs
    some (⟨negative, whole, fraction, exponent⟩, cs)
  else none

theorem int?_ofInt (n : Int) : (ofInt n).int? = some n := by
  rcases n with n | n
  · have h : decide ((n : Int) < 0) = false := decide_eq_false (by omega)
    simp [ofInt, int?, ofDigits_digitsOf, h]
  · simp [ofInt, int?, ofDigits_digitsOf, Int.negSucc_lt_zero]

end NumberText

end LockingDb
