namespace LockingDb

abbrev Digit := Fin 10

namespace Digit

def zero : Digit := ⟨0, by decide⟩

def char (d : Digit) : Char := Char.ofNat (48 + d.val)

def ofChar? (c : Char) : Option Digit :=
  if h : 48 ≤ c.toNat ∧ c.toNat ≤ 57 then some ⟨c.toNat - 48, by omega⟩ else none

theorem ofChar?_char (d : Digit) : ofChar? d.char = some d := by
  revert d
  decide

end Digit

/-- The decimal digits of `n`, least significant first. -/
def lowDigits : Nat → Nat → List Digit
  | 0, _ => []
  | room + 1, n =>
    if h : n < 10 then [⟨n, h⟩]
    else ⟨n % 10, Nat.mod_lt _ (by decide)⟩ :: lowDigits room (n / 10)

/-- The decimal digits of `n`, most significant first, without leading zeros. -/
def digitsOf (n : Nat) : List Digit := (lowDigits (n + 1) n).reverse

/-- The number that a row of digits stands for. -/
def ofDigits (ds : List Digit) : Nat := ds.foldl (fun n d => 10 * n + d.val) 0

theorem ofDigits_append_singleton (ds : List Digit) (d : Digit) :
    ofDigits (ds ++ [d]) = 10 * ofDigits ds + d.val := by
  simp [ofDigits]

theorem ofDigits_reverse_lowDigits {room n : Nat} (h : n < room) :
    ofDigits (lowDigits room n).reverse = n := by
  induction room generalizing n with
  | zero =>
    have : n = 0 := by omega
    subst this
    rfl
  | succ room ih =>
    unfold lowDigits
    split
    · simp [ofDigits]
    next h10 =>
      have hq : n / 10 < room := by omega
      rw [List.reverse_cons, ofDigits_append_singleton, ih hq]
      simp only
      omega

theorem ofDigits_digitsOf (n : Nat) : ofDigits (digitsOf n) = n :=
  ofDigits_reverse_lowDigits (Nat.lt_succ_self n)

/-- Splits off the digits at the head of a text. -/
def takeDigits : List Char → List Digit × List Char
  | [] => ([], [])
  | c :: rest =>
    match Digit.ofChar? c with
    | some d =>
      let (ds, rest) := takeDigits rest
      (d :: ds, rest)
    | none => ([], c :: rest)

theorem takeDigits_append {ds : List Digit} {rest : List Char}
    (h : ∀ c ∈ rest.head?, Digit.ofChar? c = none) :
    takeDigits (ds.map Digit.char ++ rest) = (ds, rest) := by
  induction ds with
  | nil =>
    cases rest with
    | nil => rfl
    | cons c rest => simp [takeDigits, h c (by simp)]
  | cons d ds ih => simp [takeDigits, Digit.ofChar?_char, ih]

end LockingDb
