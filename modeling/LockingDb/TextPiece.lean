namespace LockingDb

/-- One piece of a quoted string as it is written. -/
inductive TextPiece where
  | plain (c : Char)
  /-- A backslash and one character. -/
  | short (c : Char)
  /-- A backslash, `u` and the four hexadecimal digits of a code unit. -/
  | unit (code : Nat)
  deriving DecidableEq, Inhabited

namespace TextPiece

/-- What a backslash and one character stand for. -/
def shortMeaning? : Char → Option Char
  | '"' => some '"'
  | '\\' => some '\\'
  | '/' => some '/'
  | 'b' => some '\x08'
  | 'f' => some '\x0c'
  | 'n' => some '\n'
  | 'r' => some '\r'
  | 't' => some '\t'
  | _ => none

/-- How a character is written: quotes, backslashes and control characters are escaped, by one
character where there is one for them. -/
def ofChar : Char → TextPiece
  | '"' => short '"'
  | '\\' => short '\\'
  | '\x08' => short 'b'
  | '\x0c' => short 'f'
  | '\n' => short 'n'
  | '\r' => short 'r'
  | '\t' => short 't'
  | c => if c.toNat < 32 then unit c.toNat else plain c

def hexChar (n : Nat) : Char := if n < 10 then Char.ofNat (48 + n) else Char.ofNat (87 + n)

def hexDigit? (c : Char) : Option Nat :=
  if '0' ≤ c ∧ c ≤ '9' then some (c.toNat - 48)
  else if 'a' ≤ c ∧ c ≤ 'f' then some (c.toNat - 87)
  else if 'A' ≤ c ∧ c ≤ 'F' then some (c.toNat - 55)
  else none

def render : TextPiece → List Char
  | plain c => [c]
  | short c => ['\\', c]
  | unit n =>
    ['\\', 'u', hexChar (n / 4096 % 16), hexChar (n / 256 % 16), hexChar (n / 16 % 16),
      hexChar (n % 16)]

def hexUnit? (a b c d : Char) : Option Nat := do
  let a ← hexDigit? a
  let b ← hexDigit? b
  let c ← hexDigit? c
  let d ← hexDigit? d
  some (4096 * a + 256 * b + 16 * c + d)

/-- Reads the pieces of a string up to its closing quote. -/
def readAll : List Char → Option (List TextPiece × List Char)
  | [] => none
  | '"' :: rest => some ([], rest)
  | '\\' :: 'u' :: a :: b :: c :: d :: rest => do
    let n ← hexUnit? a b c d
    let (pieces, rest) ← readAll rest
    some (unit n :: pieces, rest)
  | '\\' :: c :: rest => do
    let _ ← shortMeaning? c
    let (pieces, rest) ← readAll rest
    some (short c :: pieces, rest)
  | c :: rest => do
    if c.toNat < 32 then none
    let (pieces, rest) ← readAll rest
    some (plain c :: pieces, rest)

def isHighSurrogate (n : Nat) : Bool := 0xD800 ≤ n && n < 0xDC00

def isLowSurrogate (n : Nat) : Bool := 0xDC00 ≤ n && n < 0xE000

/-- The text that pieces stand for. Code units beyond the basic plane come in pairs; a half of a
pair alone stands for nothing. -/
def meaning? : List TextPiece → Option (List Char)
  | [] => some []
  | plain c :: rest => (meaning? rest).map (c :: ·)
  | short c :: rest => do
    let c ← shortMeaning? c
    (meaning? rest).map (c :: ·)
  | unit high :: unit low :: rest =>
    if isHighSurrogate high then
      if isLowSurrogate low then
        let code := 0x10000 + (high - 0xD800) * 0x400 + (low - 0xDC00)
        (meaning? rest).map (Char.ofNat code :: ·)
      else none
    else if isLowSurrogate high then none
    else (meaning? (unit low :: rest)).map (Char.ofNat high :: ·)
  | unit n :: rest =>
    if isHighSurrogate n || isLowSurrogate n then none
    else (meaning? rest).map (Char.ofNat n :: ·)

end TextPiece

end LockingDb
