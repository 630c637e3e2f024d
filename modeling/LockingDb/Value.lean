namespace LockingDb

/-- A value of a row. A double is kept as its 64 IEEE-754 bits. -/
inductive Value where
  | null
  | boolean (b : Bool)
  | integer (n : Int32)
  | bigInt (n : Int64)
  | double (bits : UInt64)
  | varchar (text : String)
  | blob (bytes : List UInt8)
  deriving DecidableEq, Inhabited

namespace Value

/-- Either zero, of the two signs. -/
def isZeroBits (bits : UInt64) : Bool := bits <<< 1 == 0

/-- The number that an integer of either width holds. -/
def asInt? : Value → Option Int
  | integer n => some n.toInt
  | bigInt n => some n.toInt
  | _ => none

/-- Rows stay comparable after a round trip: integers compare across widths, a double equals
itself even if it is no number, and the two zeros are one. -/
def sameAs : Value → Value → Bool
  | null, null => true
  | boolean a, boolean b => a == b
  | integer a, integer b => a.toInt == b.toInt
  | bigInt a, bigInt b => a.toInt == b.toInt
  | integer a, bigInt b => a.toInt == b.toInt
  | bigInt a, integer b => a.toInt == b.toInt
  | double a, double b => a == b || (isZeroBits a && isZeroBits b)
  | varchar a, varchar b => a == b
  | blob a, blob b => a == b
  | _, _ => false

end Value

end LockingDb
