import LockingDb.DoubleReading
import LockingDb.DoubleWriting
import LockingDb.Failure
import LockingDb.JsonFields
import LockingDb.Value

namespace LockingDb

namespace Value

/-- The stored form of a value. Infinities and what is no number have no text and become `null`. -/
def toTree : Value → JsonTree
  | null => .ofString "Null"
  | boolean b => .record [("Boolean", .bool b)]
  | integer n => .record [("Integer", .ofInt n.toInt)]
  | bigInt n => .record [("BigInt", .ofInt n.toInt)]
  | double bits =>
    .record [("Double", match DoubleWriting.text? bits with
      | some text => .number text
      | none => .null)]
  | varchar text => .record [("Varchar", .ofString text)]
  | blob bytes => .record [("Blob", .array (bytes.map fun b => .ofNat b.toNat))]

def doubleOfTree? : JsonTree → Option UInt64
  | .number text => DoubleReading.bits? text
  | _ => none

/-- Reads a stored value. -/
def ofTree? (tree : JsonTree) : Option Value := do
  match ← tree.variant? with
  | ("Null", none) => some null
  | ("Null", some .null) => some null
  | ("Boolean", some tree) => tree.bool?.map boolean
  | ("Integer", some tree) => (tree.int? (-0x80000000) 0x80000000).map (integer ∘ Int32.ofInt)
  | ("BigInt", some tree) =>
    (tree.int? (-0x8000000000000000) 0x8000000000000000).map (bigInt ∘ Int64.ofInt)
  | ("Double", some tree) => (doubleOfTree? tree).map double
  | ("Varchar", some tree) => tree.string?.map varchar
  | ("Blob", some tree) => (tree.list? (·.nat? 256)).map (blob ∘ List.map UInt8.ofNat)
  | _ => none

def render (v : Value) : String := String.ofList v.toTree.render

/-- Writes a list of values. -/
def renderList (vs : List Value) : String :=
  String.ofList (JsonTree.array (vs.map toTree)).render

/-- Reads a list of values. -/
def parseList? (text : String) : Except Failure (List Value) :=
  match (JsonTree.parse? text.toList).bind (·.list? ofTree?) with
  | some vs => .ok vs
  | none => .error .malformedText

end Value

end LockingDb
