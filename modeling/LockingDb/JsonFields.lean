import LockingDb.JsonTree

namespace LockingDb

namespace JsonTree

/-- The text of a written string, if its escapes stand for characters. -/
def textOf? (pieces : List TextPiece) : Option String :=
  (TextPiece.meaning? pieces).map String.ofList

def string? : JsonTree → Option String
  | string pieces => textOf? pieces
  | _ => none

def bool? : JsonTree → Option Bool
  | bool b => some b
  | _ => none

/-- An integer `n` with `low ≤ n < high`. -/
def int? (low high : Int) : JsonTree → Option Int
  | number text => do
    let n ← text.int?
    if low ≤ n ∧ n < high then some n else none
  | _ => none

/-- A number below `limit`. -/
def nat? (limit : Nat) (tree : JsonTree) : Option Nat := (tree.int? 0 limit).map Int.toNat

def list? {α : Type} (item? : JsonTree → Option α) : JsonTree → Option (List α)
  | array items => items.mapM item?
  | _ => none

def nullable? {α : Type} (item? : JsonTree → Option α) : JsonTree → Option (Option α)
  | null => some none
  | tree => (item? tree).map some

/-- The field of a name, which may be missing but not stand twice. -/
def field? (fields : List (String × JsonTree)) (name : String) : Option (Option JsonTree) :=
  match fields.filter (·.1 = name) with
  | [] => some none
  | [(_, tree)] => some (some tree)
  | _ => none

/-- The fields of a record in the order of `names`. A record is an object, in which other fields are
skipped unless it is `closed`, or an array of exactly its fields. -/
def record? (names : List String) (closed : Bool) : JsonTree → Option (List (Option JsonTree))
  | object fields => do
    let fields ← fields.mapM fun (key, tree) => (textOf? key).map (·, tree)
    if closed && fields.any (fun (key, _) => !names.contains key) then none
    else names.mapM (field? fields)
  | array items => if items.length = names.length then some (items.map some) else none
  | _ => none

/-- The name of a variant and what belongs to it: a string, or an object with a single key. -/
def variant? : JsonTree → Option (String × Option JsonTree)
  | string pieces => (textOf? pieces).map (·, none)
  | object [(key, tree)] => (textOf? key).map (·, some tree)
  | _ => none

/-- The name of a variant to which nothing belongs. -/
def bareVariant? (tree : JsonTree) : Option String :=
  match tree.variant? with
  | some (name, none) => some name
  | some (name, some null) => some name
  | _ => none

end JsonTree

end LockingDb
