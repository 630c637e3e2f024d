import LockingDb.NumberText
import LockingDb.TextPiece

namespace LockingDb

/-- The syntax of a stored text: numbers and strings are kept as they are written, so a part that
nobody uses is checked for its form only. -/
inductive JsonTree where
  | null
  | bool (b : Bool)
  | number (text : NumberText)
  | string (pieces : List TextPiece)
  | array (items : List JsonTree)
  | object (fields : List (List TextPiece × JsonTree))
  deriving Inhabited

namespace JsonTree

def ofString (text : String) : JsonTree := string (text.toList.map TextPiece.ofChar)

def ofInt (n : Int) : JsonTree := number (.ofInt n)

def ofNat (n : Nat) : JsonTree := ofInt n

/-- An object with fields in the given order. -/
def record (fields : List (String × JsonTree)) : JsonTree :=
  object (fields.map fun (key, tree) => (key.toList.map TextPiece.ofChar, tree))

def renderString (pieces : List TextPiece) : List Char :=
  '"' :: (pieces.flatMap TextPiece.render ++ ['"'])

mutual

/-- Writes a tree without any blanks. -/
def render : JsonTree → List Char
  | null => ['n', 'u', 'l', 'l']
  | bool true => ['t', 'r', 'u', 'e']
  | bool false => ['f', 'a', 'l', 's', 'e']
  | number text => text.render
  | string pieces => renderString pieces
  | array [] => ['[', ']']
  | array (item :: items) => '[' :: (item.render ++ renderItems items)
  | object [] => ['\x7b', '\x7d']
  | object ((key, tree) :: fields) =>
    '\x7b' :: (renderString key ++ ':' :: (tree.render ++ renderFields fields))

def renderItems : List JsonTree → List Char
  | [] => [']']
  | item :: items => ',' :: (item.render ++ renderItems items)

def renderFields : List (List TextPiece × JsonTree) → List Char
  | [] => ['\x7d']
  | (key, tree) :: fields =>
    ',' :: (renderString key ++ ':' :: (tree.render ++ renderFields fields))

end

def isBlank (c : Char) : Bool := c = ' ' || c = '\n' || c = '\t' || c = '\r'

def skipBlanks (cs : List Char) : List Char := cs.dropWhile isBlank

mutual

/-- Reads a tree at the head of a text. The first argument bounds the nesting and the lengths. -/
def readTree : Nat → List Char → Option (JsonTree × List Char)
  | 0, _ => none
  | room + 1, cs =>
    match skipBlanks cs with
    | 'n' :: 'u' :: 'l' :: 'l' :: rest => some (null, rest)
    | 't' :: 'r' :: 'u' :: 'e' :: rest => some (bool true, rest)
    | 'f' :: 'a' :: 'l' :: 's' :: 'e' :: rest => some (bool false, rest)
    | '"' :: rest => do
      let (pieces, rest) ← TextPiece.readAll rest
      some (string pieces, rest)
    | '[' :: rest =>
      match skipBlanks rest with
      | ']' :: rest => some (array [], rest)
      | rest => do
        let (items, rest) ← readItems room rest
        some (array items, rest)
    | '\x7b' :: rest =>
      match skipBlanks rest with
      | '\x7d' :: rest => some (object [], rest)
      | rest => do
        let (fields, rest) ← readFields room rest
        some (object fields, rest)
    | cs => do
      let (text, rest) ← NumberText.read cs
      some (number text, rest)

/-- Reads one or more items and the bracket after them. -/
def readItems : Nat → List Char → Option (List JsonTree × List Char)
  | 0, _ => none
  | room + 1, cs => do
    let (item, rest) ← readTree room cs
    match skipBlanks rest with
    | ',' :: rest =>
      let (items, rest) ← readItems room rest
      some (item :: items, rest)
    | ']' :: rest => some ([item], rest)
    | _ => none

/-- Reads one or more fields and the brace after them. -/
def readFields : Nat → List Char → Option (List (List TextPiece × JsonTree) × List Char)
  | 0, _ => none
  | room + 1, cs =>
    match skipBlanks cs with
    | '"' :: rest => do
      let (key, rest) ← TextPiece.readAll rest
      match skipBlanks rest with
      | ':' :: rest =>
        let (tree, rest) ← readTree room rest
        match skipBlanks rest with
        | ',' :: rest =>
          let (fields, rest) ← readFields room rest
          some ((key, tree) :: fields, rest)
        | '\x7d' :: rest => some ([(key, tree)], rest)
        | _ => none
      | _ => none
    | _ => none

end

/-- The tree of a whole text; only blanks may follow it. -/
def parse? (cs : List Char) : Option JsonTree := do
  let (tree, rest) ← readTree (2 * cs.length + 2) cs
  if (skipBlanks rest).isEmpty then some tree else none

end JsonTree

end LockingDb
