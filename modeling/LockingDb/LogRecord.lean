import LockingDb.ActionType
import LockingDb.Row
import LockingDb.StoredValue

namespace LockingDb

/-- An entry of the transaction log. -/
inductive LogRecord where
  | statement (session : SessionId) (sql : String)
  | insert (session : SessionId) (table : TableId) (position : RowPosition) (values : List Value)
  | delete (session : SessionId) (table : TableId) (position : RowPosition)
  | commit (session : SessionId) (timestamp : Timestamp)
  | checkpoint
  deriving DecidableEq, Inhabited

namespace LogRecord

/-- The entry for an action on a row. A row that its own transaction deletes again leaves nothing
to replay. -/
def ofAction? (session : SessionId) (type : ActionType) (row : Row) : Option LogRecord :=
  match type with
  | .insert => some (insert session row.table row.position row.values)
  | .delete => some (delete session row.table row.position)
  | .insertThenDelete | .none | .deleteFinal => none

def toTree : LogRecord → JsonTree
  | statement session sql =>
    .record [("Statement", .record [("session", .ofNat session), ("sql", .ofString sql)])]
  | insert session table position values =>
    .record [("Insert", .record [("session", .ofNat session), ("table", .ofNat table),
      ("position", .ofNat position), ("values", .array (values.map Value.toTree))])]
  | delete session table position =>
    .record [("Delete", .record [("session", .ofNat session), ("table", .ofNat table),
      ("position", .ofNat position)])]
  | commit session timestamp =>
    .record [("Commit", .record [("session", .ofNat session), ("timestamp", .ofNat timestamp)])]
  | checkpoint => .ofString "Checkpoint"

/-- A number that fits in 64 bits. -/
def count? (tree : JsonTree) : Option Nat := tree.nat? UInt64.size

def statementOfTree? (tree : JsonTree) : Option LogRecord := do
  match ← tree.record? ["session", "sql"] false with
  | [some session, some sql] => some (statement (← count? session) (← sql.string?))
  | _ => none

def insertOfTree? (tree : JsonTree) : Option LogRecord := do
  match ← tree.record? ["session", "table", "position", "values"] false with
  | [some session, some table, some position, some values] =>
    some (insert (← count? session) (← count? table) (← count? position)
      (← values.list? Value.ofTree?))
  | _ => none

def deleteOfTree? (tree : JsonTree) : Option LogRecord := do
  match ← tree.record? ["session", "table", "position"] false with
  | [some session, some table, some position] =>
    some (delete (← count? session) (← count? table) (← count? position))
  | _ => none

def commitOfTree? (tree : JsonTree) : Option LogRecord := do
  match ← tree.record? ["session", "timestamp"] false with
  | [some session, some timestamp] => some (commit (← count? session) (← count? timestamp))
  | _ => none

def ofTree? (tree : JsonTree) : Option LogRecord := do
  match ← tree.variant? with
  | ("Statement", some tree) => statementOfTree? tree
  | ("Insert", some tree) => insertOfTree? tree
  | ("Delete", some tree) => deleteOfTree? tree
  | ("Commit", some tree) => commitOfTree? tree
  | ("Checkpoint", none) => some checkpoint
  | ("Checkpoint", some .null) => some checkpoint
  | _ => none

def parse? (text : List Char) : Option LogRecord := (JsonTree.parse? text).bind ofTree?

/-- An entry as it stands in a log file, on a line of its own. -/
def line (r : LogRecord) : List Char := r.toTree.render ++ ['\n']

end LogRecord

end LockingDb
