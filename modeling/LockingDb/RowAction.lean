import LockingDb.Storage

namespace LockingDb

/-- What a transaction has done to one row, with what is needed to take it back or to make it
final. -/
structure RowAction where
  type : ActionType
  session : SessionId
  row : RowId
  position : RowPosition
  table : TableId
  store : TableId
  timestamp : Timestamp
  committedAt : Timestamp
  rolledBackAt : Timestamp
  deriving DecidableEq, Inhabited

namespace RowAction

def ofRow (type : ActionType) (session : SessionId) (timestamp : Timestamp) (store : TableId)
    (row : Row) : RowAction :=
  ⟨type, session, row.id, row.position, row.table, store, timestamp, 0, 0⟩

def insert (session : SessionId) (timestamp : Timestamp) (store : TableId) (row : Row) :
    RowAction :=
  ofRow .insert session timestamp store row

/-- A row that its own transaction has inserted is deleted in another way. -/
def delete (session : SessionId) (timestamp : Timestamp) (store : TableId) (row : Row)
    (insertedHere : Bool) : RowAction :=
  ofRow (if insertedHere then .insertThenDelete else .delete) session timestamp store row

/-- The action was done on the row. -/
def isOn (a : RowAction) (row : Row) : Bool :=
  a.row = row.id && a.position = row.position && a.table = row.table

/-- The row of the action: the very row if somebody has it in hand, else the one that its store has
at the position. -/
def row? (a : RowAction) (s : Storage) (inHand : List Row := []) : Option Row :=
  match inHand.find? a.isOn with
  | some row => some row
  | none => s.get? a.store a.position

theorem row?_eq_get? {a : RowAction} {s : Storage} : a.row? s = s.get? a.store a.position := rfl

def commit (a : RowAction) (timestamp : Timestamp) : RowAction :=
  { a with type := a.type.committed, committedAt := timestamp }

/-- Takes a pending action on a row back; the flag says whether there was anything to undo. An
action stays pending if the store refuses. -/
def undo (a : RowAction) (row : Option Row) (timestamp : Timestamp) (s : Storage) :
    Except Failure Bool × RowAction × Storage :=
  if !a.type.isPending then (.ok false, a, s)
  else
    match row with
    | none => (.ok false, { a with type := .none }, s)
    | some row =>
      match s.call a.store (.rollback row a.type) with
      | (.error f, s) => (.error f, a, s)
      | (.ok (), s) => (.ok true, { a with type := .none, rolledBackAt := timestamp }, s)

def describe (a : RowAction) : String :=
  "RowAction \x7b type: " ++ a.type.name ++ ", session: " ++ toString a.session ++
    ", row: " ++ toString a.row ++ ", table: " ++ toString a.table ++
    ", position: " ++ toString a.position ++ ", commit_ts: " ++ toString a.committedAt ++
    ", rollback_ts: " ++ toString a.rolledBackAt ++ " \x7d"

end RowAction

end LockingDb
