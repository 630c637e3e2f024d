import LockingDb.RowStore

namespace LockingDb

/-- A call that changes a row store. -/
inductive StoreCall where
  | index (row : Row)
  | delete (row : Row)
  | rollback (row : Row) (type : ActionType)
  | commit (row : Row) (type : ActionType)
  deriving DecidableEq, Inhabited

namespace StoreCall

def row : StoreCall → Row
  | index row | delete row | rollback row _ | commit row _ => row

def name : StoreCall → String
  | index _ => "index"
  | delete _ => "delete"
  | rollback _ _ => "rollback"
  | commit _ _ => "commit"

def place (c : StoreCall) : String :=
  "t" ++ toString c.row.table ++ " p" ++ toString c.row.position

/-- How a call is noted; only the calls that end an action are. -/
def note? : StoreCall → Option String
  | index _ | delete _ => none
  | c@(rollback _ type) => some ("rollback " ++ type.label ++ " " ++ c.place)
  | c@(commit _ type) => some ("commit " ++ type.label ++ " " ++ c.place)

/-- What a store says that refuses the call. -/
def refusal (c : StoreCall) : Failure := .io (c.name ++ " " ++ c.place ++ " failed")

end StoreCall

def RowStore.perform (s : RowStore) : StoreCall → Except Failure RowStore
  | .index row => s.indexRow row
  | .delete row => s.delete row
  | .rollback row type => s.rollbackRow row type
  | .commit row type => s.commitRow row type

end LockingDb
