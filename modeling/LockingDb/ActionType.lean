namespace LockingDb

/-- What a transaction has done to a row, or what became of it. -/
inductive ActionType where
  | insert
  | delete
  | insertThenDelete
  | none
  | deleteFinal
  deriving DecidableEq, Inhabited

namespace ActionType

/-- The action still waits for the end of its transaction. -/
def isPending : ActionType → Bool
  | insert | delete | insertThenDelete => true
  | none | deleteFinal => false

/-- What the action becomes when its transaction commits. -/
def committed : ActionType → ActionType
  | insert => none
  | delete | insertThenDelete => deleteFinal
  | none => none
  | deleteFinal => deleteFinal

/-- The word that stands for the action in notes about store calls. -/
def label : ActionType → String
  | insert => "INSERT"
  | delete => "DELETE"
  | insertThenDelete => "INSERT_DELETE"
  | none => "NONE"
  | deleteFinal => "DELETE_FINAL"

def name : ActionType → String
  | insert => "Insert"
  | delete => "Delete"
  | insertThenDelete => "InsertThenDelete"
  | none => "None"
  | deleteFinal => "DeleteFinal"

def ofName? (text : String) : Option ActionType :=
  [insert, delete, insertThenDelete, none, deleteFinal].find? (·.name = text)

theorem isPending_committed (a : ActionType) : a.committed.isPending = false := by
  cases a <;> rfl

theorem ofName?_name (a : ActionType) : ofName? a.name = some a := by
  cases a <;> rfl

end ActionType

end LockingDb
