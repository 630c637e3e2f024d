namespace LockingDb

inductive IsolationLevel where
  | readCommitted
  | repeatableRead
  | serializable
  deriving DecidableEq, Inhabited

namespace IsolationLevel

/-- Read locks stay until the end of the transaction, not only of the statement. -/
def holdsReadLocks : IsolationLevel → Bool
  | readCommitted => false
  | repeatableRead | serializable => true

def name : IsolationLevel → String
  | readCommitted => "ReadCommitted"
  | repeatableRead => "RepeatableRead"
  | serializable => "Serializable"

def ofName? (text : String) : Option IsolationLevel :=
  [readCommitted, repeatableRead, serializable].find? (·.name = text)

theorem ofName?_name (l : IsolationLevel) : ofName? l.name = some l := by
  cases l <;> rfl

end IsolationLevel

/-- How concurrent transactions are kept apart. Only `locks` can be run. -/
inductive ControlMode where
  | locks
  | mvcc
  | mvLocks
  deriving DecidableEq, Inhabited

namespace ControlMode

def name : ControlMode → String
  | locks => "Locks"
  | mvcc => "Mvcc"
  | mvLocks => "MvLocks"

def ofName? (text : String) : Option ControlMode :=
  [locks, mvcc, mvLocks].find? (·.name = text)

theorem ofName?_name (m : ControlMode) : ofName? m.name = some m := by
  cases m <;> rfl

end ControlMode

end LockingDb
