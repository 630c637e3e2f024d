import LockingDb.LogRecord

namespace LockingDb

/-- A call on a transaction log. -/
inductive LogCall where
  | statement (session : SessionId) (sql : String)
  | action (session : SessionId) (type : ActionType) (row : Row)
  | commit (session : SessionId) (timestamp : Timestamp)
  | checkpoint
  deriving DecidableEq, Inhabited

namespace LogCall

/-- The entry that a call adds to the log, if any. -/
def record? : LogCall → Option LogRecord
  | statement session sql => some (.statement session sql)
  | action session type row => LogRecord.ofAction? session type row
  | commit session timestamp => some (.commit session timestamp)
  | checkpoint => some .checkpoint

/-- After these calls the entries must have reached the file. -/
def syncs : LogCall → Bool
  | commit _ _ | checkpoint => true
  | statement _ _ | action _ _ _ => false

def name : LogCall → String
  | statement _ _ => "statement"
  | action _ _ _ => "action"
  | commit _ _ => "commit"
  | checkpoint => "checkpoint"

end LogCall

end LockingDb
