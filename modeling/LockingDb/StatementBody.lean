import LockingDb.LockRequest
import LockingDb.Failure
import LockingDb.Row

namespace LockingDb

/-- What a statement answers. -/
structure StatementResult where
  updateCount : Nat
  rows : List (List Value)
  deriving DecidableEq, Inhabited

def StatementResult.rowCount (r : StatementResult) : Nat := r.rows.length

/-- The work of a statement, step by step. Each step goes on with its answer, so a body may look at
a failure and decide what to do about it. -/
inductive StatementBody where
  | done (result : StatementResult)
  | fail (error : Failure)
  | sessionId (next : SessionId → StatementBody)
  /-- Asks for the whole statement to be run again. -/
  | requestRedo (next : StatementBody)
  /-- Tells the session's own transaction to give up. -/
  | raiseAbort (next : StatementBody)
  | scan (table : TableId) (next : Except Failure (List Row) → StatementBody)
  | insert (table : TableId) (values : List Value)
      (next : Except Failure RowPosition → StatementBody)
  | delete (table : TableId) (position : RowPosition) (next : Except Failure Unit → StatementBody)
  | deleteWhere (table : TableId) (test : Row → Bool) (next : Except Failure Nat → StatementBody)

instance : Inhabited StatementBody := ⟨.done default⟩

/-- Replaces a row: the old one is deleted and a new one inserted. -/
def StatementBody.update (table : TableId) (position : RowPosition) (values : List Value)
    (next : Except Failure RowPosition → StatementBody) : StatementBody :=
  .delete table position fun
    | .ok () => .insert table values next
    | .error f => next (.error f)

/-- A statement: the locks it needs, and its body for each run, counted from 1. -/
structure Statement where
  request : LockRequest
  body : Nat → StatementBody

instance : Inhabited Statement := ⟨default, fun _ => default⟩

end LockingDb
