import LockingDb.Coordinator

namespace LockingDb

/-- Whether a statement may go on or has to wait for its locks. -/
inductive LockAnswer where
  | proceed
  | mustWait
  deriving DecidableEq, Inhabited

namespace Coordinator

/-- Opens a transaction, unless one is open. -/
def beginTransaction (c : Coordinator) (s : SessionId) : Coordinator :=
  if (c.tx s).isOpen then c
  else
    let (now, c) := c.tick
    c.openTx s now

/-- Asks for the locks of a statement. A wait that would close a cycle is refused, and the
transaction is told to give up. -/
def beginStatement (c : Coordinator) (s : SessionId) (r : LockRequest) :
    Except Failure LockAnswer × Coordinator :=
  let c := c.updateTx s fun tx =>
    { tx with statementStart := tx.actions.length, request := some r }
  if c.abortRequested s then (.error .serializationFailure, c)
  else if (c.tx s).granted = some r then (.ok .proceed, c)
  else
    let (verdict, locks) := c.locks.acquire s r
    let c := { c with locks }
    match verdict with
    | .granted => (.ok .proceed, c.updateTx s ({ · with granted := some r }))
    | .wait _ => (.ok .mustWait, c.signal s (·.setCount 1))
    | .deadlock _ => (.error .serializationFailure, c.promote.signal s .raiseAbort)

/-- Starts a statement that has its locks, and opens a transaction for it if there is none. -/
def resumeStatement (c : Coordinator) (s : SessionId) : Except Failure Unit × Coordinator :=
  if c.abortRequested s then (.error .serializationFailure, c)
  else
    let (now, c) := c.tick
    if (c.tx s).isOpen then (.ok (), c.updateTx s ({ · with actionAt := now }))
    else (.ok (), c.openTx s now)

/-- Gives up waiting for locks. -/
def cancelWait (c : Coordinator) (s : SessionId) : Coordinator :=
  (c.withdraw s).signal s .release

/-- Keeps the actions of the running statement. -/
def completeStatement (c : Coordinator) (s : SessionId) : Coordinator :=
  (c.updateTx s fun tx => { tx with statementStart := tx.actions.length }).endStatement s

/-- Asks whether the transaction may commit; if it may, the clock moves on. -/
def prepare (c : Coordinator) (s : SessionId) : Bool × Coordinator :=
  if c.abortRequested s then (false, c)
  else
    let (now, c) := c.tick
    (true, c.updateTx s ({ · with actionAt := now }))

end Coordinator

end LockingDb
