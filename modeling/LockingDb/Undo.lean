import LockingDb.Coordinator

namespace LockingDb

namespace Coordinator

/-- Takes actions back one after another, while somebody has the rows of `inHand` in hand. One that a
store refuses is passed over. -/
def undoAll (now : Timestamp) (actions : List RowAction) (s : Storage) (inHand : List Row := []) :
    Storage :=
  match actions with
  | [] => s
  | a :: rest => undoAll now rest (a.undo (a.row? s inHand) now s).2.2 inHand

/-- Cuts the log of a session off at `start` and takes the actions cut off back, the newest first.
Answers the rows that no action is left on. -/
def undoTo (c : Coordinator) (s : SessionId) (start : Nat) (now : Timestamp)
    (inHand : List Row := []) : List RowId × Coordinator :=
  let (undone, tx) := (c.tx s).truncateActions start
  let c := (c.setTx s tx).withCalls s (undoAll now undone.reverse c.storage inHand)
  (((IdSet.ofList (undone.map RowAction.row)).filter (!tx.hasRowActions ·)).toList, c)

/-- Takes the actions of the running statement back. -/
def rollbackStatement (c : Coordinator) (s : SessionId) (inHand : List Row := []) : Coordinator :=
  let tx := c.tx s
  let (rows, c) := c.undoTo s tx.statementStart tx.actionAt inHand
  (c.releaseRows rows).endStatement s

/-- Takes a whole transaction back and ends it. What is taken back is traced with the locks that are
released afterwards. -/
def rollback (c : Coordinator) (s : SessionId) (inHand : List Row := []) : Coordinator :=
  let c := c.signal s fun g => g.clearAbort.takeRedo.2
  let (now, c) := c.tick
  let (rows, c) := c.undoTo s 0 now inHand
  let c := c.endTx s rows
  (c.signal s .release).closeTx s now

/-- Takes the actions after a savepoint back. The savepoint itself stays, later ones go. -/
def rollbackToIndex (c : Coordinator) (s : SessionId) (i : Nat) (inHand : List Row := []) :
    Except Failure Unit × Coordinator :=
  match (c.tx s).savepoints[i]? with
  | none => (.error (.savepointNotFound ("#" ++ toString i)), c)
  | some savepoint =>
    let (rows, c) := c.undoTo s savepoint.logLength savepoint.timestamp inHand
    let c := c.updateTx s (·.truncateSavepoints (i + 1))
    (.ok (), c.releaseRows rows)

def rollbackToSavepoint (c : Coordinator) (s : SessionId) (name : String)
    (inHand : List Row := []) : Except Failure Unit × Coordinator :=
  match (c.tx s).savepointIndex? name with
  | none => (.error (.savepointNotFound name), c)
  | some i => c.rollbackToIndex s i inHand

/-- A session leaves; what it has open is rolled back. -/
def unregister (c : Coordinator) (s : SessionId) (inHand : List Row := []) : Coordinator :=
  let c := if (c.tx s).isOpen || !(c.locks.locksOf s).isEmpty then c.rollback s inHand else c
  let c := c.withdraw s
  { c with registered := c.registered.erase s }

end Coordinator

end LockingDb
