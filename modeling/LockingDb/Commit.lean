import LockingDb.Undo

namespace LockingDb

namespace Coordinator

/-- Writes down the actions whose rows are still there, except those of `transient` rows, which the
transaction has inserted and deleted again. -/
def persistActions (s : SessionId) (transient : List RowId) (storage : Storage)
    (actions : List RowAction) (j : Journal) (inHand : List Row := []) :
    Except Failure Unit × Journal :=
  match actions with
  | [] => (.ok (), j)
  | a :: rest =>
    if transient.contains a.row then persistActions s transient storage rest j inHand
    else
      match a.row? storage inHand with
      | none => persistActions s transient storage rest j inHand
      | some row =>
        match j.write (.action s a.type row) with
        | (.error f, j) => (.error f, j)
        | (.ok (), j) => persistActions s transient storage rest j inHand

/-- Writes a transaction down; one without actions leaves nothing in the log. -/
def persist (s : SessionId) (now : Timestamp) (actions : List RowAction) (storage : Storage)
    (j : Journal) (inHand : List Row := []) : Except Failure Unit × Journal :=
  if actions.isEmpty then (.ok (), j)
  else
    let transient := (actions.filter (·.type = .insertThenDelete)).map RowAction.row
    match persistActions s transient storage actions j inHand with
    | (.error f, j) => (.error f, j)
    | (.ok (), j) => j.write (.commit s now)

/-- Makes the actions final in the order of the log. A failure does not stop the rest; the first one
is answered. -/
def finalizeAll (now : Timestamp) (actions : List RowAction) (s : Storage)
    (inHand : List Row := []) : Option Failure × Storage :=
  match actions with
  | [] => (none, s)
  | a :: rest =>
    match a.row? s inHand with
    | none => finalizeAll now rest s inHand
    | some row =>
      match s.call a.store (.commit row (a.commit now).type) with
      | (.ok (), s) => finalizeAll now rest s inHand
      | (.error f, s) => (some f, (finalizeAll now rest s inHand).2)

/-- Commits the transaction of a session, unless it was told to give up. If the log fails all is
rolled back; once the log has the commit, a store that fails does not keep the locks from being
released. -/
def commit (c : Coordinator) (s : SessionId) (inHand : List Row := []) :
    Except Failure Bool × Coordinator :=
  if c.abortRequested s then (.ok false, c)
  else
    let (now, c) := c.tick
    let tx := c.tx s
    match persist s now tx.actions c.storage c.journal inHand with
    | (.error f, journal) =>
      (.error (.fatalStore f.message), { c with journal }.rollback s inHand)
    | (.ok (), journal) =>
      let (failed, storage) := finalizeAll now tx.actions c.storage inHand
      let c := (({ c with journal }.withCalls s storage).endTx s tx.touchedRows).closeTx s now
      match failed with
      | none => (.ok true, c)
      | some f =>
        (.error (.fatalStore ("transaction committed at " ++ toString now ++
          " but a row was not finalized: " ++ f.message)), c)

end Coordinator

end LockingDb
