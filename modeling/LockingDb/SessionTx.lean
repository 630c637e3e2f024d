import LockingDb.LockRequest
import LockingDb.RowAction
import LockingDb.Signals

namespace LockingDb

structure Savepoint where
  name : String
  logLength : Nat
  timestamp : Timestamp
  deriving DecidableEq, Inhabited

/-- The transaction state of a session. `actions` is its log, oldest first, and `rowIndex` lists
for each row the places of its actions in the log. `statementStart` is the length of the log when
the running statement began. -/
structure SessionTx where
  id : SessionId
  signals : Signals
  isolation : IsolationLevel
  isolationDefault : IsolationLevel
  readOnly : Bool
  readOnlyDefault : Bool
  isOpen : Bool
  beganAt : Timestamp
  actionAt : Timestamp
  endedAt : Timestamp
  actions : List RowAction
  statementStart : Nat
  rowIndex : IdMap (List Nat)
  savepoints : List Savepoint
  request : Option LockRequest
  granted : Option LockRequest
  deriving DecidableEq

namespace SessionTx

def fresh (id : SessionId) (isolation : IsolationLevel) : SessionTx where
  id := id
  signals := .clear
  isolation := isolation
  isolationDefault := isolation
  readOnly := false
  readOnlyDefault := false
  isOpen := false
  beganAt := 0
  actionAt := 0
  endedAt := 0
  actions := []
  statementStart := 0
  rowIndex := ∅
  savepoints := []
  request := none
  granted := none

instance : Inhabited SessionTx := ⟨fresh 0 .readCommitted⟩

/-- Levels and modes hold for the next transaction and are fixed while one is open. -/
def setIsolation (tx : SessionTx) (level : IsolationLevel) : Except Failure SessionTx :=
  if tx.isOpen then .error .transactionInProgress else .ok { tx with isolation := level }

def setReadOnly (tx : SessionTx) (readOnly : Bool) : Except Failure SessionTx :=
  if tx.isOpen then .error .transactionInProgress else .ok { tx with readOnly }

/-- A default holds for the transactions after the open one. -/
def setIsolationDefault (tx : SessionTx) (level : IsolationLevel) : SessionTx :=
  { tx with
    isolationDefault := level
    isolation := if tx.isOpen then tx.isolation else level }

def setReadOnlyDefault (tx : SessionTx) (readOnly : Bool) : SessionTx :=
  { tx with
    readOnlyDefault := readOnly
    readOnly := if tx.isOpen then tx.readOnly else readOnly }

def placesOf (tx : SessionTx) (row : RowId) : List Nat := (tx.rowIndex.get? row).getD []

def pushAction (tx : SessionTx) (a : RowAction) : SessionTx :=
  { tx with
    rowIndex := tx.rowIndex.insert a.row (tx.placesOf a.row ++ [tx.actions.length])
    actions := tx.actions ++ [a] }

/-- Forgets the last place of a row. A row without places has no entry. -/
def popPlace (index : IdMap (List Nat)) (row : RowId) : IdMap (List Nat) :=
  match index.get? row with
  | none => index
  | some places =>
    let left := places.dropLast
    if left.isEmpty then index.erase row else index.insert row left

/-- Cuts the log off at `start`, and answers the actions cut off. -/
def truncateActions (tx : SessionTx) (start : Nat) : List RowAction × SessionTx :=
  if tx.actions.length ≤ start then ([], tx)
  else
    let removed := tx.actions.drop start
    (removed, { tx with
      actions := tx.actions.take start
      rowIndex := (removed.reverse.map RowAction.row).foldl popPlace tx.rowIndex
      statementStart := min tx.statementStart start })

def hasRowActions (tx : SessionTx) (row : RowId) : Bool := tx.rowIndex.contains row

/-- The log holds an insert of the row. -/
def insertedHere (tx : SessionTx) (row : RowId) : Bool :=
  (tx.placesOf row).any fun i => (tx.actions[i]?).any (·.type = .insert)

def touchedRows (tx : SessionTx) : List RowId := tx.rowIndex.keys

def savepointIndex? (tx : SessionTx) (name : String) : Option Nat :=
  tx.savepoints.findIdx? (·.name = name)

/-- Sets a savepoint at the end of the log, in place of an older one of the name. -/
def setSavepoint (tx : SessionTx) (name : String) : SessionTx :=
  let kept := match tx.savepointIndex? name with
    | some i => tx.savepoints.eraseIdx i
    | none => tx.savepoints
  { tx with savepoints := kept ++ [⟨name, tx.actions.length, tx.actionAt⟩] }

/-- Drops the savepoints from a place on. -/
def truncateSavepoints (tx : SessionTx) (length : Nat) : SessionTx :=
  { tx with savepoints := tx.savepoints.take length }

/-- What is left when a transaction ends: the defaults hold again. -/
def clear (tx : SessionTx) : SessionTx :=
  { tx with
    isOpen := false
    actions := []
    statementStart := 0
    rowIndex := ∅
    savepoints := []
    request := none
    granted := none
    isolation := tx.isolationDefault
    readOnly := tx.readOnlyDefault }

end SessionTx

end LockingDb
