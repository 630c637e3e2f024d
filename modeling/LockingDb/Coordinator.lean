import LockingDb.Handover
import LockingDb.Journal
import LockingDb.LockQueue
import LockingDb.RowOwnership
import LockingDb.SessionTx

namespace LockingDb

/-- A call that a session has made on the store of a table, and the mode in which it had the table
locked when it made the call. -/
structure TracedCall where
  session : SessionId
  table : TableId
  call : StoreCall
  mode : Option LockMode
  deriving DecidableEq, Inhabited

/-- The call as the tables note it. -/
def TracedCall.made (k : TracedCall) : TableId × StoreCall := (k.table, k.call)

/-- The transactions of all sessions: clock, locks, owners of uncommitted rows and the number of
open transactions, with the tables and the log that they work on. A session that is no longer
registered keeps its state but is not woken any more. `trace` holds the calls that sessions have made
on the tables, the last one first. -/
structure Coordinator where
  clock : Clock
  locks : LockTable
  owners : RowOwnership
  openCount : Nat
  nextSession : SessionId
  sessions : IdMap SessionTx
  registered : IdSet
  storage : Storage
  journal : Journal
  trace : List TracedCall

namespace Coordinator

def empty : Coordinator where
  clock := .zero
  locks := .empty
  owners := .empty
  openCount := 0
  nextSession := 1
  sessions := ∅
  registered := ∅
  storage := .empty
  journal := .empty
  trace := []

instance : Inhabited Coordinator := ⟨empty⟩

/-- A coordinator whose clock goes on where another one stopped. -/
def resume (h : Handover) : Except Failure Coordinator :=
  match h.validate with
  | .ok () => .ok { empty with clock := ⟨h.time⟩ }
  | .error f => .error f

/-- The coordinator of a control mode. -/
def build (mode : ControlMode) (h : Handover) : Except Failure Coordinator :=
  match mode with
  | .locks => resume h
  | .mvcc | .mvLocks => .error (.unsupportedControl mode)

def tx (c : Coordinator) (s : SessionId) : SessionTx :=
  (c.sessions.get? s).getD (.fresh s .readCommitted)

def setTx (c : Coordinator) (s : SessionId) (tx : SessionTx) : Coordinator :=
  { c with sessions := c.sessions.insert s tx }

def updateTx (c : Coordinator) (s : SessionId) (f : SessionTx → SessionTx) : Coordinator :=
  c.setTx s (f (c.tx s))

def signal (c : Coordinator) (s : SessionId) (f : Signals → Signals) : Coordinator :=
  c.updateTx s fun tx => { tx with signals := f tx.signals }

def abortRequested (c : Coordinator) (s : SessionId) : Bool := (c.tx s).signals.abort

/-- A call of a session with the mode in which it has the table locked now. -/
def traced (c : Coordinator) (s : SessionId) (k : TableId × StoreCall) : TracedCall :=
  ⟨s, k.1, k.2, c.locks.mode? s k.1⟩

/-- The tables are as calls of a session have left them. -/
def withCalls (c : Coordinator) (s : SessionId) (storage : Storage) : Coordinator :=
  { c with
    storage
    trace := (storage.callsSince c.storage.calls.length).map (c.traced s) ++ c.trace }

/-- Gives out the next time of the clock. -/
def tick (c : Coordinator) : Timestamp × Coordinator :=
  let (now, clock) := c.clock.tick
  (now, { c with clock })

def register (c : Coordinator) (level : IsolationLevel) : SessionId × Coordinator :=
  (c.nextSession, { c with
    nextSession := c.nextSession + 1
    sessions := c.sessions.insert c.nextSession (.fresh c.nextSession level)
    registered := c.registered.insert c.nextSession })

/-- A session whose locks were granted need not wait any longer. -/
def wake (c : Coordinator) (s : SessionId) : Coordinator :=
  if s ∈ c.registered then c.signal s .countDown else c

/-- Grants what the queue now allows, and wakes those who get their locks. -/
def promote (c : Coordinator) : Coordinator :=
  let (granted, locks) := c.locks.promote
  granted.foldl wake { c with locks }

/-- Takes a session out of the queue, and grants what this makes free. -/
def withdraw (c : Coordinator) (s : SessionId) : Coordinator :=
  let (wasWaiting, locks) := c.locks.withdraw s
  let c := { c with locks }
  if wasWaiting then c.promote else c

/-- Takes all locks and the place in the queue from a session, and grants what this makes free. -/
def releaseLocks (c : Coordinator) (s : SessionId) : Coordinator :=
  let (released, locks) := c.locks.releaseAll s
  let (wasWaiting, locks) := locks.withdraw s
  let c := { c with locks }
  if released > 0 || wasWaiting then c.promote else c

def releaseRows (c : Coordinator) (rows : List RowId) : Coordinator :=
  { c with owners := c.owners.release rows }

/-- Opens the transaction of a session at a time. -/
def openTx (c : Coordinator) (s : SessionId) (now : Timestamp) : Coordinator :=
  let c := { c with openCount := c.openCount + 1 }
  c.updateTx s ({ · with isOpen := true, beganAt := now, actionAt := now })

/-- Ends the transaction of a session, if one is open, and gives back what it holds. -/
def endTx (c : Coordinator) (s : SessionId) (rows : List RowId) : Coordinator :=
  let c := c.releaseRows rows
  let c := if (c.tx s).isOpen then { c with openCount := c.openCount - 1 } else c
  c.releaseLocks s

/-- Writes down when a transaction ended, and clears it. -/
def closeTx (c : Coordinator) (s : SessionId) (now : Timestamp) : Coordinator :=
  c.updateTx s fun tx => { tx.clear with actionAt := now, endedAt := now }

/-- The statement of a session is over: below repeatable read its read locks go. -/
def endStatement (c : Coordinator) (s : SessionId) : Coordinator :=
  let tx := c.tx s
  let c := c.setTx s { tx with request := none }
  if tx.isolation.holdsReadLocks then c
  else
    match tx.request with
    | none => c
    | some r =>
      if r.reads.isEmpty then c
      else
        let (released, locks) := c.locks.releaseShared s r.reads.toList
        let c := { c with locks }
        let c := if released > 0 then c.promote else c
        c.updateTx s ({ · with granted := none })

/-- What this coordinator would leave to another one, if no other session is at work. -/
def handover (c : Coordinator) (s : SessionId) : Except Failure Handover :=
  let tx := c.tx s
  let own := if tx.isOpen then 1 else 0
  if !c.locks.isIdleExcept s || c.openCount > own then .error .controlBusy
  else
    let h : Handover := ⟨c.clock.current, if tx.isOpen then [tx.beganAt] else []⟩
    match h.validate with
    | .ok () => .ok h
    | .error f => .error f

end Coordinator

end LockingDb
