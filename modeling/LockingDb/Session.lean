import LockingDb.Commit
import LockingDb.Duration
import LockingDb.StatementBody
import LockingDb.StatementLocks
import LockingDb.StatementSteps

namespace LockingDb

/-- What a call on a session answers if it succeeds. -/
inductive Answer where
  | done
  | result (r : StatementResult)
  deriving DecidableEq, Inhabited

abbrev Reply := Except Failure Answer

/-- Where a session is in the call it works on. Between two of these states other sessions may take
their steps. -/
inductive Activity where
  | idle
  /-- At the start of a run of the statement. -/
  | entering
  | acquiring
  /-- Waiting for the latch or for an abort. -/
  | waiting
  | timedOut
  /-- The locks are there, and the body is about to run. -/
  | resuming
  | running (body : StatementBody)
  /-- Deleting rows one by one in the middle of the body. -/
  | deleting (table : TableId) (rows : List Row) (count : Nat)
      (next : Except Failure Nat → StatementBody)
  | failing (error : Failure)
  | failed (error : Failure)
  | finishing (result : StatementResult)
  | finished (result : StatementResult)
  /-- After the commit the session goes on in the given autocommit mode. -/
  | committing (autocommit : Bool) (answer : Answer)
  | rollingBack (reply : Reply)

/-- A client's session: its modes, the call it works on, the statement of that call with the
number of its runs, and the reply to the last call that ended. -/
structure Session where
  autocommit : Bool
  lockWaitTimeout : Option Duration
  closed : Bool
  activity : Activity
  statement : Statement
  runs : Nat
  reply : Option Reply

/-- A call on a session. -/
inductive SessionCall where
  | begin
  | commit
  | prepare
  | rollback
  | savepoint (name : String)
  | rollbackTo (name : String)
  | rollbackToFirst
  | release (name : String)
  | setAutocommit (on : Bool)
  | setIsolation (level : IsolationLevel)
  | setIsolationDefault (level : IsolationLevel)
  | setReadOnly (on : Bool)
  | setReadOnlyDefault (on : Bool)
  | setLockWaitTimeout (timeout : Option Duration)
  | setControl (mode : ControlMode)
  | execute (statement : Statement)
  | close

namespace Session

def fresh (autocommit : Bool) (lockWaitTimeout : Option Duration) : Session :=
  ⟨autocommit, lockWaitTimeout, false, .idle, default, 0, none⟩

def isIdle (x : Session) : Bool :=
  match x.activity with
  | .idle => true
  | _ => false

def isWaiting (x : Session) : Bool :=
  match x.activity with
  | .waiting => true
  | _ => false

def become (x : Session) (activity : Activity) : Session := { x with activity }

/-- The call ends with a reply. -/
def finish (x : Session) (reply : Reply) : Session :=
  { x with activity := .idle, reply := some reply }

def finishWith (x : Session) : Except Failure Unit → Session
  | .ok () => x.finish (.ok .done)
  | .error f => x.finish (.error f)

/-- The transaction was told to give up: it is rolled back, and the call fails. -/
def giveUp (x : Session) : Session := x.become (.rollingBack (.error .serializationFailure))

/-- One step of the body of a statement. -/
def runBody (x : Session) (s : SessionId) (c : Coordinator) : StatementBody → Session × Coordinator
  | .done result => (x.become (.finishing result), c)
  | .fail error => (x.become (.failing error), c)
  | .sessionId next => (x.become (.running (next s)), c)
  | .requestRedo next => (x.become (.running next), c.signal s .requestRedo)
  | .raiseAbort next => (x.become (.running next), c.signal s .raiseAbort)
  | .scan table next =>
    (x.become (.running (next (c.scanTable x.statement.request table))), c)
  | .insert table values next =>
    let (answer, c) := c.insertInto s x.statement.request table values
    (x.become (.running (next answer)), c)
  | .delete table position next =>
    let (answer, c) := c.deleteAt s x.statement.request table position
    (x.become (.running (next answer)), c)
  | .deleteWhere table test next =>
    match c.deletable s x.statement.request table test with
    | .error f => (x.become (.running (next (.error f))), c)
    | .ok rows => (x.become (.deleting table rows 0 next), c)

/-- The next step of a session on the call it works on. -/
def step (x : Session) (s : SessionId) (c : Coordinator) : Session × Coordinator :=
  match x.activity with
  | .idle => (x, c)
  | .entering =>
    if c.abortRequested s then (x.giveUp, c) else (x.become .acquiring, c)
  | .acquiring =>
    match c.beginStatement s x.statement.request with
    | (.ok .proceed, c) => (x.become .resuming, c)
    | (.ok .mustWait, c) => (x.become .waiting, c)
    | (.error .serializationFailure, c) => (x.giveUp, c)
    | (.error f, c) => (x.finish (.error f), c)
  | .waiting =>
    match (c.tx s).signals.settled? with
    | some .released => (x.become .acquiring, c)
    | some .cancelled => (x.giveUp, c)
    | some .timedOut => (x.become .timedOut, c)
    | none => (x, c)
  | .timedOut => (x.become (.rollingBack (.error .lockWaitTimeout)), c.cancelWait s)
  | .resuming =>
    if c.abortRequested s then (x.giveUp, c)
    else
      match c.resumeStatement s with
      | (.error f, c) => (x.become (.rollingBack (.error f)), c)
      | (.ok (), c) =>
        ({ x with runs := x.runs + 1 }.become (.running (x.statement.body (x.runs + 1))), c)
  | .running body => x.runBody s c body
  | .deleting _ [] count next => (x.become (.running (next (.ok count))), c)
  | .deleting table (row :: rows) count next =>
    match c.recordDelete s table row with
    | (.error f, c) => (x.become (.running (next (.error f))), c)
    | (.ok (), c) => (x.become (.deleting table rows (count + 1) next), c)
  | .failing error => (x.become (.failed error), c.rollbackStatement s)
  | .failed error =>
    if c.abortRequested s then (x.giveUp, c)
    else if x.autocommit then (x.become (.rollingBack (.error error)), c)
    else (x.finish (.error error), c)
  | .finishing result =>
    let (redo, signals) := (c.tx s).signals.takeRedo
    let c := c.signal s fun _ => signals
    if redo then (x.become .entering, c.rollbackStatement s)
    else (x.become (.finished result), c.completeStatement s)
  | .finished result =>
    if c.abortRequested s then (x.giveUp, c)
    else if x.autocommit then (x.become (.committing x.autocommit (.result result)), c)
    else (x.finish (.ok (.result result)), c)
  | .committing autocommit answer =>
    match c.commit s with
    | (.error f, c) => (x.finish (.error f), c)
    | (.ok false, c) => (x.giveUp, c)
    | (.ok true, c) => ({ x with autocommit }.finish (.ok answer), c)
  | .rollingBack reply => (x.finish reply, c.rollback s)

/-- The wait of a session has lasted for its timeout. -/
def expire (x : Session) (s : SessionId) (c : Coordinator) : Session :=
  if x.isWaiting && x.lockWaitTimeout.isSome && (c.tx s).signals.settled?.isNone then
    x.become .timedOut
  else x

def close (x : Session) (s : SessionId) (c : Coordinator) : Session × Coordinator :=
  if x.closed then (x, c) else ({ x with closed := true }, c.unregister s)

/-- Changes the transaction state of a session, or refuses to. -/
def settle (x : Session) (s : SessionId) (c : Coordinator) :
    Except Failure SessionTx → Session × Coordinator
  | .ok tx => (x.finish (.ok .done), c.setTx s tx)
  | .error f => (x.finish (.error f), c)

/-- Another control mode takes over at once, or not at all. -/
def setControl (s : SessionId) (c : Coordinator) (mode : ControlMode) : Except Failure Unit :=
  if mode = .locks then .ok ()
  else
    match c.handover s with
    | .error f => .error f
    | .ok h => (Coordinator.build mode h).map fun _ => ()

/-- Starts a call on an open session. -/
def callOpen (x : Session) (s : SessionId) (c : Coordinator) : SessionCall → Session × Coordinator
  | .begin => (x.finish (.ok .done), c.beginTransaction s)
  | .commit => (x.become (.committing x.autocommit .done), c)
  | .prepare =>
    match c.prepare s with
    | (true, c) => (x.finish (.ok .done), c)
    | (false, c) => (x.giveUp, c)
  | .rollback =>
    let c := if (c.tx s).isOpen then c.noteStatement s "ROLLBACK" else c
    (x.become (.rollingBack (.ok .done)), c)
  | .savepoint name =>
    (x.finish (.ok .done),
      (c.updateTx s (·.setSavepoint name)).noteStatement s ("SAVEPOINT \"" ++ name ++ "\""))
  | .rollbackTo name =>
    match c.rollbackToSavepoint s name with
    | (.error f, c) => (x.finish (.error f), c)
    | (.ok (), c) =>
      (x.finish (.ok .done), c.noteStatement s ("ROLLBACK TO SAVEPOINT \"" ++ name ++ "\""))
  | .rollbackToFirst =>
    let name := ((c.tx s).savepoints.head?.map Savepoint.name).getD ""
    match c.rollbackToIndex s 0 with
    | (.error f, c) => (x.finish (.error f), c)
    | (.ok (), c) =>
      (x.finish (.ok .done), c.noteStatement s ("ROLLBACK TO SAVEPOINT \"" ++ name ++ "\""))
  | .release name =>
    match (c.tx s).savepointIndex? name with
    | none => (x.finish (.error (.savepointNotFound name)), c)
    | some i => (x.finish (.ok .done), c.updateTx s (·.truncateSavepoints i))
  | .setAutocommit on =>
    if on != x.autocommit && (c.tx s).isOpen then (x.become (.committing on .done), c)
    else ({ x with autocommit := on }.finish (.ok .done), c)
  | .setIsolation level => x.settle s c ((c.tx s).setIsolation level)
  | .setIsolationDefault level =>
    (x.finish (.ok .done), c.updateTx s (·.setIsolationDefault level))
  | .setReadOnly on => x.settle s c ((c.tx s).setReadOnly on)
  | .setReadOnlyDefault on => (x.finish (.ok .done), c.updateTx s (·.setReadOnlyDefault on))
  | .setLockWaitTimeout timeout => ({ x with lockWaitTimeout := timeout }.finish (.ok .done), c)
  | .setControl mode => (x.finishWith (setControl s c mode), c)
  | .execute statement =>
    if (c.tx s).readOnly && !statement.request.writes.isEmpty then
      (x.finish (.error .readOnlyTransaction), c)
    else ({ x with statement }.become .entering, c)
  | .close =>
    let (x, c) := x.close s c
    (x.finish (.ok .done), c)

/-- Starts a call. A closed session only takes a new timeout, and may be closed again. -/
def call (x : Session) (s : SessionId) (c : Coordinator) (k : SessionCall) :
    Session × Coordinator :=
  let x := { x with reply := none, runs := 0 }
  if x.closed then
    match k with
    | .setLockWaitTimeout _ | .close => x.callOpen s c k
    | _ => (x.finish (.error .sessionClosed), c)
  else x.callOpen s c k

end Session

end LockingDb
