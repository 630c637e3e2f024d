import LockingDb.Commit
import LockingDb.StatementLocks
import LockingDb.StatementSteps

namespace LockingDb

/-- What is changed in the state of a session without asking the coordinator. -/
inductive StateChange where
  | isolation (level : IsolationLevel)
  | isolationDefault (level : IsolationLevel)
  | readOnly (on : Bool)
  | readOnlyDefault (on : Bool)
  | savepoint (name : String)
  | truncateSavepoints (length : Nat)
  | raiseAbort
  | requestRedo
  | takeRedo
  deriving DecidableEq

def StateChange.apply : StateChange → SessionTx → SessionTx
  | .isolation level, tx => (tx.setIsolation level).toOption.getD tx
  | .isolationDefault level, tx => tx.setIsolationDefault level
  | .readOnly on, tx => (tx.setReadOnly on).toOption.getD tx
  | .readOnlyDefault on, tx => tx.setReadOnlyDefault on
  | .savepoint name, tx => tx.setSavepoint name
  | .truncateSavepoints length, tx => tx.truncateSavepoints length
  | .raiseAbort, tx => { tx with signals := tx.signals.raiseAbort }
  | .requestRedo, tx => { tx with signals := tx.signals.requestRedo }
  | .takeRedo, tx => { tx with signals := tx.signals.takeRedo.2 }

/-- A call on the coordinator, or something that happens between two of them: a session state
changes, or others have changed the tables and the log. -/
inductive CoordinatorCall where
  | register (level : IsolationLevel)
  | unregister (s : SessionId)
  | beginTransaction (s : SessionId)
  | beginStatement (s : SessionId) (r : LockRequest)
  | resumeStatement (s : SessionId)
  | cancelWait (s : SessionId)
  | completeStatement (s : SessionId)
  | rollbackStatement (s : SessionId)
  | prepare (s : SessionId)
  | commit (s : SessionId)
  | rollback (s : SessionId)
  | rollbackToIndex (s : SessionId) (i : Nat)
  | rollbackToSavepoint (s : SessionId) (name : String)
  | recordInsert (s : SessionId) (store : TableId) (row : Row)
  | recordDelete (s : SessionId) (store : TableId) (row : Row)
  | change (s : SessionId) (k : StateChange)
  | outside (storage : Storage) (journal : Journal)

/-- The session that makes a call. -/
def CoordinatorCall.caller? : CoordinatorCall → Option SessionId
  | .unregister s | .beginTransaction s | .beginStatement s _ | .resumeStatement s
  | .cancelWait s | .completeStatement s | .rollbackStatement s | .prepare s | .commit s
  | .rollback s | .rollbackToIndex s _ | .rollbackToSavepoint s _ | .recordInsert s _ _
  | .recordDelete s _ _ => some s
  | .register _ | .change _ _ | .outside _ _ => none

/-- Who waits for the locks of a request may ask for them again, or stop waiting. -/
def CoordinatorCall.fitsWait (r : LockRequest) : CoordinatorCall → Bool
  | .beginStatement _ q => q = r
  | .cancelWait _ | .rollback _ | .unregister _ => true
  | _ => false

namespace Coordinator

/-- A coordinator without sessions. -/
def started (clock : Clock) (storage : Storage) (journal : Journal) : Coordinator :=
  { empty with clock, storage, journal }

def perform (c : Coordinator) : CoordinatorCall → Coordinator
  | .register level => (c.register level).2
  | .unregister s => c.unregister s
  | .beginTransaction s => c.beginTransaction s
  | .beginStatement s r => (c.beginStatement s r).2
  | .resumeStatement s => (c.resumeStatement s).2
  | .cancelWait s => c.cancelWait s
  | .completeStatement s => c.completeStatement s
  | .rollbackStatement s => c.rollbackStatement s
  | .prepare s => (c.prepare s).2
  | .commit s => (c.commit s).2
  | .rollback s => c.rollback s
  | .rollbackToIndex s i => (c.rollbackToIndex s i).2
  | .rollbackToSavepoint s name => (c.rollbackToSavepoint s name).2
  | .recordInsert s store row => (c.recordInsert s store row).2
  | .recordDelete s store row => (c.recordDelete s store row).2
  | .change s k => c.updateTx s k.apply
  | .outside storage journal => { c with storage, journal }

def run (c : Coordinator) (calls : List CoordinatorCall) : Coordinator := calls.foldl perform c

/-- The sessions whose last call was answered that they must wait, with what they asked for. -/
def awaitingAfter (c : Coordinator) (awaiting : IdMap LockRequest) (k : CoordinatorCall) :
    IdMap LockRequest :=
  match k with
  | .beginStatement s r =>
    match (c.beginStatement s r).1 with
    | .ok .mustWait => awaiting.insert s r
    | _ => awaiting.erase s
  | k =>
    match k.caller? with
    | some s => awaiting.erase s
    | none => awaiting

/-- Only registered sessions call, and those who must wait do nothing but wait. -/
def Admits (c : Coordinator) (awaiting : IdMap LockRequest) (k : CoordinatorCall) : Prop :=
  ∀ s ∈ k.caller?, s ∈ c.registered ∧ ∀ r ∈ awaiting.get? s, k.fitsWait r = true

instance (c : Coordinator) (awaiting : IdMap LockRequest) (k : CoordinatorCall) :
    Decidable (c.Admits awaiting k) :=
  inferInstanceAs
    (Decidable (∀ s ∈ k.caller?, s ∈ c.registered ∧ ∀ r ∈ awaiting.get? s, k.fitsWait r = true))

def Patient (c : Coordinator) (awaiting : IdMap LockRequest) : List CoordinatorCall → Prop
  | [] => True
  | k :: rest => c.Admits awaiting k ∧ (c.perform k).Patient (c.awaitingAfter awaiting k) rest

instance instDecidablePatient (c : Coordinator) (awaiting : IdMap LockRequest) :
    (calls : List CoordinatorCall) → Decidable (c.Patient awaiting calls)
  | [] => inferInstanceAs (Decidable True)
  | k :: rest =>
    have := instDecidablePatient (c.perform k) (c.awaitingAfter awaiting k) rest
    inferInstanceAs
      (Decidable (c.Admits awaiting k ∧ (c.perform k).Patient (c.awaitingAfter awaiting k) rest))

/-- Each call of a run is as told when its turn comes. -/
def Throughout (p : Coordinator → CoordinatorCall → Prop) (c : Coordinator) :
    List CoordinatorCall → Prop
  | [] => True
  | k :: rest => p c k ∧ (c.perform k).Throughout p rest

instance instDecidableThroughout (p : Coordinator → CoordinatorCall → Prop)
    [∀ c k, Decidable (p c k)] (c : Coordinator) :
    (calls : List CoordinatorCall) → Decidable (c.Throughout p calls)
  | [] => inferInstanceAs (Decidable True)
  | k :: rest =>
    have := instDecidableThroughout p (c.perform k) rest
    inferInstanceAs (Decidable (p c k ∧ (c.perform k).Throughout p rest))

/-- What every call preserves holds after a run. -/
theorem Throughout.preserves {p : Coordinator → CoordinatorCall → Prop} {q : Coordinator → Prop}
    {c : Coordinator} {calls : List CoordinatorCall} (hcalls : c.Throughout p calls)
    (hstep : ∀ c k, q c → p c k → q (c.perform k)) (hstart : q c) : q (c.run calls) := by
  induction calls generalizing c with
  | nil => exact hstart
  | cons k rest ih => exact ih hcalls.2 (hstep c k hstart hcalls.1)

end Coordinator

end LockingDb
