import LockingDb.Proofs.DatabaseRun
import LockingDb.Proofs.RowChanges

namespace LockingDb

/-- What the open transaction of a session has changed and not taken back, and what it had changed
when its statement began to run and when its savepoints were set. -/
structure Draft where
  changes : List Change
  statement : List Change
  savepoints : List (String × List Change)
  deriving DecidableEq

namespace Draft

def empty : Draft := ⟨[], [], []⟩

def add (d : Draft) (k : Change) : Draft := { d with changes := d.changes ++ [k] }

def beginStatement (d : Draft) : Draft := { d with statement := d.changes }

def undoStatement (d : Draft) : Draft := { d with changes := d.statement }

def place? (d : Draft) (name : String) : Option Nat := d.savepoints.findIdx? (·.1 = name)

/-- A savepoint takes the place of an older one of its name. -/
def setSavepoint (d : Draft) (name : String) : Draft :=
  let kept := match d.place? name with
    | some i => d.savepoints.eraseIdx i
    | none => d.savepoints
  { d with savepoints := kept ++ [(name, d.changes)] }

/-- What was changed after a savepoint is taken back. The savepoint stays, later ones go. -/
def undoTo (d : Draft) (i : Nat) : Draft :=
  match d.savepoints[i]? with
  | some (_, changes) => { d with changes, savepoints := d.savepoints.take (i + 1) }
  | none => d

def undoToName (d : Draft) (name : String) : Draft :=
  match d.place? name with
  | some i => d.undoTo i
  | none => d

def release (d : Draft) (name : String) : Draft :=
  match d.place? name with
  | some i => { d with savepoints := d.savepoints.take i }
  | none => d

end Draft

/-- A transaction that is committed. -/
structure Commit where
  session : SessionId
  time : Timestamp
  changes : List Change
  deriving DecidableEq

/-- The committed transactions, the first one first, and what the open ones have changed. -/
structure Ledger where
  commits : List Commit
  drafts : IdMap Draft
  deriving DecidableEq

namespace Ledger

def empty : Ledger := ⟨[], ∅⟩

def draft (l : Ledger) (s : SessionId) : Draft := (l.drafts.get? s).getD .empty

/-- The committed rows of a table by position: the net changes of the committed transactions,
applied to the empty table in the order of the commits. -/
def rows (l : Ledger) (t : TableId) : IdMap Row :=
  IdMap.changeAll ∅ (Change.onTable t (l.commits.flatMap fun k => Change.net k.changes))

/-- The rows of a table as the transaction of a session has to see them: the committed ones with
the net changes of the transaction. -/
def view (l : Ledger) (s : SessionId) (t : TableId) : IdMap Row :=
  (l.rows t).changeAll (Change.onTable t (Change.net (l.draft s).changes))

/-- Writes down what a step of a session does to its draft; a commit is added to the others. -/
def note (l : Ledger) (s : SessionId) (d : Draft) : Option Event → Ledger
  | some (.committed _ now) => ⟨l.commits ++ [⟨s, now, (l.draft s).changes⟩], l.drafts.insert s d⟩
  | _ => { l with drafts := l.drafts.insert s d }

end Ledger

namespace Session

/-- What a step of a session does to its draft. Inserts and deletes count if they succeed. -/
def redraft (x : Session) (s : SessionId) (c : Coordinator) (d : Draft) : Draft :=
  match x.activity with
  | .resuming => d.beginStatement
  | .running (.insert t values _) =>
    match (c.insertInto s x.statement.request t values).1 with
    | .ok position => d.add (.insert ⟨c.storage.nextRow, position, t, values⟩)
    | .error _ => d
  | .running (.delete t position _) =>
    match c.storage.get? t position, (c.deleteAt s x.statement.request t position).1 with
    | some row, .ok () => d.add (.delete row)
    | _, _ => d
  | .deleting t (row :: _) _ _ =>
    match (c.recordDelete s t row).1 with
    | .ok () => d.add (.delete row)
    | .error _ => d
  | .failing _ => d.undoStatement
  | .finishing _ => if (c.tx s).signals.redo then d.undoStatement else d
  | .committing _ _ => if c.abortRequested s then d else .empty
  | .rollingBack _ => .empty
  | _ => d

/-- What a call on a session does to its draft at once. -/
def redraftCall (x : Session) (d : Draft) (k : SessionCall) : Draft :=
  if x.closed then d
  else
    match k with
    | .savepoint name => d.setSavepoint name
    | .rollbackTo name => d.undoToName name
    | .rollbackToFirst => d.undoTo 0
    | .release name => d.release name
    | .close => .empty
    | _ => d

end Session

/-- The move goes through the sessions of the database, and does not touch tables or log directly. -/
def Move.isInside : Move → Bool
  | .outside _ _ => false
  | _ => true

namespace Database

/-- Opens a database on a log of its own. -/
def openWith? (settings : Settings) (journal : Journal) : Except Failure Database :=
  (open? settings).map fun db => { db with coordinator := { db.coordinator with journal } }

def recordCall (db : Database) (l : Ledger) (s : SessionId) (k : SessionCall) : Ledger :=
  match db.sessions.get? s with
  | some x => if x.isIdle then l.note s (x.redraftCall (l.draft s) k) none else l
  | none => l

/-- Keeps the ledger of a database. -/
def record (db : Database) (l : Ledger) : Move → Ledger
  | .advance s =>
    match db.sessions.get? s with
    | some x => l.note s (x.redraft s db.coordinator (l.draft s)) (x.observe s db.coordinator)
    | none => l
  | .call s k => db.recordCall l s k
  | .drop s => db.recordCall l s .close
  | _ => l

/-- The ledger after a run. -/
def ledger (db : Database) (l : Ledger) : List Move → Ledger
  | [] => l
  | m :: rest => (db.perform m).ledger (db.record l m) rest

/-- All moves of a run go through the sessions, and it ends before row numbers start over: they
have 64 bits, and the one to be given out next is not 0 again. -/
def RunsInside (db : Database) : List Move → Prop
  | [] => True
  | m :: rest => m.isInside = true ∧ (db.perform m).coordinator.storage.nextRow ≠ 0 ∧
      (db.perform m).RunsInside rest

instance instDecidableRunsInside (db : Database) : (moves : List Move) →
    Decidable (db.RunsInside moves)
  | [] => inferInstanceAs (Decidable True)
  | m :: rest =>
    have := instDecidableRunsInside (db.perform m) rest
    inferInstanceAs (Decidable (_ ∧ _ ∧ (db.perform m).RunsInside rest))

end Database

end LockingDb
