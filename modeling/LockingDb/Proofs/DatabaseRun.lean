import LockingDb.Database
import LockingDb.Proofs.History

namespace LockingDb

/-- What happens to a database: its sessions are called and take their steps one by one, in any
order, and others may change the tables and the log at any time. -/
inductive Move where
  | createTable (name : String) (watched : Bool)
  | checkpoint
  | connect
  | call (s : SessionId) (k : SessionCall)
  | advance (s : SessionId)
  | expire (s : SessionId)
  | raiseAbort (s : SessionId)
  | drop (s : SessionId)
  | outside (storage : Storage) (journal : Journal)

/-- The session that a move starts a statement of. -/
def Move.executes? : Move → Option SessionId
  | .call s (.execute _) => some s
  | _ => none

/-- The levels at which the committed transactions have a serial order. -/
def IsolationLevel.IsStrict (level : IsolationLevel) : Prop :=
  level = .repeatableRead ∨ level = .serializable

instance (level : IsolationLevel) : Decidable level.IsStrict :=
  inferInstanceAs (Decidable (level = .repeatableRead ∨ level = .serializable))

namespace Coordinator

/-- How the transaction of a session ends by a rollback, if one is open. -/
def rollbackEvent? (c : Coordinator) (s : SessionId) : Option Event :=
  if (c.tx s).isOpen then some (.rolledBack s) else none

/-- How the transaction of a session ends by a commit, if one is open and not told to give up. -/
def commitEvent? (c : Coordinator) (s : SessionId) : Option Event :=
  if c.abortRequested s then none
  else
    let (now, c) := c.tick
    match persist s now (c.tx s).actions c.storage c.journal with
    | (.error _, _) => c.rollbackEvent? s
    | (.ok (), _) => if (c.tx s).isOpen then some (.committed s now) else none

end Coordinator

namespace Session

/-- The table that the next step of a body works on, if the statement may. -/
def access? (x : Session) (s : SessionId) (c : Coordinator) : StatementBody → Option Access
  | .scan t _ => if (c.readable x.statement.request t).isOk then some ⟨s, t, .scan⟩ else none
  | .insert t _ _ => if (c.writable x.statement.request t).isOk then some ⟨s, t, .insert⟩ else none
  | .delete t _ _ => if (c.writable x.statement.request t).isOk then some ⟨s, t, .delete⟩ else none
  | .deleteWhere t _ _ =>
    if (c.writable x.statement.request t).isOk then some ⟨s, t, .scan⟩ else none
  | _ => none

/-- What the next step of a session adds to the history. -/
def observe (x : Session) (s : SessionId) (c : Coordinator) : Option Event :=
  match x.activity with
  | .running body => (x.access? s c body).map .access
  | .deleting t (_ :: _) _ _ => some (.access ⟨s, t, .delete⟩)
  | .committing _ _ => c.commitEvent? s
  | .rollingBack _ => c.rollbackEvent? s
  | _ => none

/-- What a call on a session adds to the history at once. -/
def callEvent? (x : Session) (s : SessionId) (c : Coordinator) : SessionCall → Option Event
  | .close => if x.closed then none else c.rollbackEvent? s
  | _ => none

end Session

namespace Database

def perform (db : Database) : Move → Database
  | .createTable name watched => (db.createTable name watched).2
  | .checkpoint => db.checkpoint.2
  | .connect => db.connect.2
  | .call s k => db.call s k
  | .advance s => db.advance s
  | .expire s => db.expire s
  | .raiseAbort s => db.raiseAbort s
  | .drop s => db.drop s
  | .outside storage journal =>
    { db with coordinator := { db.coordinator with storage, journal } }

/-- What a call on an idle session adds to the history. -/
def callEvent? (db : Database) (s : SessionId) (k : SessionCall) : Option Event :=
  (db.sessions.get? s).bind fun x =>
    if x.isIdle then x.callEvent? s db.coordinator k else none

/-- What a move adds to the history. -/
def observe (db : Database) : Move → Option Event
  | .advance s => (db.sessions.get? s).bind fun x => x.observe s db.coordinator
  | .call s k => db.callEvent? s k
  | .drop s => db.callEvent? s .close
  | _ => none

/-- Statements are only executed at levels that are strict. -/
def Admits (db : Database) (m : Move) : Prop :=
  ∀ s ∈ m.executes?, (db.coordinator.tx s).isolation.IsStrict

instance (db : Database) (m : Move) : Decidable (db.Admits m) :=
  inferInstanceAs (Decidable (∀ s ∈ m.executes?, (db.coordinator.tx s).isolation.IsStrict))

/-- Every statement of a run is executed at a strict level. -/
def RunsStrict (db : Database) : List Move → Prop
  | [] => True
  | m :: rest => db.Admits m ∧ (db.perform m).RunsStrict rest

instance instDecidableRunsStrict (db : Database) : (moves : List Move) →
    Decidable (db.RunsStrict moves)
  | [] => inferInstanceAs (Decidable True)
  | m :: rest =>
    have := instDecidableRunsStrict (db.perform m) rest
    inferInstanceAs (Decidable (db.Admits m ∧ (db.perform m).RunsStrict rest))

def run (db : Database) (moves : List Move) : Database := moves.foldl perform db

/-- The accesses to the tables and the ends of transactions, in the order in which they happen. -/
def history (db : Database) : List Move → List Event
  | [] => []
  | m :: rest => (db.observe m).toList ++ (db.perform m).history rest

section Moves

variable {db : Database} {s : SessionId} {x : Session} {k : SessionCall}

theorem coordinator_expire : (db.expire s).coordinator = db.coordinator := by
  unfold Database.expire Database.withSession
  split <;> rfl

theorem perform_call (hx : db.sessions.get? s = some x) (hidle : x.isIdle = true) :
    db.perform (.call s k) = { db with
      coordinator := (x.call s db.coordinator k).2
      sessions := db.sessions.insert s (x.call s db.coordinator k).1 } := by
  show db.withSession s (fun x c => if x.isIdle then x.call s c k else (x, c)) = _
  unfold Database.withSession
  rw [hx]
  simp only [hidle, if_true]

theorem perform_advance (hx : db.sessions.get? s = some x) : db.perform (.advance s) = { db with
    coordinator := (x.step s db.coordinator).2
    sessions := db.sessions.insert s (x.step s db.coordinator).1 } := by
  show db.withSession s (fun x c => x.step s c) = _
  unfold Database.withSession
  rw [hx]

end Moves

end Database

end LockingDb
