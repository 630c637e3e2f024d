import LockingDb.Session
import LockingDb.Settings

namespace LockingDb

/-- A database with its sessions. -/
structure Database where
  settings : Settings
  coordinator : Coordinator
  sessions : IdMap Session

namespace Database

/-- Only lock based control can be run. -/
def open? (settings : Settings) : Except Failure Database :=
  match Coordinator.build settings.control default with
  | .ok coordinator => .ok ⟨settings, coordinator, ∅⟩
  | .error f => .error f

def mapStorage (db : Database) (f : Storage → Storage) : Database :=
  { db with coordinator := { db.coordinator with storage := f db.coordinator.storage } }

def createTable (db : Database) (name : String) (watched : Bool) : TableId × Database :=
  let (t, storage) := db.coordinator.storage.createTable name watched
  (t, db.mapStorage fun _ => storage)

def checkpoint (db : Database) : Except Failure Unit × Database :=
  let (answer, journal) := db.coordinator.journal.write .checkpoint
  (answer, { db with coordinator := { db.coordinator with journal } })

/-- Opens a session in the modes of the settings. -/
def connect (db : Database) : SessionId × Database :=
  let (s, coordinator) := db.coordinator.register db.settings.isolation
  (s, { db with
    coordinator
    sessions := db.sessions.insert s
      (.fresh db.settings.autocommit db.settings.lockWaitTimeout) })

/-- Lets a session and the coordinator take a step together. -/
def withSession (db : Database) (s : SessionId)
    (f : Session → Coordinator → Session × Coordinator) : Database :=
  match db.sessions.get? s with
  | none => db
  | some x =>
    let (x, coordinator) := f x db.coordinator
    { db with coordinator, sessions := db.sessions.insert s x }

/-- Starts a call on an idle session. -/
def call (db : Database) (s : SessionId) (k : SessionCall) : Database :=
  db.withSession s fun x c => if x.isIdle then x.call s c k else (x, c)

/-- One step of a session on the call it works on. -/
def advance (db : Database) (s : SessionId) : Database :=
  db.withSession s fun x c => x.step s c

def expire (db : Database) (s : SessionId) : Database :=
  db.withSession s fun x c => (x.expire s c, c)

/-- Tells the transaction of a session to give up. -/
def raiseAbort (db : Database) (s : SessionId) : Database :=
  { db with coordinator := db.coordinator.signal s .raiseAbort }

/-- A session goes away; an idle one is closed before. -/
def drop (db : Database) (s : SessionId) : Database :=
  let db := db.withSession s fun x c => if x.isIdle then x.close s c else (x, c)
  match db.sessions.get? s with
  | some x => if x.isIdle then { db with sessions := db.sessions.erase s } else db
  | none => db

/-- A session that has no step to take: it is idle, or it waits and nothing has woken it. -/
def isAtRest (db : Database) (s : SessionId) : Bool :=
  match db.sessions.get? s with
  | none => true
  | some x => x.isIdle || (x.isWaiting && (db.coordinator.tx s).signals.settled?.isNone)

/-- The sessions that wait for locks, first come first. -/
def waitingSessions (db : Database) : List SessionId := db.coordinator.locks.waitingSessions

end Database

end LockingDb
