import LockingDb.IdMap
import LockingDb.LockRequest

namespace LockingDb

inductive LockMode where
  | shared
  | exclusive
  deriving DecidableEq, Inhabited

/-- A session in the queue with what it asks for. A barging waiter waits for holders only: those
queued before it already wait for it. -/
structure Waiter where
  session : SessionId
  request : LockRequest
  barging : Bool
  deriving DecidableEq, Inhabited

/-- The table locks of all sessions, by table and by session, and the queue of those who wait,
by ticket. -/
structure LockTable where
  writer : IdMap SessionId
  readers : IdMap IdSet
  held : IdMap (IdMap LockMode)
  queue : IdMap Waiter
  ticket : IdMap Nat
  nextTicket : Nat
  deriving DecidableEq

namespace LockTable

def empty : LockTable := ⟨∅, ∅, ∅, ∅, ∅, 0⟩

instance : Inhabited LockTable := ⟨empty⟩

def readersOf (l : LockTable) (t : TableId) : IdSet := (l.readers.get? t).getD ∅

def locksOf (l : LockTable) (s : SessionId) : IdMap LockMode := (l.held.get? s).getD ∅

/-- The lock of a session on a table. -/
def mode? (l : LockTable) (s : SessionId) (t : TableId) : Option LockMode := (l.locksOf s).get? t

/-- The session has every lock of the request. -/
def holdsAll (l : LockTable) (s : SessionId) (r : LockRequest) : Bool :=
  r.writes.toList.all (fun t => l.mode? s t = some .exclusive) &&
  r.reads.toList.all (fun t => (l.mode? s t).isSome)

/-- Other sessions with a lock that does not go with the request. -/
def conflictingHolders (l : LockTable) (s : SessionId) (r : LockRequest) : IdSet :=
  let writers := (r.writes.toList ++ r.reads.toList).filterMap l.writer.get?
  let readers := r.writes.toList.flatMap fun t => (l.readersOf t).toList
  (IdSet.ofList (writers ++ readers)).erase s

/-- Other sessions queued with a conflicting request, in front of a ticket if one is given. -/
def queuedAhead (l : LockTable) (s : SessionId) (r : LockRequest) (ticket : Option Nat) : IdSet :=
  let inFront := l.queue.entries.filter fun (n, w) =>
    ticket.all (n < ·) && w.session != s && w.request.conflictsWith r
  IdSet.ofList (inFront.map fun (_, w) => w.session)

/-- The sessions that hold a lock on a table: the writer first, then the readers. -/
def holders (l : LockTable) (t : TableId) : List (SessionId × LockMode) :=
  ((l.writer.get? t).toList.map (·, .exclusive)) ++ ((l.readersOf t).toList.map (·, .shared))

def isWaiting (l : LockTable) (s : SessionId) : Bool := l.ticket.contains s

/-- The sessions in the queue, first come first. -/
def waitingSessions (l : LockTable) : List SessionId := l.queue.values.map Waiter.session

/-- No other session holds or awaits a lock. -/
def isIdleExcept (l : LockTable) (s : SessionId) : Bool :=
  l.held.keys.all (· == s) && l.queue.values.all (·.session == s)

/-- Takes a session off the readers of a table. A table without readers has no entry. -/
def dropReader (l : LockTable) (s : SessionId) (t : TableId) : LockTable :=
  match l.readers.get? t with
  | none => l
  | some readers =>
    let left := readers.erase s
    { l with readers := if left.isEmpty then l.readers.erase t else l.readers.insert t left }

def setMode (l : LockTable) (s : SessionId) (t : TableId) (m : LockMode) : LockTable :=
  { l with held := l.held.insert s ((l.locksOf s).insert t m) }

/-- Makes the session the writer of a table it may have read before. -/
def grantWrite (l : LockTable) (s : SessionId) (t : TableId) : LockTable :=
  let l := { l with writer := l.writer.insert t s }
  (l.dropReader s t).setMode s t .exclusive

/-- Makes the session a reader of a table, unless it is its writer. -/
def grantRead (l : LockTable) (s : SessionId) (t : TableId) : LockTable :=
  if l.mode? s t = some .exclusive then l
  else
    let l := { l with readers := l.readers.insert t ((l.readersOf t).insert s) }
    l.setMode s t .shared

/-- Gives the session every lock of the request. -/
def grant (l : LockTable) (s : SessionId) (r : LockRequest) : LockTable :=
  let l := { l with held := l.held.insert s (l.locksOf s) }
  let l := r.writes.toList.foldl (fun l t => l.grantWrite s t) l
  r.reads.toList.foldl (fun l t => l.grantRead s t) l

def unlock (l : LockTable) (s : SessionId) (t : TableId) : LockMode → LockTable
  | .exclusive =>
    if l.writer.get? t = some s then { l with writer := l.writer.erase t } else l
  | .shared => l.dropReader s t

/-- Takes away every lock of a session; the number says how many. -/
def releaseAll (l : LockTable) (s : SessionId) : Nat × LockTable :=
  match l.held.get? s with
  | none => (0, l)
  | some locks =>
    let l := { l with held := l.held.erase s }
    (locks.size, locks.entries.foldl (fun l (t, m) => l.unlock s t m) l)

/-- Takes away the read locks of a session on the tables; the number says how many. -/
def releaseShared (l : LockTable) (s : SessionId) (tables : List TableId) : Nat × LockTable :=
  let given := IdSet.ofList tables
  let released := given.toList.filter fun t => l.mode? s t = some .shared
  let held :=
    match l.held.get? s with
    | none => l.held
    | some locks =>
      let left := released.foldl IdMap.erase locks
      if left.isEmpty then l.held.erase s else l.held.insert s left
  let l := { l with held }
  (released.length, given.toList.foldl (fun l t => l.dropReader s t) l)

end LockTable

end LockingDb
