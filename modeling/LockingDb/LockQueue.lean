import LockingDb.WaitFor

namespace LockingDb

/-- The answer to a request for locks. -/
inductive Verdict where
  | granted
  /-- The session is queued behind these. -/
  | wait (behind : IdSet)
  /-- Waiting behind these would close a cycle. -/
  | deadlock (behind : IdSet)
  deriving DecidableEq

namespace LockTable

/-- Puts a request into the queue. A session that is queued already keeps its ticket. -/
def enqueue (l : LockTable) (s : SessionId) (r : LockRequest) (barging : Bool) : LockTable :=
  match l.ticket.get? s with
  | some n => { l with queue := l.queue.insert n ⟨s, r, barging⟩ }
  | none =>
    { l with
      queue := l.queue.insert l.nextTicket ⟨s, r, barging⟩
      ticket := l.ticket.insert s l.nextTicket
      nextTicket := l.nextTicket + 1 }

/-- Takes a session out of the queue; the flag says whether it was in it. -/
def withdraw (l : LockTable) (s : SessionId) : Bool × LockTable :=
  match l.ticket.get? s with
  | none => (false, l)
  | some n =>
    (l.queue.contains n, { l with queue := l.queue.erase n, ticket := l.ticket.erase s })

def grantNow (l : LockTable) (s : SessionId) (r : LockRequest) : LockTable :=
  (l.withdraw s).2.grant s r

/-- Grants a request whole or queues it, but refuses a wait that would close a cycle.

A request waits behind the holders of conflicting locks and behind conflicting waiters in front of
it. If some of those waiters already wait for the session, it passes them and waits for holders
alone. -/
def acquire (l : LockTable) (s : SessionId) (r : LockRequest) : Verdict × LockTable :=
  if l.holdsAll s r then (.granted, (l.withdraw s).2)
  else
    let holders := l.conflictingHolders s r
    let ahead := l.queuedAhead s r (l.ticket.get? s)
    let all := holders ∪ ahead
    if all.isEmpty then (.granted, l.grantNow s r)
    else if !l.wouldDeadlock s all then (.wait all, l.enqueue s r false)
    else if l.wouldDeadlock s holders then (.deadlock all, (l.withdraw s).2)
    else if holders.isEmpty then (.granted, l.grantNow s r)
    else (.wait holders, l.enqueue s r true)

/-- Nothing stands in the way of a waiter any more. -/
def isFree (l : LockTable) (n : Nat) (w : Waiter) : Bool :=
  (l.conflictingHolders w.session w.request).isEmpty &&
  (w.barging || (l.queuedAhead w.session w.request (some n)).isEmpty)

/-- Grants the waiters of the given tickets that are free when their turn comes. -/
def promoteFrom (l : LockTable) : List Nat → List SessionId × LockTable
  | [] => ([], l)
  | n :: rest =>
    match l.queue.get? n with
    | none => l.promoteFrom rest
    | some w =>
      if l.isFree n w then
        let (granted, l) := (l.grantNow w.session w.request).promoteFrom rest
        (w.session :: granted, l)
      else l.promoteFrom rest

/-- Walks the whole queue once, first come first, and grants every waiter that is free. -/
def promote (l : LockTable) : List SessionId × LockTable := l.promoteFrom l.queue.keys

end LockTable

end LockingDb
