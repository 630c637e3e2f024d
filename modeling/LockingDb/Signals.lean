namespace LockingDb

/-- How a wait ends. -/
inductive WaitOutcome where
  | released
  | cancelled
  | timedOut
  deriving DecidableEq, Inhabited

/-- What other sessions tell a session: to give up its transaction, to run its statement again, and
by the latch how many grants it still waits for. -/
structure Signals where
  abort : Bool
  redo : Bool
  latch : Nat
  deriving DecidableEq

namespace Signals

def clear : Signals := ⟨false, false, 0⟩

instance : Inhabited Signals := ⟨clear⟩

def setCount (s : Signals) (n : Nat) : Signals := { s with latch := n }

def countDown (s : Signals) : Signals := { s with latch := s.latch - 1 }

def release (s : Signals) : Signals := { s with latch := 0 }

def raiseAbort (s : Signals) : Signals := { s with abort := true }

def clearAbort (s : Signals) : Signals := { s with abort := false }

def requestRedo (s : Signals) : Signals := { s with redo := true }

/-- Answers whether a redo was requested, and forgets the request. -/
def takeRedo (s : Signals) : Bool × Signals := (s.redo, { s with redo := false })

/-- How a wait ends at once, if it does. An abort comes before a release. -/
def settled? (s : Signals) : Option WaitOutcome :=
  if s.abort then some .cancelled
  else if s.latch = 0 then some .released
  else none

/-- How a wait ends that nobody else interrupts. -/
def wait (s : Signals) : WaitOutcome := s.settled?.getD .timedOut

end Signals

end LockingDb
