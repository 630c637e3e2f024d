import LockingDb.Identifiers

namespace LockingDb

/-- The global logical clock. It shows the last time it gave out. -/
structure Clock where
  current : Timestamp
  deriving DecidableEq

namespace Clock

def zero : Clock := ⟨0⟩

instance : Inhabited Clock := ⟨zero⟩

/-- Moves the clock on and gives out its new time. -/
def tick (c : Clock) : Timestamp × Clock := (c.current + 1, ⟨c.current + 1⟩)

theorem lt_tick (c : Clock) : c.current < c.tick.1 := Nat.lt_succ_self _

end Clock

end LockingDb
