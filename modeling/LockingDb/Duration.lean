import LockingDb.JsonFields

namespace LockingDb

/-- A length of time in seconds and nanoseconds. -/
structure Duration where
  secs : Nat
  nanos : Nat
  deriving DecidableEq, Inhabited

namespace Duration

def nanosPerSecond : Nat := 1000000000

def ofMillis (n : Nat) : Duration := ⟨n / 1000, n % 1000 * 1000000⟩

/-- Whole seconds among the nanoseconds are carried over. Seconds are counted in 64 bits. -/
def normal? (secs nanos : Nat) : Option Duration :=
  let secs := secs + nanos / nanosPerSecond
  if secs < UInt64.size then some ⟨secs, nanos % nanosPerSecond⟩ else none

def toTree (d : Duration) : JsonTree :=
  .record [("secs", .ofNat d.secs), ("nanos", .ofNat d.nanos)]

def ofTree? (tree : JsonTree) : Option Duration := do
  match ← tree.record? ["secs", "nanos"] true with
  | [some secs, some nanos] =>
    let secs ← secs.nat? UInt64.size
    let nanos ← nanos.nat? UInt32.size
    normal? secs nanos
  | _ => none

end Duration

end LockingDb
