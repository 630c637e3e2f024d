import LockingDb.Failure
import LockingDb.LogCall

namespace LockingDb

/-- A transaction log in memory. Calls are numbered from 0, and `faults` says which of them fail
before they write anything. -/
structure Journal where
  records : List LogRecord
  calls : Nat
  faults : Nat → LogCall → Option Failure

namespace Journal

def empty : Journal := ⟨[], 0, fun _ _ => none⟩

instance : Inhabited Journal := ⟨empty⟩

def write (j : Journal) (call : LogCall) : Except Failure Unit × Journal :=
  let counted := { j with calls := j.calls + 1 }
  match j.faults j.calls call with
  | some f => (.error f, counted)
  | none => (.ok (), { counted with records := j.records ++ call.record?.toList })

/-- From now on exactly the calls of the given names fail. -/
def failOn (j : Journal) (names : List String) : Journal :=
  { j with faults := fun _ call =>
      if names.contains call.name then some (.io ("log " ++ call.name ++ " failed")) else none }

end Journal

end LockingDb
