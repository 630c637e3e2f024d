import LockingDb.Duration
import LockingDb.Failure

namespace LockingDb

/-- What a database is opened with. -/
structure Settings where
  logPath : Option String
  autocommit : Bool
  isolation : IsolationLevel
  lockWaitTimeout : Option Duration
  control : ControlMode
  deriving DecidableEq

namespace Settings

def default : Settings := ⟨none, true, .readCommitted, none, .locks⟩

instance : Inhabited Settings := ⟨default⟩

def withLogPath (path : String) : Settings := { default with logPath := some path }

def toTree (s : Settings) : JsonTree :=
  .record [
    ("log_path", (s.logPath.map JsonTree.ofString).getD .null),
    ("default_autocommit", .bool s.autocommit),
    ("default_isolation", .ofString s.isolation.name),
    ("lock_wait_timeout", (s.lockWaitTimeout.map Duration.toTree).getD .null),
    ("transaction_control", .ofString s.control.name)]

def fieldNames : List String :=
  ["log_path", "default_autocommit", "default_isolation", "lock_wait_timeout",
    "transaction_control"]

/-- Reads stored settings. Log path and timeout may be missing or `null`. -/
def ofTree? (tree : JsonTree) : Option Settings := do
  match ← tree.record? fieldNames false with
  | [path, some autocommit, some isolation, timeout, some control] =>
    let path ← (path.getD .null).nullable? JsonTree.string?
    let autocommit ← autocommit.bool?
    let isolation ← isolation.bareVariant?.bind IsolationLevel.ofName?
    let timeout ← (timeout.getD .null).nullable? Duration.ofTree?
    let control ← control.bareVariant?.bind ControlMode.ofName?
    some ⟨path, autocommit, isolation, timeout, control⟩
  | _ => none

def render (s : Settings) : String := String.ofList s.toTree.render

def parse? (text : String) : Except Failure Settings :=
  match (JsonTree.parse? text.toList).bind ofTree? with
  | some s => .ok s
  | none => .error .malformedText

end Settings

end LockingDb
