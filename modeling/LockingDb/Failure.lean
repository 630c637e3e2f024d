import LockingDb.Identifiers
import LockingDb.TransactionMode

namespace LockingDb

/-- Why a call was refused or broke off. -/
inductive Failure where
  | overwriteConflict (row : RowId)
  | serializationFailure
  | savepointNotFound (name : String)
  | noTransaction
  | lockWaitTimeout
  | unsupportedControl (mode : ControlMode)
  | controlBusy
  | transactionInProgress
  | readOnlyTransaction
  | sessionClosed
  | rowNotFound (position : RowPosition)
  | tableNotFound (table : TableId)
  | fatalStore (cause : String)
  /-- A store or log refused a call. -/
  | io (cause : String)
  /-- A log file cannot be opened, or its bytes are no text. -/
  | unreadableFile
  /-- Stored text does not have the form it should have. -/
  | malformedText
  | internal (cause : String)
  deriving DecidableEq, Inhabited

namespace Failure

/-- The five-character class reported to clients. -/
def sqlState : Failure → String
  | serializationFailure | lockWaitTimeout => "40001"
  | savepointNotFound _ => "3B001"
  | overwriteConflict _ | noTransaction | controlBusy => "25000"
  | transactionInProgress => "25001"
  | readOnlyTransaction => "25006"
  | sessionClosed => "08003"
  | unsupportedControl _ | rowNotFound _ | tableNotFound _ | fatalStore _ | io _
  | unreadableFile | malformedText | internal _ => "HY000"

/-- The whole transaction may be tried again after a rollback. -/
def isRetryable : Failure → Bool
  | serializationFailure | lockWaitTimeout => true
  | _ => false

/-- The text shown to clients. Unreadable files and malformed text have no text of their own. -/
def message? : Failure → Option String
  | overwriteConflict row =>
    some ("Invalid transaction state: row " ++ toString row ++
      " is owned by another session (OVERWRITE)")
  | serializationFailure => some "Serialization failure"
  | savepointNotFound name => some ("Savepoint not found: " ++ name)
  | noTransaction => some "No transaction is open"
  | lockWaitTimeout => some "Lock wait timed out"
  | unsupportedControl mode => some ("Unsupported transaction control: " ++ mode.name)
  | controlBusy =>
    some "Cannot change transaction control while other sessions hold or await locks"
  | transactionInProgress => some "Invalid transaction state: active SQL-transaction"
  | readOnlyTransaction => some "Invalid transaction state: read-only SQL-transaction"
  | sessionClosed => some "Session is closed"
  | rowNotFound position => some ("Row not found at position " ++ toString position)
  | tableNotFound table => some ("Table not found: " ++ toString table)
  | fatalStore cause => some ("Fatal store error: " ++ cause)
  | io cause => some ("I/O error: " ++ cause)
  | unreadableFile => none
  | malformedText => none
  | internal cause => some ("Internal error: " ++ cause)

def message (f : Failure) : String := f.message?.getD ""

end Failure

end LockingDb
