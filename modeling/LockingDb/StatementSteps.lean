import LockingDb.RowWork

namespace LockingDb

namespace Coordinator

/-- A statement may read the tables of its request. -/
def readable (c : Coordinator) (r : LockRequest) (t : TableId) : Except Failure Unit :=
  if r.allowsRead t then (c.storage.table? t).map fun _ => ()
  else .error (.internal ("table " ++ toString t ++ " is not locked by this statement"))

/-- A statement may change the tables that its request writes. -/
def writable (c : Coordinator) (r : LockRequest) (t : TableId) : Except Failure Unit :=
  if r.allowsWrite t then (c.storage.table? t).map fun _ => ()
  else .error (.internal ("table " ++ toString t ++ " is not locked for write by this statement"))

def scanTable (c : Coordinator) (r : LockRequest) (t : TableId) : Except Failure (List Row) :=
  match c.readable r t with
  | .error f => .error f
  | .ok () => .ok (c.storage.scan t)

def insertInto (c : Coordinator) (s : SessionId) (r : LockRequest) (t : TableId)
    (values : List Value) : Except Failure RowPosition × Coordinator :=
  match c.writable r t with
  | .error f => (.error f, c)
  | .ok () =>
    match c.insertRow s t t values with
    | (.error f, c) => (.error f, c)
    | (.ok row, c) => (.ok row.position, c)

def deleteAt (c : Coordinator) (s : SessionId) (r : LockRequest) (t : TableId)
    (position : RowPosition) : Except Failure Unit × Coordinator :=
  match c.writable r t with
  | .error f => (.error f, c)
  | .ok () =>
    match c.storage.get? t position with
    | none => (.error (.rowNotFound position), c)
    | some row => c.recordDelete s t row

/-- The visible rows that pass a test, if the session may delete all of them. -/
def deletable (c : Coordinator) (s : SessionId) (r : LockRequest) (t : TableId)
    (test : Row → Bool) : Except Failure (List Row) :=
  match c.writable r t with
  | .error f => .error f
  | .ok () =>
    let rows := (c.storage.scan t).filter test
    match c.checkDelete s rows with
    | .error f => .error f
    | .ok () => .ok rows

/-- Writes a statement down that changes no row; a log that fails is passed over. -/
def noteStatement (c : Coordinator) (s : SessionId) (sql : String) : Coordinator :=
  { c with journal := (c.journal.write (.statement s sql)).2 }

end Coordinator

end LockingDb
