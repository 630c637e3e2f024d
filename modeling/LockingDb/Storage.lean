import LockingDb.LetterCase
import LockingDb.StoreCall

namespace LockingDb

/-- The store of one table. `faults` says which of its calls fail before they do anything; calls
are numbered from 0 over all tables. The calls on a watched table are noted. -/
structure Table where
  store : RowStore
  watched : Bool
  faults : Nat → StoreCall → Option Failure

def Table.empty (id : TableId) (watched : Bool) : Table := ⟨.empty id, watched, fun _ _ => none⟩

/-- The tables of a database. Row ids come from one counter for all tables, and `calls` holds all
calls made so far, the last one first. -/
structure Storage where
  tables : IdMap Table
  names : List (String × TableId)
  nextTable : TableId
  nextRow : RowId
  calls : List (TableId × StoreCall)

namespace Storage

def empty : Storage := ⟨∅, [], 1, 1, []⟩

instance : Inhabited Storage := ⟨empty⟩

def table? (s : Storage) (t : TableId) : Except Failure Table :=
  match s.tables.get? t with
  | some table => .ok table
  | none => .error (.tableNotFound t)

/-- The table of a name. Names that differ in letter case only are the same. -/
def tableId? (s : Storage) (name : String) : Option TableId :=
  s.names.lookup (LetterCase.lower name)

/-- Puts an empty store under an id. -/
def addTable (s : Storage) (t : TableId) (watched : Bool) : Storage :=
  { s with tables := s.tables.insert t (.empty t watched) }

/-- The table of a name, created under the next id if there is none. -/
def createTable (s : Storage) (name : String) (watched : Bool) : TableId × Storage :=
  match s.tableId? name with
  | some t => (t, s)
  | none =>
    let s := s.addTable s.nextTable watched
    (s.nextTable, { s with
      names := s.names ++ [(LetterCase.lower name, s.nextTable)]
      nextTable := s.nextTable + 1 })

def get? (s : Storage) (t : TableId) (position : RowPosition) : Option Row :=
  (s.tables.get? t).bind (·.store.get? position)

def scan (s : Storage) (t : TableId) : List Row :=
  match s.tables.get? t with
  | some table => table.store.scan
  | none => []

def setStore (s : Storage) (t : TableId) (store : RowStore) : Storage :=
  { s with tables := s.tables.modify t ({ · with store }) }

/-- Allocates a row in a table under the next row id. -/
def newRow (s : Storage) (t : TableId) (values : List Value) : Except Failure Row × Storage :=
  match s.table? t with
  | .error f => (.error f, s)
  | .ok table =>
    let (row, store) := table.store.newRow s.nextRow values
    (.ok row, { s.setStore t store with nextRow := nextCount s.nextRow })

/-- Makes a call on the store of a table. -/
def call (s : Storage) (t : TableId) (c : StoreCall) : Except Failure Unit × Storage :=
  match s.table? t with
  | .error f => (.error f, s)
  | .ok table =>
    let noted := { s with calls := (t, c) :: s.calls }
    match table.faults s.calls.length c with
    | some f => (.error f, noted)
    | none =>
      match table.store.perform c with
      | .error f => (.error f, noted)
      | .ok store => (.ok (), noted.setStore t store)

/-- From now on exactly the calls of the given names fail on a table, if it is a watched one. -/
def failOn (s : Storage) (t : TableId) (names : List String) : Storage :=
  let faults : Nat → StoreCall → Option Failure := fun _ c =>
    if names.contains c.name then some c.refusal else none
  { s with tables := s.tables.modify t fun table =>
      if table.watched then { table with faults } else table }

def isWatched (s : Storage) (t : TableId) : Bool := (s.tables.get? t).any Table.watched

/-- The calls after the first `start` calls, the last one first. -/
def callsSince (s : Storage) (start : Nat) : List (TableId × StoreCall) :=
  s.calls.take (s.calls.length - start)

/-- The notes of the calls on watched tables after the first `start` calls, in order. -/
def notesSince (s : Storage) (start : Nat) : List String :=
  (s.callsSince start).reverse.filterMap fun (t, c) =>
    if s.isWatched t then c.note? else none

end Storage

end LockingDb
