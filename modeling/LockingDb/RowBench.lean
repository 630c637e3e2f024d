import LockingDb.RowAction

namespace LockingDb

/-- A row that somebody has in hand. A row lives as long as it is in hand or in a store. -/
structure RowHandle where
  row : Row
  inHand : Bool
  deriving DecidableEq, Inhabited

/-- Row stores worked on by hand, without a coordinator. Stores, rows and actions are numbered from
0. `origins` says which of the rows stands at a position of a store, since two rows may look the
same; `origin` of an action is the row it was made for. -/
structure RowBench where
  storage : Storage
  origins : IdMap (IdMap Nat)
  handles : List RowHandle
  actions : List (RowAction × Nat)

namespace RowBench

/-- A bench with a store for each of the tables. -/
def ofTables (tables : List TableId) (nextRow : RowId) : RowBench where
  storage := { Storage.empty with
    nextRow
    tables := (tables.zipIdx.foldl (fun m (t, i) => m.insert i (.empty t true)) ∅) }
  origins := ∅
  handles := []
  actions := []

def store (b : RowBench) (i : Nat) : RowStore :=
  match b.storage.tables.get? i with
  | some table => table.store
  | none => .empty 0

def stores (b : RowBench) : List RowStore := b.storage.tables.values.map Table.store

def originsOf (b : RowBench) (i : Nat) : IdMap Nat := (b.origins.get? i).getD ∅

def row (b : RowBench) (h : Nat) : Row := ((b.handles[h]?).map RowHandle.row).getD default

/-- Somebody has the row in hand, or a store holds it. -/
def isAlive (b : RowBench) (h : Nat) : Bool :=
  (b.handles[h]?).any RowHandle.inHand || b.origins.values.any fun m => m.values.contains h

/-- Takes a row made outside the stores in hand. -/
def take (b : RowBench) (row : Row) : RowBench :=
  { b with handles := b.handles ++ [⟨row, true⟩] }

/-- Lets go of a row. -/
def letGo (b : RowBench) (h : Nat) : RowBench :=
  { b with handles := b.handles.modify h ({ · with inHand := false }) }

def setOrigin (b : RowBench) (i : Nat) (position : RowPosition) (h : Nat) : RowBench :=
  { b with origins := b.origins.insert i ((b.originsOf i).insert position h) }

/-- Allocates a row in a store and takes it in hand. -/
def newRow (b : RowBench) (i : Nat) (values : List Value) : Except Failure Row × RowBench :=
  match b.storage.newRow i values with
  | (.error f, storage) => (.error f, { b with storage })
  | (.ok row, storage) =>
    let b := { b with storage }.setOrigin i row.position b.handles.length
    (.ok row, b.take row)

/-- Sees to it that the origin at a position of a store is right after a call with row `h`. -/
def traceOrigin (b : RowBench) (i : Nat) (position : RowPosition) (h : Nat) : RowBench :=
  let origins := b.originsOf i
  if (b.store i).rows.contains position then
    if origins.contains position then b else b.setOrigin i position h
  else { b with origins := b.origins.insert i (origins.erase position) }

/-- Makes a call with row `h` on a store. -/
def call (b : RowBench) (i h : Nat) (c : StoreCall) : Except Failure Unit × RowBench :=
  let (answer, storage) := b.storage.call i c
  (answer, { b with storage }.traceOrigin i c.row.position h)

/-- Notes an action of a session on row `h`. -/
def addAction (b : RowBench) (a : RowAction) (h : Nat) : RowBench :=
  { b with actions := b.actions ++ [(a, h)] }

def action (b : RowBench) (a : Nat) : RowAction × Nat := (b.actions[a]?).getD default

/-- The row of an action and its number: the very row as long as it lives, else the one that now
stands at its position. -/
def resolve (b : RowBench) (a : Nat) : Option (Row × Nat) :=
  let (action, h) := b.action a
  if b.isAlive h then some (b.row h, h)
  else
    (action.row? b.storage).map fun row =>
      (row, ((b.originsOf action.store).get? action.position).getD h)

def setAction (b : RowBench) (a : Nat) (action : RowAction) : RowBench :=
  { b with actions := b.actions.modify a fun (_, h) => (action, h) }

def commitAction (b : RowBench) (a : Nat) (timestamp : Timestamp) : RowBench :=
  b.setAction a ((b.action a).1.commit timestamp)

def undoAction (b : RowBench) (a : Nat) (timestamp : Timestamp) :
    Except Failure Bool × RowBench :=
  let resolved := b.resolve a
  let (answer, action, storage) := (b.action a).1.undo (resolved.map Prod.fst) timestamp b.storage
  let b := { b with storage }.setAction a action
  match resolved with
  | some (row, h) => (answer, b.traceOrigin action.store row.position h)
  | none => (answer, b)

end RowBench

end LockingDb
