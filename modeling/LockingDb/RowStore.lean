import LockingDb.ActionType
import LockingDb.Failure
import LockingDb.IdMap
import LockingDb.IdSet
import LockingDb.Row

namespace LockingDb

/-- The rows of one table. A row is allocated as long as it has an entry in `rows`, and visible as
long as its position is indexed. -/
structure RowStore where
  table : TableId
  nextPosition : RowPosition
  rows : IdMap Row
  index : IdSet
  deriving DecidableEq, Inhabited

namespace RowStore

def empty (table : TableId) : RowStore := ⟨table, 1, ∅, ∅⟩

def get? (s : RowStore) (position : RowPosition) : Option Row := s.rows.get? position

def isIndexed (s : RowStore) (position : RowPosition) : Bool := position ∈ s.index

/-- The number of allocated rows, visible or not. -/
def allocated (s : RowStore) : Nat := s.rows.size

/-- The number of visible rows. -/
def rowCount (s : RowStore) : Nat := s.index.size

/-- The visible rows in the order of their positions. -/
def scan (s : RowStore) : List Row := s.index.toList.filterMap s.get?

/-- Allocates a row under the next position. It is not visible yet. -/
def newRow (s : RowStore) (id : RowId) (values : List Value) : Row × RowStore :=
  let row : Row := ⟨id, s.nextPosition, s.table, values⟩
  (row, { s with
    nextPosition := nextCount s.nextPosition
    rows := s.rows.insert s.nextPosition row })

def notOurs (s : RowStore) (row : Row) : Failure :=
  .internal ("row " ++ toString row.id ++ " belongs to table " ++ toString row.table ++
    ", not " ++ toString s.table)

/-- Makes a row of the table visible. An allocated row keeps its place. -/
def indexRow (s : RowStore) (row : Row) : Except Failure RowStore :=
  if row.table = s.table then
    .ok { s with
      rows := if s.rows.contains row.position then s.rows else s.rows.insert row.position row
      index := s.index.insert row.position }
  else .error (s.notOurs row)

/-- Makes a row invisible; it stays allocated until the delete is final. -/
def delete (s : RowStore) (row : Row) : Except Failure RowStore :=
  if s.isIndexed row.position then .ok { s with index := s.index.erase row.position }
  else .error (.rowNotFound row.position)

/-- Frees a position. -/
def remove (s : RowStore) (position : RowPosition) : RowStore :=
  { s with rows := s.rows.erase position, index := s.index.erase position }

/-- Takes an action back: an inserted row goes, a deleted one becomes visible again. -/
def rollbackRow (s : RowStore) (row : Row) : ActionType → Except Failure RowStore
  | .insert => .ok (s.remove row.position)
  | .delete | .insertThenDelete => s.indexRow row
  | .none | .deleteFinal => .ok s

/-- Makes an action final: a row that is deleted for good is freed. -/
def commitRow (s : RowStore) (row : Row) : ActionType → Except Failure RowStore
  | .deleteFinal => .ok (s.remove row.position)
  | .insert | .delete | .insertThenDelete | .none => .ok s

end RowStore

end LockingDb
