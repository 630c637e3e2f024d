import LockingDb.Identifiers
import LockingDb.Value

namespace LockingDb

structure Row where
  id : RowId
  position : RowPosition
  table : TableId
  values : List Value
  deriving DecidableEq, Inhabited

end LockingDb
