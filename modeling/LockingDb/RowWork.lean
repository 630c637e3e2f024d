import LockingDb.Coordinator

namespace LockingDb

namespace Coordinator

/-- Makes an allocated row visible and records the insert. -/
def recordInsert (c : Coordinator) (s : SessionId) (store : TableId) (row : Row) :
    Except Failure Unit × Coordinator :=
  match c.storage.call store (.index row) with
  | (.error f, storage) => (.error f, c.withCalls s storage)
  | (.ok (), storage) =>
    let c := { c.withCalls s storage with owners := c.owners.claim s row.id }
    (.ok (), c.updateTx s fun tx => tx.pushAction (.insert s tx.actionAt store row))

/-- Makes a row invisible and records the delete, unless another session works on the row. -/
def recordDelete (c : Coordinator) (s : SessionId) (store : TableId) (row : Row) :
    Except Failure Unit × Coordinator :=
  match c.owners.check s row.id with
  | .error f => (.error f, c)
  | .ok () =>
    match c.storage.call store (.delete row) with
    | (.error f, storage) => (.error f, c.withCalls s storage)
    | (.ok (), storage) =>
      let c := { c.withCalls s storage with owners := c.owners.claim s row.id }
      (.ok (), c.updateTx s fun tx =>
        tx.pushAction (.delete s tx.actionAt store row (tx.insertedHere row.id)))

/-- Whether a session may delete all of the rows. -/
def checkDelete (c : Coordinator) (s : SessionId) (rows : List Row) : Except Failure Unit :=
  c.owners.checkAll s (rows.map Row.id)

/-- Allocates a row in a table and inserts it through a store. -/
def insertRow (c : Coordinator) (s : SessionId) (table store : TableId) (values : List Value) :
    Except Failure Row × Coordinator :=
  match c.storage.newRow table values with
  | (.error f, storage) => (.error f, { c with storage })
  | (.ok row, storage) =>
    match { c with storage }.recordInsert s store row with
    | (.error f, c) => (.error f, c)
    | (.ok (), c) => (.ok row, c)

end Coordinator

end LockingDb
