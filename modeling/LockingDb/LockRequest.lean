import LockingDb.IdSet
import LockingDb.Identifiers

namespace LockingDb

/-- The tables that a statement reads and writes, asked for in one step. A table that is written
is not listed for reading too. -/
structure LockRequest where
  reads : IdSet
  writes : IdSet
  disjoint : ∀ t ∈ reads, ¬t ∈ writes
  deriving DecidableEq

namespace LockRequest

def ofTables (reads writes : List TableId) : LockRequest where
  reads := (IdSet.ofList reads).filter (· ∉ IdSet.ofList writes)
  writes := IdSet.ofList writes
  disjoint := fun t ht => by simpa using (IdSet.mem_filter.mp ht).2

def read (tables : List TableId) : LockRequest := ofTables tables []

def write (tables : List TableId) : LockRequest := ofTables [] tables

instance : Inhabited LockRequest := ⟨ofTables [] []⟩

def isEmpty (r : LockRequest) : Bool := r.reads.isEmpty && r.writes.isEmpty

def allowsWrite (r : LockRequest) (t : TableId) : Bool := t ∈ r.writes

/-- A table that may be written may be read. -/
def allowsRead (r : LockRequest) (t : TableId) : Bool := r.allowsWrite t || t ∈ r.reads

/-- Two sessions could not hold both requests at the same time. -/
def conflictsWith (r q : LockRequest) : Bool :=
  r.writes.toList.any q.allowsRead || q.writes.toList.any r.allowsRead

theorem allowsWrite_iff {r : LockRequest} {t : TableId} :
    r.allowsWrite t = true ↔ t ∈ r.writes := by
  simp [allowsWrite]

theorem allowsRead_iff {r : LockRequest} {t : TableId} :
    r.allowsRead t = true ↔ t ∈ r.writes ∨ t ∈ r.reads := by
  simp [allowsRead, allowsWrite]

@[ext] theorem ext {r q : LockRequest} (hr : r.reads = q.reads) (hw : r.writes = q.writes) :
    r = q := by
  cases r
  cases q
  simp_all

end LockRequest

end LockingDb
