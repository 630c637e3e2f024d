import LockingDb.Failure
import LockingDb.IdMap

namespace LockingDb

/-- Which session's uncommitted work a row belongs to. Table locks keep sessions apart; this guards
deletes against a row that another session still works on. -/
structure RowOwnership where
  owners : IdMap SessionId
  deriving DecidableEq

namespace RowOwnership

def empty : RowOwnership := ⟨∅⟩

instance : Inhabited RowOwnership := ⟨empty⟩

def owner? (o : RowOwnership) (row : RowId) : Option SessionId := o.owners.get? row

/-- A session may touch a row that is free or its own. -/
def check (o : RowOwnership) (s : SessionId) (row : RowId) : Except Failure Unit :=
  match o.owner? row with
  | some owner => if owner = s then .ok () else .error (.overwriteConflict row)
  | none => .ok ()

/-- The first row that may not be touched decides. -/
def checkAll (o : RowOwnership) (s : SessionId) : List RowId → Except Failure Unit
  | [] => .ok ()
  | row :: rows =>
    match o.check s row with
    | .ok () => o.checkAll s rows
    | .error f => .error f

def claim (o : RowOwnership) (s : SessionId) (row : RowId) : RowOwnership :=
  ⟨o.owners.insert row s⟩

def release (o : RowOwnership) (rows : List RowId) : RowOwnership :=
  ⟨rows.foldl IdMap.erase o.owners⟩

def size (o : RowOwnership) : Nat := o.owners.size

def isEmpty (o : RowOwnership) : Bool := o.owners.isEmpty

theorem check_eq_ok {o : RowOwnership} {s : SessionId} {row : RowId} :
    o.check s row = .ok () ↔ ∀ owner, o.owner? row = some owner → owner = s := by
  unfold check
  split
  next owner h => by_cases hs : owner = s <;> simp [h, hs]
  next h => simp [h]

theorem owner?_claim {o : RowOwnership} {s : SessionId} {row other : RowId} :
    (o.claim s row).owner? other = if other = row then some s else o.owner? other :=
  IdMap.get?_insert

theorem owner?_release {o : RowOwnership} {rows : List RowId} {row : RowId} :
    (o.release rows).owner? row = if row ∈ rows then none else o.owner? row :=
  IdMap.get?_foldl_erase

end RowOwnership

end LockingDb
