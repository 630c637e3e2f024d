import LockingDb.Proofs.StorePlaces

namespace LockingDb

namespace Storage

variable {s s' : Storage} {t u : TableId} {p : RowPosition} {row : Row} {k : StoreCall}
  {store : RowStore} {values : List Value}

/-- Tables are created in the order of their numbers. -/
def Created (s : Storage) : Prop := ∀ t, (s.tables.get? t).isSome = true → t < s.nextTable

/-- What holds of the tables whichever calls fail: rows are found where they say, and positions and
row ids are given out in order. -/
structure Sturdy (s : Storage) : Prop where
  named : ∀ t, (s.storeOf t).table = t
  created : ∀ t, (s.tables.get? t).isSome = true → t < s.nextTable
  bounded : s.nextRow < UInt64.size
  numbered : ∀ t, (s.storeOf t).nextPosition ≤ s.nextRow
  placed : ∀ t, (s.storeOf t).Placed
  allocated : ∀ t p row, s.get? t p = some row → p < (s.storeOf t).nextPosition

theorem sturdy_empty : empty.Sturdy where
  named _ := rfl
  created _ ht := nomatch ht
  bounded := by decide
  numbered _ := Nat.le_refl 1
  placed _ _ _ hrow := nomatch hrow
  allocated _ _ _ hrow := nomatch hrow

theorem Sturdy.found (hs : s.Sturdy) : s.Found := by
  intro t p row hrow
  rw [get?_storeOf] at hrow
  obtain ⟨htable, hposition⟩ := hs.placed t p row hrow
  exact ⟨htable.trans (hs.named t), hposition⟩

theorem get?_of_storeOf (h : s'.storeOf t = s.storeOf t) : s'.get? t p = s.get? t p := by
  rw [get?_storeOf, get?_storeOf, h]

/-- Nothing has changed but which calls fail, which tables exist and which calls were made. -/
theorem Sturdy.of_same (hs : s.Sturdy) (hstore : ∀ t, s'.storeOf t = s.storeOf t)
    (hrow : s'.nextRow = s.nextRow)
    (hcreated : ∀ t, (s'.tables.get? t).isSome = true → t < s'.nextTable) : s'.Sturdy where
  named t := hstore t ▸ hs.named t
  created := hcreated
  bounded := hrow ▸ hs.bounded
  numbered t := by
    rw [hstore, hrow]
    exact hs.numbered t
  placed t := hstore t ▸ hs.placed t
  allocated t p row hget := by
    rw [hstore]
    exact hs.allocated t p row ((get?_of_storeOf (hstore t)).symm.trans hget)

theorem Puts.created (h : s.Puts t store s') (hs : s.Created) : s'.Created := by
  intro u hu
  rw [h.nextTable]
  exact hs u ((isSome_of_faults (h.faults u)).symm.trans hu)

theorem Sturdy.puts (hs : s.Sturdy) (h : s.Puts t store s') (htable : store.table = t)
    (hplaced : store.Placed) (hnext : store.nextPosition = (s.storeOf t).nextPosition)
    (hrows : ∀ p row, store.get? p = some row → s.get? t p = some row) : s'.Sturdy where
  named u := by
    rw [h.storeOf]
    split
    next hu => exact htable.trans hu.symm
    next => exact hs.named u
  created := h.created hs.created
  bounded := h.nextRow ▸ hs.bounded
  numbered u := by
    rw [h.storeOf, h.nextRow]
    split
    next hu =>
      rw [hnext]
      exact hs.numbered t
    next => exact hs.numbered u
  placed u := by
    rw [h.storeOf]
    split
    next => exact hplaced
    next => exact hs.placed u
  allocated u p row hrow := by
    rw [h.get?] at hrow
    rw [h.storeOf]
    split at hrow
    next hu =>
      rw [if_pos hu, hnext]
      exact hs.allocated t p row (hrows p row hrow)
    next hu =>
      rw [if_neg hu]
      exact hs.allocated u p row hrow

/-- A call with a row that is there, whether it fails or not. -/
theorem Sturdy.call (hs : s.Sturdy) (hrow : s.get? t k.row.position = some k.row) :
    (s.call t k).2.Sturdy := by
  have hcall := s.call_calls t k
  generalize (s.call t k).1 = answer, (s.call t k).2 = after at hcall
  rw [get?_storeOf] at hrow
  cases hcall with
  | refused h =>
    exact hs.puts h (hs.named t) (hs.placed t) rfl fun p row hget => get?_storeOf.trans hget
  | done ht hk h =>
    obtain ⟨htable, hplaced⟩ := (hs.placed t).perform hk
    obtain ⟨hnext, hrows⟩ := RowStore.perform_keeps hrow hk
    exact hs.puts h (htable.trans (hs.named t)) hplaced hnext fun p row hget =>
      get?_storeOf.trans (hrows p row hget)

theorem Sturdy.indexRow_eq (hs : s.Sturdy) (hrow : s.get? t row.position = some row) :
    ∃ store, (s.storeOf t).indexRow row = .ok store := by
  have htable : row.table = (s.storeOf t).table := (hs.found hrow).1.trans (hs.named t).symm
  exact ⟨_, if_pos htable⟩

theorem eq_of_newRow (hnamed : (s.storeOf t).table = t) (hnew : s.newRow t values = (.ok row, s')) :
    (s.tables.get? t).isSome = true ∧ row = s.rowOf t values ∧
      s' = { s.setStore t ((s.storeOf t).newRow s.nextRow values).2 with
        nextRow := nextCount s.nextRow } := by
  unfold Storage.newRow table? at hnew
  cases htable : s.tables.get? t with
  | none =>
    rw [htable] at hnew
    cases hnew
  | some table =>
    have hstore := storeOf_of_get? htable
    rw [htable] at hnew
    rw [hstore] at hnamed
    obtain ⟨hrow, hafter⟩ := Prod.mk.inj hnew
    refine ⟨rfl, ?_, ?_⟩
    · rw [← Except.ok.inj hrow]
      simp only [rowOf, hstore, hnamed]
    · rw [← hafter, hstore]
      rfl

/-- As long as the numbers do not start over, a row that is allocated gets the next ones. -/
theorem Sturdy.newRow_allocates (hs : s.Sturdy) (hnew : s.newRow t values = (.ok row, s'))
    (hnext : s'.nextRow ≠ 0) :
    s.Allocates row s' ∧ row.table = t ∧ s.nextRow + 1 < UInt64.size := by
  obtain ⟨ht, rfl, rfl⟩ := eq_of_newRow (hs.named t) hnew
  obtain ⟨hroom, hcount⟩ := nextCount_of_ne_zero hs.bounded hnext (Nat.le_refl _)
  obtain ⟨-, hposition⟩ := nextCount_of_ne_zero hs.bounded hnext (hs.numbered t)
  have hput : s.Puts t ((s.storeOf t).newRow s.nextRow values).2
    (s.setStore t ((s.storeOf t).newRow s.nextRow values).2) := puts_setStore ht
  have hrow : ((s.storeOf t).newRow s.nextRow values).1 = s.rowOf t values := by
    simp only [RowStore.newRow, rowOf, hs.named t]
  refine ⟨⟨rfl, rfl, hcount, rfl, fun u => ?_, fun u => ?_, fun u => ?_, hput.faults⟩, rfl, hroom⟩
  · show ((s.setStore t _).storeOf u).table = _
    rw [hput.storeOf]
    split
    next hu => exact hu ▸ rfl
    next => rfl
  · show ((s.setStore t _).storeOf u).nextPosition = _ + if u = t then 1 else 0
    rw [hput.storeOf]
    split
    next hu => exact hu ▸ hposition
    next => rfl
  · show (s.setStore t _).contents u = if u = t then _ else _
    rw [hput.contents, ← hrow]
    split
    next hu => exact hu ▸ rfl
    next => rfl

theorem Sturdy.allocates (hs : s.Sturdy) (h : s.Allocates row s')
    (hroom : s.nextRow + 1 < UInt64.size) : s'.Sturdy where
  named u := (h.table u).trans (hs.named u)
  created u hu := by
    rw [h.nextTable]
    exact hs.created u ((isSome_of_faults (h.faults u)).symm.trans hu)
  bounded := by
    rw [h.nextRow]
    exact hroom
  numbered u := by
    rw [h.nextPosition, h.nextRow]
    refine Nat.add_le_add (hs.numbered u) ?_
    split <;> decide
  placed u p other hother := by
    rw [h.table, hs.named]
    rcases h.get?_cases (get?_storeOf.trans hother) with ⟨rfl, rfl, rfl⟩ | hold
    · exact ⟨rfl, rfl⟩
    · exact hs.found hold
  allocated u p other hother := by
    rw [h.nextPosition]
    rcases h.get?_cases hother with ⟨rfl, rfl, rfl⟩ | hold
    · rw [if_pos rfl, h.position]
      exact Nat.lt_succ_self _
    · exact Nat.lt_of_lt_of_le (hs.allocated u p other hold) (Nat.le_add_right _ _)

theorem spot_eq : s.spot t p =
    ((s.contents t).rows.get? p).map fun row => (row, decide (p ∈ (s.contents t).visible)) := rfl

/-- The row that is allocated goes to a free place. -/
theorem Sturdy.spot_free (hs : s.Sturdy) (h : s.Allocates row s') :
    s.spot row.table row.position = none := by
  rw [h.position, ← Option.map_eq_none_iff (f := Prod.fst), fst_spot]
  cases hrow : s.get? row.table (s.storeOf row.table).nextPosition with
  | none => rfl
  | some row => exact absurd (hs.allocated _ _ row hrow) (Nat.lt_irrefl _)

theorem Allocates.get?_self (h : s.Allocates row s') : s'.get? row.table row.position = some row := by
  rw [get?_eq, h.contents, if_pos rfl]
  exact IdMap.get?_insert_self

theorem Allocates.spot_of_ne (h : s.Allocates row s') (hne : ¬(u = row.table ∧ p = row.position)) :
    s'.spot u p = s.spot u p := by
  rw [spot_eq, spot_eq, h.contents]
  split
  next hu =>
    dsimp only
    rw [IdMap.get?_insert, if_neg fun hp => hne ⟨hu, hp⟩]
  next => rfl

/-- A table that is created is empty, as it was before. -/
theorem Created.createTable (hs : s.Created) (name : String) (watched : Bool) :
    (s.createTable name watched).2.Created ∧
      (∀ u, (s.createTable name watched).2.storeOf u = s.storeOf u) ∧
      (s.createTable name watched).2.nextRow = s.nextRow := by
  unfold Storage.createTable
  split
  next => exact ⟨hs, fun _ => rfl, rfl⟩
  next =>
    have hnew : s.tables.get? s.nextTable = none := by
      cases htable : s.tables.get? s.nextTable with
      | none => rfl
      | some table =>
        have ht : (s.tables.get? s.nextTable).isSome = true := by rw [htable]; rfl
        exact absurd (hs s.nextTable ht) (Nat.lt_irrefl _)
    have hget (u : TableId) : (s.addTable s.nextTable watched).tables.get? u =
        if u = s.nextTable then some (.empty s.nextTable watched) else s.tables.get? u :=
      IdMap.get?_insert
    refine ⟨fun u hu => ?_, fun u => ?_, rfl⟩
    · have hu : ((s.addTable s.nextTable watched).tables.get? u).isSome = true := hu
      rw [hget] at hu
      split at hu
      next hnext => exact Nat.lt_succ_of_le (Nat.le_of_eq hnext)
      next => exact Nat.lt_succ_of_lt (hs u hu)
    · show (s.addTable s.nextTable watched).storeOf u = s.storeOf u
      unfold storeOf
      rw [hget]
      split
      next hu => rw [hu, hnew]; rfl
      next => rfl

/-- The tables have the same stores and the same calls have been made, but other calls are going to
fail. -/
structure Refaulted (s s' : Storage) : Prop where
  stores : ∀ t, (s'.tables.get? t).map Table.store = (s.tables.get? t).map Table.store
  nextTable : s'.nextTable = s.nextTable
  nextRow : s'.nextRow = s.nextRow
  calls : s'.calls = s.calls

theorem Refaulted.storeOf (h : s.Refaulted s') (t : TableId) : s'.storeOf t = s.storeOf t :=
  congrArg (fun store => store.getD (.empty t)) (h.stores t)

theorem Refaulted.created (h : s.Refaulted s') (hs : s.Created) : s'.Created := by
  intro t ht
  have hsome := congrArg Option.isSome (h.stores t)
  rw [Option.isSome_map, Option.isSome_map] at hsome
  rw [h.nextTable]
  exact hs t (hsome.symm.trans ht)

/-- The tables, with other calls on one of them going to fail. -/
def refault (s : Storage) (t : TableId) (faults : Nat → StoreCall → Option Failure) : Storage :=
  { s with tables := s.tables.modify t ({ · with faults }) }

theorem refaulted_refault {faults : Nat → StoreCall → Option Failure} :
    s.Refaulted (s.refault t faults) := by
  refine ⟨fun u => ?_, rfl, rfl, rfl⟩
  unfold refault
  rw [IdMap.get?_modify]
  split
  next hu =>
    rw [hu, Option.map_map]
    rfl
  next => rfl

theorem fault?_refault {faults : Nat → StoreCall → Option Failure} {n : Nat} {f : Failure}
    (hf : (s.refault t faults).fault? n (t, k) = some f) : faults n k = some f := by
  unfold fault? faults? refault at hf
  rw [IdMap.get?_modify, if_pos rfl, Option.map_map] at hf
  obtain ⟨found, hfound, hfault⟩ := Option.bind_eq_some_iff.mp hf
  obtain ⟨table, -, rfl⟩ := Option.map_eq_some_iff.mp hfound
  exact hfault

end Storage

end LockingDb
