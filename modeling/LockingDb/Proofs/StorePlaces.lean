import LockingDb.Proofs.Books
import LockingDb.Proofs.RowPlaces

namespace LockingDb

/-- What a call that is carried out makes of the row at its place. The flag says whether the row is
visible. -/
def StoreCall.put : StoreCall → Option (Row × Bool) → Option (Row × Bool)
  | .index row, spot | .rollback row .delete, spot | .rollback row .insertThenDelete, spot =>
    some ((spot.map Prod.fst).getD row, true)
  | .delete _, spot => spot.map fun (row, _) => (row, false)
  | .rollback _ .insert, _ | .commit _ .deleteFinal, _ => none
  | .rollback _ _, spot | .commit _ _, spot => spot

namespace RowStore

variable {store store' : RowStore} {row : Row} {k : StoreCall} {p : RowPosition}

/-- The row at a position, and whether it is visible. -/
def spot (store : RowStore) (p : RowPosition) : Option (Row × Bool) :=
  (store.get? p).map fun row => (row, store.isIndexed p)

theorem fst_spot : (store.spot p).map Prod.fst = store.get? p := by
  unfold spot
  cases store.get? p <;> rfl

theorem get?_indexed (p : RowPosition) : (if store.rows.contains row.position then store.rows
    else store.rows.insert row.position row).get? p =
      if p = row.position then some ((store.rows.get? p).getD row) else store.rows.get? p := by
  rw [IdMap.contains_eq]
  cases hrow : store.rows.get? row.position with
  | none =>
    simp only [Option.isSome_none, Bool.false_eq_true, if_false, IdMap.get?_insert]
    split
    next hp => rw [hp, hrow, Option.getD_none]
    next => rfl
  | some other =>
    simp only [Option.isSome_some, if_true]
    split
    next hp => rw [hp, hrow, Option.getD_some]
    next => rfl

theorem spot_indexRow (hk : store.indexRow row = .ok store') : store'.spot p =
    if p = row.position then some (((store.spot p).map Prod.fst).getD row, true) else store.spot p := by
  obtain ⟨-, rfl⟩ := of_indexRow hk
  rw [fst_spot]
  unfold spot get? isIndexed
  dsimp only
  rw [get?_indexed]
  split
  next hp => simp [hp]
  next hp => simp [hp]

theorem spot_delete (hk : store.delete row = .ok store') : store'.spot p =
    if p = row.position then (store.spot p).map fun (row, _) => (row, false) else store.spot p := by
  obtain ⟨-, rfl⟩ := of_delete hk
  unfold spot get? isIndexed
  rw [Option.map_map]
  split
  next hp => simp [hp, Function.comp_def]
  next hp => simp [hp]

theorem spot_remove {q : RowPosition} :
    (store.remove q).spot p = if p = q then none else store.spot p := by
  unfold remove spot get? isIndexed
  dsimp only
  rw [IdMap.get?_erase]
  split
  next => rfl
  next hp => simp [hp]

/-- A call changes its own place only. -/
theorem spot_perform (hk : store.perform k = .ok store') : store'.spot p =
    if p = k.row.position then k.put (store.spot p) else store.spot p := by
  have hstays (h : store' = store) : store'.spot p =
      if p = k.row.position then store.spot p else store.spot p := by rw [ite_self, h]
  cases k with
  | index row => exact spot_indexRow hk
  | delete row => exact spot_delete hk
  | rollback row type =>
    cases type with
    | insert =>
      cases hk
      exact spot_remove
    | delete => exact spot_indexRow hk
    | insertThenDelete => exact spot_indexRow hk
    | none => exact hstays (Except.ok.inj hk).symm
    | deleteFinal => exact hstays (Except.ok.inj hk).symm
  | commit row type =>
    cases type with
    | deleteFinal =>
      cases hk
      exact spot_remove
    | insert => exact hstays (Except.ok.inj hk).symm
    | delete => exact hstays (Except.ok.inj hk).symm
    | insertThenDelete => exact hstays (Except.ok.inj hk).symm
    | none => exact hstays (Except.ok.inj hk).symm

/-- A call with a row that is there gives out no position and puts no row anywhere. -/
theorem perform_keeps (hrow : store.get? k.row.position = some k.row)
    (hk : store.perform k = .ok store') : store'.nextPosition = store.nextPosition ∧
      ∀ p row, store'.get? p = some row → store.get? p = some row := by
  cases carriesOut hk with
  | stays => exact ⟨rfl, fun _ _ h => h⟩
  | shows _ _ hk =>
    have hthere : store.rows.contains k.row.position = true := by
      rw [IdMap.contains_eq, show store.rows.get? k.row.position = some k.row from hrow]
      rfl
    obtain ⟨-, rfl⟩ := of_indexRow hk
    rw [if_pos hthere]
    exact ⟨rfl, fun _ _ h => h⟩
  | hides _ _ hk =>
    obtain ⟨-, rfl⟩ := of_delete hk
    exact ⟨rfl, fun _ _ h => h⟩
  | frees => exact ⟨rfl, fun _ _ h => Storage.get?_remove h⟩

end RowStore

namespace Storage

variable {s s' s₁ : Storage} {t u : TableId} {p : RowPosition} {row : Row} {k : StoreCall}
  {store : RowStore} {f : Failure} {n : Nat} {call : TableId × StoreCall}
  {among : TableId × StoreCall → Prop}

/-- The row at a place of a table, and whether it is visible. -/
def spot (s : Storage) (t : TableId) (p : RowPosition) : Option (Row × Bool) := (s.storeOf t).spot p

theorem fst_spot : (s.spot t p).map Prod.fst = s.get? t p :=
  RowStore.fst_spot.trans get?_storeOf.symm

theorem get?_of_spot {shown : Bool} (h : s.spot t p = some (row, shown)) : s.get? t p = some row := by
  rw [← fst_spot, h]
  rfl

theorem spot_of_storeOf (h : s'.storeOf t = s.storeOf t) : s'.spot t p = s.spot t p :=
  congrArg (·.spot p) h

/-- The failure that is in store for a call if it is the call of a number. -/
def fault? (s : Storage) (n : Nat) (call : TableId × StoreCall) : Option Failure :=
  (s.faults? call.1).bind fun faults => faults n call.2

/-- The failure of the first one of calls to be made that fails. -/
def firstFault? (s : Storage) (calls : List (TableId × StoreCall)) : Option Failure :=
  (calls.zipIdx s.calls.length).findSome? fun made => s.fault? made.2 made.1

theorem Adds.fault? (h : s.Adds among s') : s'.fault? n call = s.fault? n call := by
  unfold Storage.fault?
  rw [h.faults]

theorem storeOf_of_get? {table : Table} (h : s.tables.get? t = some table) :
    s.storeOf t = table.store := by
  unfold storeOf
  rw [h]
  rfl

theorem calls_call (ht : (s.tables.get? t).isSome = true) :
    (s.call t k).2.calls = (t, k) :: s.calls := by
  obtain ⟨table, htable⟩ := Option.isSome_iff_exists.mp ht
  unfold Storage.call table?
  rw [htable]
  dsimp only
  split
  next => rfl
  next => split <;> rfl

/-- A call that is to fail fails with just that failure, and changes no table. -/
theorem call_of_fault (hfault : s.fault? s.calls.length (t, k) = some f) :
    (s.call t k).1 = .error f ∧ s.Puts t (s.storeOf t) (s.call t k).2 := by
  obtain ⟨faults, hfaults, hfails⟩ := Option.bind_eq_some_iff.mp hfault
  obtain ⟨table, htable, rfl⟩ := Option.map_eq_some_iff.mp hfaults
  have hfails : table.faults s.calls.length k = some f := hfails
  have hcall : s.call t k = (.error f, { s with calls := (t, k) :: s.calls }) := by
    unfold Storage.call table?
    simp only [htable, hfails]
  rw [hcall]
  exact ⟨rfl, puts_same rfl rfl rfl⟩

/-- A call that is not to fail does what the store does. -/
theorem call_of_free (ht : (s.tables.get? t).isSome = true)
    (hfree : s.fault? s.calls.length (t, k) = none) (hk : (s.storeOf t).perform k = .ok store) :
    (s.call t k).1 = .ok () ∧ s.Puts t store (s.call t k).2 := by
  obtain ⟨table, htable⟩ := Option.isSome_iff_exists.mp ht
  have hobeys : table.faults s.calls.length k = none := by
    have hfree := hfree
    unfold Storage.fault? faults? at hfree
    rw [htable] at hfree
    exact hfree
  rw [storeOf_of_get? htable] at hk
  have hok : (s.call t k).1 = .ok () := by
    unfold Storage.call table?
    simp only [htable, hobeys, hk]
  have hcall := s.call_calls t k
  generalize (s.call t k).1 = answer, (s.call t k).2 = after at hok hcall
  subst hok
  cases hcall with
  | done _ hdone hput =>
    rw [storeOf_of_get? htable, hk] at hdone
    cases hdone
    exact ⟨rfl, hput⟩

/-- A call changes at most its own place, and only if it succeeds. -/
theorem spot_call : (s.call t k).2.spot u p =
    if (s.call t k).1.isOk = true ∧ u = t ∧ p = k.row.position then k.put (s.spot u p)
    else s.spot u p := by
  have hcall := s.call_calls t k
  generalize (s.call t k).1 = answer, (s.call t k).2 = after at hcall
  unfold spot
  cases hcall with
  | refused h =>
    have hsame : after.storeOf u = s.storeOf u := by
      rw [h.storeOf]
      split
      next hu => rw [hu]
      next => rfl
    rw [hsame, if_neg fun hok => Bool.false_ne_true hok.1]
  | done ht hk h =>
    rw [h.storeOf]
    by_cases hu : u = t
    · subst hu
      rw [if_pos rfl, RowStore.spot_perform hk]
      by_cases hp : p = k.row.position
      · rw [if_pos hp, if_pos ⟨rfl, rfl, hp⟩]
      · rw [if_neg hp, if_neg fun hok => hp hok.2.2]
    · rw [if_neg hu, if_neg fun hok => hu hok.2.1]

theorem spot_call_of_ne (h : ¬(u = t ∧ p = k.row.position)) :
    (s.call t k).2.spot u p = s.spot u p := by
  rw [spot_call, if_neg fun hok => h hok.2]

theorem storeOf_call (hu : u ≠ t) : (s.call t k).2.storeOf u = s.storeOf u := by
  have hcall := s.call_calls t k
  generalize (s.call t k).1 = answer, (s.call t k).2 = after at hcall
  cases hcall with
  | refused h => rw [h.storeOf, if_neg hu]
  | done _ _ h => rw [h.storeOf, if_neg hu]

theorem storeOf_newRow {values : List Value} (hu : u ≠ t) :
    (s.newRow t values).2.storeOf u = s.storeOf u := by
  unfold Storage.newRow table?
  cases htable : s.tables.get? t with
  | none => rfl
  | some table =>
    have ht : (s.tables.get? t).isSome = true := by rw [htable]; rfl
    have hput : s.Puts t (table.store.newRow s.nextRow values).2
        (s.setStore t (table.store.newRow s.nextRow values).2) := puts_setStore ht
    exact (hput.storeOf u).trans (if_neg hu)

/-- A call that was made on the way from one storage to another one and has failed before it did
anything. -/
structure Refuses (s s' : Storage) (n : Nat) (call : TableId × StoreCall) : Prop where
  since : s.calls.length ≤ n
  made : s'.calls.reverse[n]? = some call
  fault : (s.fault? n call).isSome = true

theorem Refuses.after (h : s₁.Refuses s' n call) (hadds : s.Adds among s₁) : s.Refuses s' n call := by
  obtain ⟨made, hmade, -⟩ := hadds.calls
  refine ⟨?_, h.made, hadds.fault? ▸ h.fault⟩
  have hsince := h.since
  rw [hmade, List.length_append] at hsince
  exact Nat.le_of_add_left_le hsince

theorem Refuses.before (h : s.Refuses s₁ n call) (hadds : s₁.Adds among s') :
    s.Refuses s' n call := by
  obtain ⟨made, hmade, -⟩ := hadds.calls
  refine ⟨h.since, ?_, h.fault⟩
  have hn : n < s₁.calls.reverse.length := (List.getElem?_eq_some_iff.mp h.made).1
  rw [hmade, List.reverse_append, List.getElem?_append_left hn]
  exact h.made

theorem refuses_call (hfault : (s.fault? s.calls.length (t, k)).isSome = true) :
    s.Refuses (s.call t k).2 s.calls.length (t, k) := by
  obtain ⟨f, hf⟩ := Option.isSome_iff_exists.mp hfault
  obtain ⟨faults, hfaults, -⟩ := Option.bind_eq_some_iff.mp hf
  obtain ⟨table, htable, -⟩ := Option.map_eq_some_iff.mp hfaults
  have ht : (s.tables.get? t).isSome = true := by rw [htable]; rfl
  refine ⟨Nat.le_refl _, ?_, hfault⟩
  rw [calls_call ht, List.reverse_cons, ← List.length_reverse]
  exact List.getElem?_concat_length

/-- No call for a place that was made on the way from one storage to another one has failed. -/
def Spared (s s' : Storage) (t : TableId) (p : RowPosition) : Prop :=
  ∀ n k, s.Refuses s' n (t, k) → k.row.position ≠ p

theorem Spared.first (h : s.Spared s' t p) (hadds : s₁.Adds among s') : s.Spared s₁ t p :=
  fun n k hrefuses => h n k (hrefuses.before hadds)

theorem Spared.last (h : s.Spared s' t p) (hadds : s.Adds among s₁) : s₁.Spared s' t p :=
  fun n k hrefuses => h n k (hrefuses.after hadds)

theorem Spared.fault?_eq_none (h : s.Spared (s.call t k).2 t k.row.position) :
    s.fault? s.calls.length (t, k) = none := by
  cases hfault : s.fault? s.calls.length (t, k) with
  | none => rfl
  | some f =>
    have hsome : (s.fault? s.calls.length (t, k)).isSome = true := by rw [hfault]; rfl
    exact absurd rfl (h _ k (refuses_call hsome))

end Storage

end LockingDb
