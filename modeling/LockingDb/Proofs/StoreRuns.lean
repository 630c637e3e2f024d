import LockingDb.Proofs.StorePlaces

namespace LockingDb

/-- What may be done to a row store: a row is allocated under an id, or a call is made. -/
inductive StoreStep where
  | allocate (id : RowId) (values : List Value)
  | call (k : StoreCall)
  deriving DecidableEq

namespace RowStore

variable {store store' : RowStore} {row : Row} {k : StoreCall} {p : RowPosition} {t : TableId}
  {id : RowId} {values : List Value} {step : StoreStep} {steps : List StoreStep}

/-- The store after a step. A call that it refuses leaves it as it was. -/
def takeStep (store : RowStore) : StoreStep → RowStore
  | .allocate id values => (store.newRow id values).2
  | .call k =>
    match store.perform k with
    | .ok after => after
    | .error _ => store

/-- The store of a table after steps that begin with the empty one. -/
def after (t : TableId) (steps : List StoreStep) : RowStore := steps.foldl takeStep (.empty t)

theorem after_concat : after t (steps ++ [step]) = (after t steps).takeStep step :=
  List.foldl_concat ..

theorem takeStep_of_ok (hk : store.perform k = .ok store') : store.takeStep (.call k) = store' := by
  simp only [takeStep, hk]

theorem takeStep_call (store : RowStore) (k : StoreCall) : store.takeStep (.call k) = store ∨
    store.perform k = .ok (store.takeStep (.call k)) := by
  cases hk : store.perform k with
  | error f => exact .inl (by simp only [takeStep, hk])
  | ok after => exact .inr (congrArg Except.ok (takeStep_of_ok hk).symm)

theorem get?_newRow : (store.newRow id values).2.get? p =
    if p = store.nextPosition then some (store.newRow id values).1 else store.get? p :=
  IdMap.get?_insert

/-- The rows and the index fit together: each row names the table and the position where it is found,
and each visible position has a row. -/
structure Coherent (store : RowStore) : Prop where
  placed : store.Placed
  indexed : ∀ p ∈ store.index, (store.get? p).isSome = true

theorem coherent_empty (t : TableId) : (empty t).Coherent := ⟨nofun, nofun⟩

theorem Coherent.newRow (h : store.Coherent) (id : RowId) (values : List Value) :
    (store.newRow id values).2.Coherent := by
  refine ⟨h.placed.insert (store.newRow id values).1 rfl rfl rfl, fun p hp => ?_⟩
  rw [get?_newRow]
  split
  next => rfl
  next => exact h.indexed p hp

/-- Whatever row and type of action a call comes with, rows and index fit together after it. -/
theorem Coherent.perform (h : store.Coherent) (hk : store.perform k = .ok store') :
    store'.Coherent := by
  refine ⟨(h.placed.perform hk).2, fun p hp => ?_⟩
  cases carriesOut hk with
  | stays => exact h.indexed p hp
  | shows _ _ hk =>
    obtain ⟨-, rfl⟩ := of_indexRow hk
    unfold get?
    dsimp only
    rw [get?_indexed]
    split
    next => rfl
    next hne => exact h.indexed p ((IdSet.mem_insert.mp hp).resolve_left hne)
  | hides _ _ hk =>
    obtain ⟨-, rfl⟩ := of_delete hk
    exact h.indexed p (IdSet.mem_erase.mp hp).1
  | frees =>
    obtain ⟨hold, hne⟩ := IdSet.mem_erase.mp hp
    have hsame : (store.remove k.row.position).get? p = store.get? p :=
      IdMap.get?_erase.trans (if_neg hne)
    rw [hsame]
    exact h.indexed p hold

theorem Coherent.takeStep (h : store.Coherent) (step : StoreStep) :
    (store.takeStep step).Coherent ∧ (store.takeStep step).table = store.table := by
  cases step with
  | allocate id values => exact ⟨h.newRow id values, rfl⟩
  | call k =>
    rcases store.takeStep_call k with hsame | hk
    · rw [hsame]
      exact ⟨h, rfl⟩
    · exact ⟨h.perform hk, (h.placed.perform hk).1⟩

theorem coherent_after (t : TableId) (steps : List StoreStep) :
    (after t steps).Coherent ∧ (after t steps).table = t := by
  induction steps using List.reverseRecOn with
  | nil => exact ⟨coherent_empty t, rfl⟩
  | append_singleton steps step ih =>
    obtain ⟨hcoherent, htable⟩ := ih
    obtain ⟨hstep, hsame⟩ := hcoherent.takeStep step
    rw [after_concat]
    exact ⟨hstep, hsame.trans htable⟩

/-- A scan gives a row for each visible position. -/
theorem Coherent.positions_scan (h : store.Coherent) :
    store.scan.map Row.position = store.index.toList := by
  unfold scan
  rw [List.map_filterMap]
  refine (List.filterMap_congr fun p hp => ?_).trans List.filterMap_some
  obtain ⟨row, hrow⟩ := Option.isSome_iff_exists.mp (h.indexed p hp)
  rw [hrow]
  exact congrArg some (h.placed p row hrow).2

theorem Coherent.mem_scan (h : store.Coherent) :
    row ∈ store.scan ↔ row.position ∈ store.index ∧ store.get? row.position = some row := by
  unfold scan
  rw [List.mem_filterMap]
  constructor
  · rintro ⟨p, hp, hrow⟩
    obtain rfl := (h.placed p row hrow).2
    exact ⟨hp, hrow⟩
  · rintro ⟨hp, hrow⟩
    exact ⟨row.position, hp, hrow⟩

/-- If every allocated row is visible, a scan gives all of them. -/
theorem Coherent.scan_eq_values (h : store.Coherent)
    (hall : ∀ p row, store.get? p = some row → p ∈ store.index) :
    store.scan = store.rows.values ∧ store.rowCount = store.allocated := by
  have hvisible : store.index = ⟨store.rows.keys, store.rows.increasing⟩ := by
    ext p
    refine Iff.trans ⟨h.indexed p, fun hrow => ?_⟩ IdMap.mem_keys.symm
    obtain ⟨row, hrow⟩ := Option.isSome_iff_exists.mp hrow
    exact hall p row hrow
  have hcontents : store.contents = .ofRows store.rows := Contents.ext rfl hvisible
  have hscan : store.contents.scan = store.rows.values := by
    rw [hcontents]
    exact (Contents.Evolved.start (m := store.rows)).scan
  refine ⟨hscan, ?_⟩
  unfold rowCount allocated IdSet.size IdMap.size
  rw [hvisible]
  exact List.length_map ..

end RowStore

end LockingDb
