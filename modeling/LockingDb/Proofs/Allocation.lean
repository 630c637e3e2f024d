import LockingDb.Proofs.StoreRuns

namespace LockingDb

namespace StoreCall

/-- The call hands in a row of a table at a position. -/
def HandsIn (k : StoreCall) (t : TableId) (p : RowPosition) : Prop :=
  k.hands = true ∧ k.row.table = t ∧ k.row.position = p

def FreesAt (k : StoreCall) (p : RowPosition) : Prop := k.frees = true ∧ k.row.position = p

end StoreCall

def StoreStep.allocates : StoreStep → Bool
  | .allocate _ _ => true
  | .call _ => false

namespace RowStore

open StoreCall

variable {store store' : RowStore} {row : Row} {k : StoreCall} {p : RowPosition} {t : TableId}
  {id : RowId} {values : List Value} {step : StoreStep} {steps : List StoreStep}

theorem perform_of_hands (h : k.hands = true) : store.perform k = store.indexRow k.row := by
  unfold hands at h
  split at h
  next => rfl
  next => rfl
  next => rfl
  next => cases h

theorem perform_of_frees (h : k.frees = true) :
    store.perform k = .ok (store.remove k.row.position) := by
  unfold frees at h
  split at h
  next => rfl
  next => rfl
  next => cases h

/-- Only a row of another table is not taken in, and a position can always be freed. -/
theorem of_refused {f : Failure} (hk : store.perform k = .error f) :
    (k.hands = true → k.row.table ≠ store.table) ∧ k.frees = false := by
  refine ⟨fun hhands htable => ?_, Bool.eq_false_iff.mpr fun hfrees => ?_⟩
  · rw [perform_of_hands hhands, indexRow, if_pos htable] at hk
    cases hk
  · rw [perform_of_frees hfrees] at hk
    cases hk

/-- No call gives out a position. There is a row at a position after a call if the call has handed one
in there, or if there was one before and the call has not freed the position. -/
theorem takeStep_call_rows (store : RowStore) (k : StoreCall) :
    (store.takeStep (.call k)).nextPosition = store.nextPosition ∧
      ∀ p, ((store.takeStep (.call k)).get? p).isSome = true ↔
        k.HandsIn store.table p ∨ (store.get? p).isSome = true ∧ ¬k.FreesAt p := by
  unfold HandsIn FreesAt
  cases hk : store.perform k with
  | error f =>
    obtain ⟨hhands, hfrees⟩ := of_refused hk
    simp only [takeStep, hk, hfrees, Bool.false_eq_true, false_and, not_false_eq_true, and_true,
      true_and]
    exact fun p => (or_iff_right fun hin => hhands hin.1 hin.2.1).symm
  | ok after =>
    rw [takeStep_of_ok hk]
    cases carriesOut hk with
    | stays hhands hfrees => exact ⟨rfl, fun p => by simp [hhands, hfrees]⟩
    | shows hhands hfrees hk =>
      obtain ⟨htable, rfl⟩ := of_indexRow hk
      refine ⟨rfl, fun p => ?_⟩
      unfold get?
      dsimp only
      rw [get?_indexed]
      split
      next hp => simp [hhands, htable, hp]
      next hp => simp [hfrees, Ne.symm hp]
    | hides hhands hfrees hk =>
      obtain ⟨-, rfl⟩ := of_delete hk
      exact ⟨rfl, fun p => by simp [get?, hhands, hfrees]⟩
    | frees hhands hfrees =>
      refine ⟨rfl, fun p => ?_⟩
      unfold get? remove
      rw [IdMap.get?_erase]
      split
      next hp => simp [hhands, hfrees, hp]
      next hp => simp [hhands, Ne.symm hp]

/-- The number of rows that have been allocated. -/
def allocations (steps : List StoreStep) : Nat := steps.countP StoreStep.allocates

/-- A row of a table has been handed in at a position, and the position has not been freed since. -/
def HandedIn (t : TableId) (steps : List StoreStep) (p : RowPosition) : Prop :=
  ∃ before k rest, steps = before ++ .call k :: rest ∧ k.HandsIn t p ∧
    ∀ later, .call later ∈ rest → ¬later.FreesAt p

theorem handedIn_concat : HandedIn t (steps ++ [step]) p ↔
    (∃ k, step = .call k ∧ k.HandsIn t p) ∨
      HandedIn t steps p ∧ ∀ k, step = .call k → ¬k.FreesAt p := by
  constructor
  · rintro ⟨before, k, rest, hsteps, hhands, hkept⟩
    induction rest using List.reverseRecOn with
    | nil =>
      obtain ⟨-, hlast⟩ := List.append_inj' hsteps rfl
      exact .inl ⟨k, List.singleton_inj.mp hlast, hhands⟩
    | append_singleton rest last _ =>
      have hsplit : steps ++ [step] = (before ++ .call k :: rest) ++ [last] := by
        rw [hsteps, List.append_assoc]
        rfl
      obtain ⟨rfl, hlast⟩ := List.append_inj' hsplit rfl
      obtain rfl := List.singleton_inj.mp hlast
      refine .inr ⟨⟨before, k, rest, rfl, hhands, fun later hlater => ?_⟩, fun later hlater => ?_⟩
      · exact hkept later (List.mem_append_left _ hlater)
      · exact hkept later (hlater ▸ List.mem_append_right _ List.mem_cons_self)
  · rintro (⟨k, rfl, hhands⟩ | ⟨⟨before, k, rest, rfl, hhands, hkept⟩, hlast⟩)
    · exact ⟨steps, k, [], rfl, hhands, nofun⟩
    · refine ⟨before, k, rest ++ [step], List.append_assoc .., hhands, fun later hlater => ?_⟩
      rcases List.mem_append.mp hlater with hlater | hlater
      · exact hkept later hlater
      · exact hlast later (List.mem_singleton.mp hlater).symm

/-- As long as the positions do not start over, those that the counter has not reached are occupied by
the rows that have been handed in there, and by no others. -/
theorem after_ahead (hcount : allocations steps + 1 < UInt64.size) :
    (after t steps).nextPosition = allocations steps + 1 ∧
      ∀ p, allocations steps < p →
        (((after t steps).get? p).isSome = true ↔ HandedIn t steps p) := by
  induction steps using List.reverseRecOn with
  | nil =>
    refine ⟨rfl, fun p _ => iff_of_false Bool.false_ne_true ?_⟩
    rintro ⟨before, k, rest, hsteps, -⟩
    cases before <;> cases hsteps
  | append_singleton steps step ih =>
    have hsteps : allocations (steps ++ [step]) = allocations steps + [step].countP StoreStep.allocates :=
      List.countP_append
    rw [hsteps] at hcount ⊢
    obtain ⟨hnext, hahead⟩ := ih (by omega)
    rw [after_concat]
    cases step with
    | allocate id values =>
      have hone : [StoreStep.allocate id values].countP StoreStep.allocates = 1 := rfl
      rw [hone] at hcount ⊢
      refine ⟨(congrArg nextCount hnext).trans (nextCount_eq hcount), fun p hp => ?_⟩
      have hne : p ≠ (after t steps).nextPosition := hnext ▸ Nat.ne_of_gt hp
      have hget : ((after t steps).takeStep (.allocate id values)).get? p = (after t steps).get? p :=
        get?_newRow.trans (if_neg hne)
      rw [hget, hahead p (Nat.lt_of_succ_lt hp), handedIn_concat]
      exact ⟨fun h => .inr ⟨h, nofun⟩, fun h => (h.resolve_left nofun).1⟩
    | call k =>
      obtain ⟨hkept, hrows⟩ := (after t steps).takeStep_call_rows k
      refine ⟨hkept.trans hnext, fun p hp => ?_⟩
      rw [hrows, hahead p hp, handedIn_concat, (coherent_after t steps).2]
      simp only [StoreStep.call.injEq, exists_eq_left', forall_eq']

/-- Rows are handed in only at positions that the counter has reached by then. -/
def HandsBack (steps : List StoreStep) : Prop :=
  ∀ before k rest, steps = before ++ .call k :: rest → k.hands = true →
    k.row.position ≤ allocations before

theorem HandsBack.not_handedIn (h : HandsBack steps) (hp : allocations steps < p) :
    ¬HandedIn t steps p := by
  rintro ⟨before, k, rest, rfl, ⟨hhands, -, rfl⟩, -⟩
  have hgrows : allocations before ≤ allocations (before ++ .call k :: rest) :=
    (List.sublist_append_left ..).countP_le
  exact Nat.not_lt_of_le (Nat.le_trans (h before k rest rfl hhands) hgrows) hp

/-- To allocate a row changes neither the scan nor any row, and makes no row visible. -/
structure Harmless (store : RowStore) (id : RowId) (values : List Value) : Prop where
  scan : (store.newRow id values).2.scan = store.scan
  rows : ∀ p old, store.get? p = some old → (store.newRow id values).2.get? p = some old
  hidden : (store.newRow id values).1 ∉ (store.newRow id values).2.scan

theorem Coherent.mem_scan_newRow (h : store.Coherent) :
    (store.newRow id values).1 ∈ (store.newRow id values).2.scan ↔
      store.nextPosition ∈ store.index := by
  rw [(h.newRow id values).mem_scan]
  exact and_iff_left (get?_newRow.trans (if_pos rfl))

theorem Coherent.scan_newRow_iff (h : store.Coherent) :
    (store.newRow id values).2.scan = store.scan ↔ (store.nextPosition ∈ store.index →
      store.get? store.nextPosition = some (store.newRow id values).1) := by
  constructor
  · intro hscan hvisible
    have hrow : (store.newRow id values).1 ∈ store.scan := hscan ▸ h.mem_scan_newRow.mpr hvisible
    exact (h.mem_scan.mp hrow).2
  · intro hsame
    refine List.filterMap_congr fun p hp => ?_
    rw [get?_newRow]
    split
    next hnext =>
      subst hnext
      exact (hsame hp).symm
    next => rfl

theorem rows_newRow_iff :
    (∀ p old, store.get? p = some old → (store.newRow id values).2.get? p = some old) ↔
      ∀ old, store.get? store.nextPosition = some old → old = (store.newRow id values).1 := by
  have hnext : (store.newRow id values).2.get? store.nextPosition =
      some (store.newRow id values).1 := get?_newRow.trans (if_pos rfl)
  constructor
  · intro hkept old hold
    exact Option.some.inj ((hkept _ old hold).symm.trans hnext)
  · intro hsame p old hold
    rw [get?_newRow]
    split
    next hp =>
      subst hp
      rw [hsame old hold]
    next => exact hold

/-- An allocation replaces the row, if any, that is at the next position, and shows the new one in its
place if it was visible. The next position is occupied if and only if a row was handed in there ahead of
the counter and is still there; so as long as only rows that were given out before are handed in again,
an allocation is harmless. -/
theorem allocation_harmless_iff (t : TableId) (steps : List StoreStep) (id : RowId)
    (values : List Value) :
    let store := after t steps
    let row := (store.newRow id values).1
    let fresh := (store.newRow id values).2
    (fresh.scan = store.scan ↔
      (store.nextPosition ∈ store.index → store.get? store.nextPosition = some row)) ∧
    ((∀ p old, store.get? p = some old → fresh.get? p = some old) ↔
      ∀ old, store.get? store.nextPosition = some old → old = row) ∧
    (row ∉ fresh.scan ↔ store.nextPosition ∉ store.index) ∧
    (allocations steps + 1 < UInt64.size →
      ((store.get? store.nextPosition).isSome = true ↔ HandedIn t steps store.nextPosition) ∧
      (HandsBack steps → store.Harmless id values)) := by
  intro store row fresh
  have hcoherent : store.Coherent := (coherent_after t steps).1
  refine ⟨hcoherent.scan_newRow_iff, rows_newRow_iff, not_congr hcoherent.mem_scan_newRow,
    fun hcount => ?_⟩
  obtain ⟨hnext, hahead⟩ := after_ahead (t := t) hcount
  have hlast : allocations steps < store.nextPosition := hnext ▸ Nat.lt_succ_self _
  have hoccupied := hahead store.nextPosition hlast
  refine ⟨hoccupied, fun hback => ?_⟩
  have hfree : ¬(store.get? store.nextPosition).isSome = true := fun hrow =>
    hback.not_handedIn hlast (hoccupied.mp hrow)
  have hhidden : store.nextPosition ∉ store.index := fun hvisible =>
    hfree (hcoherent.indexed _ hvisible)
  refine ⟨hcoherent.scan_newRow_iff.mpr fun hvisible => absurd hvisible hhidden,
    rows_newRow_iff.mpr fun old hold => ?_, fun hrow => hhidden (hcoherent.mem_scan_newRow.mp hrow)⟩
  exact absurd (by rw [hold]; rfl) hfree

/-- A row is handed in at the position that it was given. -/
def givenBack : List StoreStep :=
  [.allocate 1 [.integer 7], .call (.index ⟨1, 1, 1, [.integer 7]⟩)]

theorem handsBack_givenBack : HandsBack givenBack := by
  rintro (_ | ⟨first, _ | ⟨second, before⟩⟩) k rest hsteps hhands
  · cases hsteps
  · cases hsteps
    decide
  · have hlength := congrArg List.length hsteps
    simp [givenBack] at hlength

/-- A row is handed in at the first position, that no row has been given yet. -/
def handedAhead : List StoreStep := [.call (.index ⟨9, 1, 1, [.integer 5]⟩)]

theorem handedIn_handedAhead : HandedIn 1 handedAhead 1 :=
  ⟨[], .index ⟨9, 1, 1, [.integer 5]⟩, [], rfl, ⟨rfl, rfl, rfl⟩, nofun⟩

theorem allocation_harmless_iff_givenBack :
    allocations givenBack + 1 < UInt64.size ∧ HandsBack givenBack ∧
    (after 1 givenBack).Harmless 2 [.integer 8] ∧
    allocations handedAhead + 1 < UInt64.size ∧ HandedIn 1 handedAhead 1 ∧
    ((after 1 handedAhead).get? 1).isSome = true := by
  obtain ⟨-, -, -, hback⟩ := allocation_harmless_iff 1 givenBack 2 [.integer 8]
  obtain ⟨-, -, -, hahead⟩ := allocation_harmless_iff 1 handedAhead 1 [.integer 7]
  have hcount : allocations givenBack + 1 < UInt64.size := by decide
  have hcount' : allocations handedAhead + 1 < UInt64.size := by decide
  exact ⟨hcount, handsBack_givenBack, (hback hcount).2 handsBack_givenBack, hcount',
    handedIn_handedAhead, (hahead hcount').1.mpr handedIn_handedAhead⟩

/-- A row that is handed in at the first position is replaced by the first allocation. -/
theorem handed_in_row_replaced : ¬∀ (t : TableId) (steps : List StoreStep) (id : RowId)
    (values : List Value), (after t steps).Harmless id values := by
  intro hclaim
  have hharmless := hclaim 1 handedAhead 1 [.integer 7]
  exact absurd hharmless.scan (by decide)

end RowStore

end LockingDb
