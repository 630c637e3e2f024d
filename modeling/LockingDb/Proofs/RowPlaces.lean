import LockingDb.Commit
import LockingDb.Proofs.StoreContents
import Mathlib.Tactic.Tauto

namespace LockingDb

namespace RowAction

variable {a : RowAction} {as bs : List RowAction} {t : TableId} {p : RowPosition}

/-- The action has made a row visible at the position. -/
def Inserts (a : RowAction) (t : TableId) (p : RowPosition) : Prop :=
  a.store = t ∧ a.position = p ∧ a.type = .insert

/-- The action has made the row at the position invisible. -/
def Deletes (a : RowAction) (t : TableId) (p : RowPosition) : Prop :=
  a.store = t ∧ a.position = p ∧ (a.type = .delete ∨ a.type = .insertThenDelete)

/-- One of the actions has made a row visible at the position. -/
def Inserted (as : List RowAction) (t : TableId) (p : RowPosition) : Prop :=
  ∃ a ∈ as, a.Inserts t p

/-- One of the actions has made the row at the position invisible. -/
def Deleted (as : List RowAction) (t : TableId) (p : RowPosition) : Prop :=
  ∃ a ∈ as, a.Deletes t p

/-- Somebody has the row of the action in hand. -/
def InHand (a : RowAction) (inHand : List Row) : Prop := ∃ row ∈ inHand, a.isOn row = true

theorem inserted_cons : Inserted (a :: as) t p ↔ a.Inserts t p ∨ Inserted as t p := by
  simp [Inserted]

theorem deleted_cons : Deleted (a :: as) t p ↔ a.Deletes t p ∨ Deleted as t p := by
  simp [Deleted]

theorem not_inserted_nil : ¬Inserted [] t p := nofun

theorem not_deleted_nil : ¬Deleted [] t p := nofun

theorem deleted_append : Deleted (as ++ bs) t p ↔ Deleted as t p ∨ Deleted bs t p := by
  simp only [Deleted, List.mem_append, or_and_right, exists_or]

theorem deletes_delete {row : Row} {s : SessionId} {now : Timestamp} {insertedHere : Bool} :
    (delete s now t row insertedHere).Deletes t row.position := by
  refine ⟨rfl, rfl, ?_⟩
  cases insertedHere with
  | false => exact .inl rfl
  | true => exact .inr rfl

theorem isOn_delete {row : Row} {s : SessionId} {now : Timestamp} {insertedHere : Bool} :
    (delete s now t row insertedHere).isOn row = true := by
  simp [isOn, delete, ofRow]

end RowAction

namespace RowStore

variable {store store' : RowStore} {row : Row} {k : StoreCall} {p : RowPosition}

/-- Each row names the table and the position where it is found. -/
def Placed (store : RowStore) : Prop :=
  ∀ p row, store.get? p = some row → row.table = store.table ∧ row.position = p

theorem Placed.of_fewer (h : store.Placed) (htable : store'.table = store.table)
    (hrows : ∀ p row, store'.get? p = some row → store.get? p = some row) : store'.Placed := by
  intro p row hrow
  rw [htable]
  exact h p row (hrows p row hrow)

theorem Placed.insert (h : store.Placed) (row : Row) (htable : store'.table = store.table)
    (hrow : row.table = store.table) (hrows : store'.rows = store.rows.insert row.position row) :
    store'.Placed := by
  intro p other hother
  rw [get?, hrows, IdMap.get?_insert] at hother
  rw [htable]
  split at hother
  next hp =>
    cases hother
    exact ⟨hrow, hp.symm⟩
  next => exact h p other hother

theorem Placed.indexRow (h : store.Placed) (hk : store.indexRow row = .ok store') :
    store'.table = store.table ∧ store'.Placed := by
  obtain ⟨htable, rfl⟩ := of_indexRow hk
  refine ⟨rfl, ?_⟩
  split
  next => exact h.of_fewer rfl fun _ _ hother => hother
  next => exact h.insert row rfl htable rfl

theorem Placed.remove (h : store.Placed) {q : RowPosition} : (store.remove q).Placed :=
  h.of_fewer rfl fun _ _ => Storage.get?_remove

/-- No call puts a row where it does not belong. -/
theorem Placed.perform (h : store.Placed) (hk : store.perform k = .ok store') :
    store'.table = store.table ∧ store'.Placed := by
  cases carriesOut hk with
  | stays => exact ⟨rfl, h⟩
  | shows _ _ hk => exact h.indexRow hk
  | hides _ _ hk =>
    obtain ⟨-, rfl⟩ := of_delete hk
    exact ⟨rfl, h⟩
  | frees => exact ⟨rfl, h.remove⟩

end RowStore

namespace Storage

open RowAction

variable {s s' : Storage} {t u : TableId} {p : RowPosition} {row other : Row} {k : StoreCall}
  {store : RowStore} {a : RowAction} {as : List RowAction} {inHand : List Row} {now : Timestamp}

/-- The stores fail no call, and each row names the table and the position where it is found. -/
structure InPlace (s : Storage) : Prop where
  named : ∀ t, (s.storeOf t).table = t
  obeys : ∀ t table, s.tables.get? t = some table → ∀ n k, table.faults n k = none
  placed : ∀ t, (s.storeOf t).Placed

theorem Sound.inPlace (h : s.Sound) : s.InPlace where
  named := h.named
  obeys := h.obeys
  placed t p row hrow := by
    rw [h.named]
    exact h.placed t p row (get?_eq.trans hrow)

theorem get?_storeOf : s.get? t p = (s.storeOf t).get? p := get?_eq

/-- Each row names the table and the position where it is found. -/
def Found (s : Storage) : Prop :=
  ∀ ⦃t p row⦄, s.get? t p = some row → row.table = t ∧ row.position = p

theorem Found.get?_of_mem_scan (h : s.Found) (hrow : row ∈ s.scan t) :
    s.get? t row.position = some row :=
  Storage.get?_of_mem_scan (fun _ _ hget => (h hget).2) hrow

theorem InPlace.found (h : s.InPlace) : s.Found := by
  intro t p row hrow
  rw [get?_storeOf] at hrow
  have hplaced := h.placed t p row hrow
  rwa [h.named] at hplaced

theorem InPlace.puts (h : s.InPlace) (hput : s.Puts t store s') (htable : store.table = t)
    (hplaced : store.Placed) : s'.InPlace where
  named u := by
    rw [hput.storeOf]
    split
    next hu => exact htable.trans hu.symm
    next => exact h.named u
  obeys u table hu := by
    obtain ⟨old, hold, hfaults⟩ := table?_of_faults (hput.faults u) hu
    rw [← hfaults]
    exact h.obeys u old hold
  placed u := by
    rw [hput.storeOf]
    split
    next => exact hplaced
    next => exact h.placed u

theorem InPlace.call (h : s.InPlace) : (s.call t k).2.InPlace := by
  have hcall := s.call_calls t k
  generalize (s.call t k).1 = answer, (s.call t k).2 = after at hcall
  cases hcall with
  | refused hput => exact h.puts hput (h.named t) (h.placed t)
  | done ht hk hput =>
    obtain ⟨htable, hplaced⟩ := (h.placed t).perform hk
    exact h.puts hput (htable.trans (h.named t)) hplaced

theorem isSome_of_faults
    (h : (s'.tables.get? t).map Table.faults = (s.tables.get? t).map Table.faults) :
    (s'.tables.get? t).isSome = (s.tables.get? t).isSome := by
  have hsome := congrArg Option.isSome h
  rwa [Option.isSome_map, Option.isSome_map] at hsome

/-- No call creates or drops a table. -/
theorem isSome_call : ((s.call t k).2.tables.get? u).isSome = (s.tables.get? u).isSome := by
  have hcall := s.call_calls t k
  generalize (s.call t k).1 = answer, (s.call t k).2 = after at hcall
  cases hcall with
  | refused hput => exact isSome_of_faults (hput.faults u)
  | done _ _ hput => exact isSome_of_faults (hput.faults u)

theorem InPlace.newRow (h : s.InPlace) {values : List Value} : (s.newRow t values).2.InPlace := by
  unfold Storage.newRow table?
  cases htable : s.tables.get? t with
  | none => exact h
  | some table =>
    have hstore : s.storeOf t = table.store := by
      unfold storeOf
      rw [htable]
      rfl
    have hput : s.Puts t (table.store.newRow s.nextRow values).2
        (s.setStore t (table.store.newRow s.nextRow values).2) := puts_setStore (by simp [htable])
    have hbefore : table.store.Placed := hstore ▸ h.placed t
    let row : Row := ⟨s.nextRow, table.store.nextPosition, table.store.table, values⟩
    have hafter := h.puts hput (hstore ▸ h.named t) (hbefore.insert row rfl rfl rfl)
    exact ⟨hafter.named, hafter.obeys, hafter.placed⟩

/-- Only what its store refuses fails. -/
theorem InPlace.call_ok (h : s.InPlace) (ht : (s.tables.get? t).isSome = true)
    (hk : (s.storeOf t).perform k = .ok store) :
    (s.call t k).1 = .ok () ∧ s.Puts t store (s.call t k).2 := by
  obtain ⟨table, htable⟩ := Option.isSome_iff_exists.mp ht
  have hstore : s.storeOf t = table.store := by
    unfold storeOf
    rw [htable]
    rfl
  have hok : (s.call t k).1 = .ok () := by
    have hobeys := h.obeys t table htable s.calls.length k
    rw [hstore] at hk
    simp [Storage.call, table?, htable, hobeys, hk]
  refine ⟨hok, ?_⟩
  have hcall := s.call_calls t k
  generalize (s.call t k).1 = answer, (s.call t k).2 = after at hok hcall
  subst hok
  cases hcall with
  | done _ hdone hput =>
    cases hk.symm.trans hdone
    exact hput

theorem InPlace.mem_scan (h : s.InPlace) :
    row ∈ s.scan t ↔ row.position ∈ (s.storeOf t).index ∧ s.get? t row.position = some row := by
  rw [scan_eq]
  constructor
  · intro hrow
    obtain ⟨p, hp, hfound⟩ := List.mem_filterMap.mp hrow
    have hget : s.get? t p = some row := get?_eq.trans hfound
    rw [(h.found hget).2]
    exact ⟨IdSet.mem_toList.mp hp, hget⟩
  · rintro ⟨hvisible, hget⟩
    exact List.mem_filterMap.mpr ⟨row.position, IdSet.mem_toList.mpr hvisible, get?_eq.symm.trans hget⟩

/-- A position is freed, and nothing else changes. -/
theorem Puts.removes (h : s.Puts t ((s.storeOf t).remove p) s') (hs : s.InPlace)
    (hs' : s'.InPlace) :
    (∀ u q other, s'.get? u q = some other ↔ s.get? u q = some other ∧ ¬(t = u ∧ p = q)) ∧
      ∀ u other, other ∈ s'.scan u ↔ other ∈ s.scan u ∧ ¬(t = u ∧ p = other.position) := by
  have hget : ∀ u q other, s'.get? u q = some other ↔ s.get? u q = some other ∧ ¬(t = u ∧ p = q) := by
    intro u q other
    rw [h.get?]
    by_cases hu : u = t
    · subst hu
      by_cases hq : q = p
      · simp [RowStore.remove, RowStore.get?, hq]
      · simp [RowStore.remove, RowStore.get?, IdMap.get?_erase, hq, Ne.symm hq, get?_storeOf]
    · simp [hu, Ne.symm hu]
  refine ⟨hget, fun u other => ?_⟩
  rw [hs'.mem_scan, hs.mem_scan, hget, h.storeOf]
  by_cases hu : u = t
  · subst hu
    simp only [if_true, RowStore.remove, IdSet.mem_erase]
    tauto
  · simp [hu, Ne.symm hu]

/-- What is left when the actions have been made final, in whatever order: no row at a position
where one of them has deleted, and else what was there. -/
structure Finalized (as : List RowAction) (s s' : Storage) : Prop where
  inPlace : s'.InPlace
  left : ∀ t p row, s'.get? t p = some row ↔ s.get? t p = some row ∧ ¬Deleted as t p
  shown : ∀ t row, row ∈ s'.scan t ↔ row ∈ s.scan t ∧ ¬Deleted as t row.position

theorem Finalized.cons {s₂ : Storage} (h : Finalized [a] s s') (h₂ : Finalized as s' s₂) :
    Finalized (a :: as) s s₂ := by
  have hnone {t p} := @not_deleted_nil t p
  refine ⟨h₂.inPlace, fun t p row => ?_, fun t row => ?_⟩
  · rw [h₂.left, h.left, deleted_cons, deleted_cons]
    tauto
  · rw [h₂.shown, h.shown, deleted_cons, deleted_cons]
    tauto

theorem undo_of_row (hpending : a.type.isPending = true) :
    (a.undo (some row) now s).2.2 = (s.call a.store (.rollback row a.type)).2 := by
  unfold RowAction.undo
  rw [hpending, Bool.not_true, if_neg Bool.false_ne_true]
  dsimp only
  generalize s.call a.store (.rollback row a.type) = called
  obtain ⟨answer, s'⟩ := called
  cases answer <;> rfl

/-- An action whose row is gone has nothing to take back. -/
theorem undo_of_gone : (a.undo none now s).2.2 = s := by
  unfold RowAction.undo
  split <;> rfl

theorem undo_of_settled {found : Option Row} (hpending : a.type.isPending = false) :
    (a.undo found now s).2.2 = s := by
  unfold RowAction.undo
  rw [hpending]
  rfl

/-- Whatever an action is taken back on, no row is put where it does not belong. -/
theorem InPlace.undo (h : s.InPlace) {found : Option Row} : (a.undo found now s).2.2.InPlace := by
  cases hpending : a.type.isPending with
  | false =>
    rw [undo_of_settled hpending]
    exact h
  | true =>
    cases found with
    | none =>
      rw [undo_of_gone]
      exact h
    | some row =>
      rw [undo_of_row hpending]
      exact h.call

theorem isSome_undo {found : Option Row} :
    ((a.undo found now s).2.2.tables.get? u).isSome = (s.tables.get? u).isSome := by
  cases hpending : a.type.isPending with
  | false => rw [undo_of_settled hpending]
  | true =>
    cases found with
    | none => rw [undo_of_gone]
    | some row =>
      rw [undo_of_row hpending]
      exact isSome_call

theorem InPlace.undoAll (h : s.InPlace) : (Coordinator.undoAll now as s inHand).InPlace := by
  induction as generalizing s with
  | nil => exact h
  | cons a rest ih => exact ih h.undo

/-- The row of an action is at the position of the action, whoever has it. -/
theorem InPlace.position_of_row? (h : s.InPlace) (hrow : a.row? s inHand = some row) :
    row.position = a.position := by
  unfold RowAction.row? at hrow
  split at hrow
  next other hfound =>
    cases hrow
    have hon := List.find?_some hfound
    simp only [RowAction.isOn, Bool.and_eq_true, decide_eq_true_eq] at hon
    exact hon.1.2.symm
  next => exact (h.found hrow).2

theorem isSome_of_row? (hrow : a.row? s inHand = some row)
    (htable : a.InHand inHand → (s.tables.get? a.store).isSome = true) :
    (s.tables.get? a.store).isSome = true := by
  unfold RowAction.row? at hrow
  split at hrow
  next other hfound => exact htable ⟨other, List.mem_of_find?_eq_some hfound, List.find?_some hfound⟩
  next => exact isSome_of_get? hrow

/-- Where the row of an action is gone, there is none. -/
theorem get?_ne_of_row? (hnone : a.row? s inHand = none) (hplace : a.store = t ∧ a.position = p) :
    s.get? t p ≠ some row := by
  unfold RowAction.row? at hnone
  split at hnone
  next => cases hnone
  next =>
    rw [← hplace.1, ← hplace.2, hnone]
    nofun

theorem InPlace.finalize_delete (h : s.InPlace) (hposition : row.position = a.position)
    (htable : (s.tables.get? a.store).isSome = true)
    (htype : a.type = .delete ∨ a.type = .insertThenDelete) :
    (s.call a.store (.commit row (a.commit now).type)).1 = .ok () ∧
      Finalized [a] s (s.call a.store (.commit row (a.commit now).type)).2 := by
  have hfinal : (a.commit now).type = .deleteFinal := by
    rcases htype with hdelete | hdelete
    all_goals
      rw [RowAction.commit, hdelete]
      rfl
  have hk : (s.storeOf a.store).perform (.commit row (a.commit now).type) =
      .ok ((s.storeOf a.store).remove a.position) := by
    rw [hfinal, ← hposition]
    rfl
  have hafter := h.call (t := a.store) (k := .commit row (a.commit now).type)
  obtain ⟨hok, hput⟩ := h.call_ok htable hk
  obtain ⟨hleft, hshown⟩ := hput.removes h hafter
  have hdeletes (t : TableId) (p : RowPosition) :
      a.Deletes t p ↔ a.store = t ∧ a.position = p := by
    simp [RowAction.Deletes, htype]
  refine ⟨hok, hafter, fun t p other => ?_, fun t other => ?_⟩
  · rw [hleft, deleted_cons, hdeletes, or_iff_left not_deleted_nil]
  · rw [hshown, deleted_cons, hdeletes, or_iff_left not_deleted_nil]

/-- An action that has deleted nothing that is there leaves everything as it is. -/
theorem InPlace.finalized_same (h : s'.InPlace) (hleft : ∀ t p, s'.get? t p = s.get? t p)
    (hshown : ∀ t, s'.scan t = s.scan t) (hs : s.InPlace)
    (hdeletes : ∀ t p row, a.Deletes t p → s.get? t p ≠ some row) : Finalized [a] s s' := by
  refine ⟨h, fun t p row => ?_, fun t row => ?_⟩
  · have hdel := hdeletes t p row
    have hnone := @not_deleted_nil t p
    rw [hleft, deleted_cons]
    tauto
  · have hdel := hdeletes t row.position row
    have hnone := @not_deleted_nil t row.position
    rw [hshown, hs.mem_scan, deleted_cons]
    tauto

theorem InPlace.finalize_insert (h : s.InPlace) (htable : (s.tables.get? a.store).isSome = true)
    (htype : a.type = .insert) :
    (s.call a.store (.commit row (a.commit now).type)).1 = .ok () ∧
      Finalized [a] s (s.call a.store (.commit row (a.commit now).type)).2 := by
  have hk : (s.storeOf a.store).perform (.commit row (a.commit now).type) =
      .ok (s.storeOf a.store) := by
    rw [RowAction.commit, htype]
    rfl
  obtain ⟨hok, hput⟩ := h.call_ok htable hk
  have hcontents (t : TableId) : (s.call a.store (.commit row (a.commit now).type)).2.contents t =
      s.contents t := by
    rw [hput.contents]
    split
    next ht => rw [ht, contents]
    next => rfl
  refine ⟨hok, h.call.finalized_same (fun t p => by rw [get?_eq, get?_eq, hcontents])
    (fun t => by rw [scan_eq, scan_eq, hcontents]) h fun t p other hd => ?_⟩
  rcases hd.2.2 with hdelete | hdelete
  all_goals
    rw [htype] at hdelete
    cases hdelete

/-- To make pending actions final one after another is to make all of them final, and no store
fails. -/
theorem InPlace.finalizeAll (h : s.InPlace) (hpending : ∀ a ∈ as, a.type.isPending = true)
    (htables : ∀ a ∈ as, a.InHand inHand → (s.tables.get? a.store).isSome = true) :
    (Coordinator.finalizeAll now as s inHand).1 = none ∧
      Finalized as s (Coordinator.finalizeAll now as s inHand).2 := by
  induction as generalizing s with
  | nil =>
    exact ⟨rfl, h, fun t p row => (and_iff_left not_deleted_nil).symm,
      fun t row => (and_iff_left not_deleted_nil).symm⟩
  | cons a rest ih =>
    have hrest : ∀ b ∈ rest, b.type.isPending = true := fun b hb =>
      hpending b (List.mem_cons_of_mem a hb)
    have hlater : ∀ b ∈ rest, b.InHand inHand → (s.tables.get? b.store).isSome = true :=
      fun b hb => htables b (List.mem_cons_of_mem a hb)
    have hfirst := hpending a List.mem_cons_self
    unfold Coordinator.finalizeAll
    cases hrow : a.row? s inHand with
    | none =>
      obtain ⟨hnone, hfinal⟩ := ih h hrest hlater
      have hsame : Finalized [a] s s := h.finalized_same (fun _ _ => rfl) (fun _ => rfl) h
        fun t p row hd => get?_ne_of_row? hrow ⟨hd.1, hd.2.1⟩
      exact ⟨hnone, hsame.cons hfinal⟩
    | some row =>
      have hposition := h.position_of_row? hrow
      have htable := isSome_of_row? hrow (htables a List.mem_cons_self)
      have hstep : (s.call a.store (.commit row (a.commit now).type)).1 = .ok () ∧
          Finalized [a] s (s.call a.store (.commit row (a.commit now).type)).2 := by
        cases htype : a.type with
        | insert => exact h.finalize_insert htable htype
        | delete => exact h.finalize_delete hposition htable (Or.inl htype)
        | insertThenDelete => exact h.finalize_delete hposition htable (Or.inr htype)
        | none =>
          rw [htype] at hfirst
          cases hfirst
        | deleteFinal =>
          rw [htype] at hfirst
          cases hfirst
      have hkept (u : TableId) : ((s.call a.store (.commit row (a.commit now).type)).2.tables.get?
          u).isSome = (s.tables.get? u).isSome := isSome_call
      dsimp only
      generalize s.call a.store (.commit row (a.commit now).type) = called at hstep hkept
      obtain ⟨answer, s'⟩ := called
      obtain ⟨hok, hfinal⟩ := hstep
      cases hok
      obtain ⟨hnone, hall⟩ := ih hfinal.inPlace hrest fun b hb hheld =>
        (hkept b.store).trans (hlater b hb hheld)
      exact ⟨hnone, hfinal.cons hall⟩

end Storage

end LockingDb
