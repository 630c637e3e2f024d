import LockingDb.Commit
import LockingDb.Proofs.StoreContents
import Mathlib.Data.List.Forall2

namespace LockingDb

/-- What a change is noted as after the changes before it. -/
def Change.type (before : List Change) : Change → ActionType
  | .insert _ => .insert
  | .delete row => if .insert row ∈ before then .insertThenDelete else .delete

/-- The actions are the notes of the changes. -/
inductive Logged (s : SessionId) : List RowAction → List Change → Prop where
  | nil : Logged s [] []
  | concat {as : List RowAction} {ks : List Change} (h : Logged s as ks) (k : Change)
    (now : Timestamp) :
    Logged s (as ++ [.ofRow (k.type ks) s now k.table k.row]) (ks ++ [k])

/-- The places in a log of the actions on a row. -/
def placesIn (row : RowId) (as : List RowAction) : List Nat :=
  (List.range as.length).filter fun i => (as[i]?).any (·.row = row)

/-- The index lists the places of all rows that have any. -/
def Indexes (index : IdMap (List Nat)) (as : List RowAction) : Prop :=
  ∀ row, index.get? row = if placesIn row as = [] then none else some (placesIn row as)

section Index

variable {index : IdMap (List Nat)} {as bs : List RowAction} {a : RowAction} {row : RowId}

theorem placesIn_concat :
    placesIn row (as ++ [a]) = placesIn row as ++ if a.row = row then [as.length] else [] := by
  unfold placesIn
  rw [List.length_append, List.length_singleton, List.range_succ, List.filter_append]
  congr 1
  · refine List.filter_congr fun i hi => ?_
    rw [List.getElem?_append_left (List.mem_range.mp hi)]
  · by_cases ha : a.row = row <;> simp [ha]

theorem Indexes.getD (h : Indexes index as) : (index.get? row).getD [] = placesIn row as := by
  rw [h row]
  split
  next hnone => rw [hnone]; rfl
  next => rfl

theorem indexes_empty : Indexes ∅ [] := fun _ => rfl

theorem Indexes.insert (h : Indexes index as) :
    Indexes (index.insert a.row ((index.get? a.row).getD [] ++ [as.length])) (as ++ [a]) := by
  intro row
  rw [h.getD, IdMap.get?_insert, placesIn_concat]
  by_cases hrow : row = a.row
  · rw [if_pos hrow, hrow, if_pos rfl, if_neg (by simp)]
  · rw [if_neg hrow, if_neg (Ne.symm hrow), List.append_nil]
    exact h row

theorem Indexes.popPlace (h : Indexes index (as ++ [a])) :
    Indexes (SessionTx.popPlace index a.row) as := by
  have hfound : index.get? a.row = some (placesIn a.row as ++ [as.length]) := by
    rw [h a.row, placesIn_concat, if_pos rfl, if_neg (by simp)]
  intro row
  have hother (hrow : row ≠ a.row) : index.get? row =
      if placesIn row as = [] then none else some (placesIn row as) := by
    have hold := h row
    rwa [placesIn_concat, if_neg (Ne.symm hrow), List.append_nil] at hold
  unfold SessionTx.popPlace
  rw [hfound]
  dsimp only
  rw [List.dropLast_concat]
  split
  next hempty =>
    rw [IdMap.get?_erase]
    split
    next hrow => rw [hrow, if_pos (List.isEmpty_iff.mp hempty)]
    next hrow => exact hother hrow
  next hleft =>
    rw [IdMap.get?_insert]
    split
    next hrow => rw [hrow, if_neg fun hnil => hleft (List.isEmpty_iff.mpr hnil)]
    next hrow => exact hother hrow

theorem Indexes.popAll (h : Indexes index (as ++ bs)) :
    Indexes ((bs.reverse.map RowAction.row).foldl SessionTx.popPlace index) as := by
  induction bs using List.reverseRecOn generalizing index with
  | nil => simpa using h
  | append_singleton bs b ih =>
    rw [List.reverse_append, List.reverse_singleton, List.singleton_append, List.map_cons,
      List.foldl_cons]
    rw [← List.append_assoc] at h
    exact ih h.popPlace

theorem mem_placesIn {i : Nat} : i ∈ placesIn row as ↔ ∃ a, as[i]? = some a ∧ a.row = row := by
  unfold placesIn
  rw [List.mem_filter, List.mem_range, Option.any_eq_true]
  constructor
  · rintro ⟨-, a, ha, hrow⟩
    exact ⟨a, ha, of_decide_eq_true hrow⟩
  · rintro ⟨a, ha, hrow⟩
    exact ⟨(List.getElem?_eq_some_iff.mp ha).1, a, ha, decide_eq_true hrow⟩

end Index

namespace SessionTx

variable {tx : SessionTx} {start : Nat} {a : RowAction} {row : RowId}

theorem indexes_pushAction (h : Indexes tx.rowIndex tx.actions) :
    Indexes (tx.pushAction a).rowIndex (tx.pushAction a).actions := h.insert

theorem truncateActions_actions (start : Nat) :
    (tx.truncateActions start).2.actions = tx.actions.take start := by
  unfold truncateActions
  split
  next hshort => exact (List.take_of_length_le hshort).symm
  next => rfl

theorem truncateActions_removed (start : Nat) :
    (tx.truncateActions start).1 = tx.actions.drop start := by
  unfold truncateActions
  split
  next hshort => exact (List.drop_eq_nil_of_le hshort).symm
  next => rfl

theorem indexes_truncateActions (h : Indexes tx.rowIndex tx.actions) (start : Nat) :
    Indexes (tx.truncateActions start).2.rowIndex (tx.truncateActions start).2.actions := by
  rw [truncateActions_actions]
  unfold truncateActions
  split
  next hshort => rwa [List.take_of_length_le hshort]
  next =>
    refine Indexes.popAll ?_
    rwa [List.take_append_drop]

theorem insertedHere_iff (h : Indexes tx.rowIndex tx.actions) :
    tx.insertedHere row = true ↔ ∃ a ∈ tx.actions, a.row = row ∧ a.type = .insert := by
  unfold insertedHere placesOf
  rw [h.getD, List.any_eq_true]
  constructor
  · rintro ⟨i, hi, hinsert⟩
    obtain ⟨a, ha, hrow⟩ := mem_placesIn.mp hi
    rw [ha] at hinsert
    exact ⟨a, List.mem_of_getElem? ha, hrow, of_decide_eq_true hinsert⟩
  · rintro ⟨a, ha, hrow, hinsert⟩
    obtain ⟨i, hi⟩ := List.mem_iff_getElem?.mp ha
    refine ⟨i, mem_placesIn.mpr ⟨a, hi, hrow⟩, ?_⟩
    rw [hi]
    exact decide_eq_true hinsert

end SessionTx

/-- The action is on the row of the change, and has a type that fits. -/
structure RowAction.Notes (a : RowAction) (k : Change) : Prop where
  row : a.row = k.row.id
  store : a.store = k.table
  position : a.position = k.row.position
  type : k.Fits a.type

section Log

variable {s : SessionId} {as : List RowAction} {ks ks₀ : List Change} {k : Change} {a : RowAction}
  {now : Timestamp}

theorem Logged.take (h : Logged s as ks) (n : Nat) : Logged s (as.take n) (ks.take n) := by
  induction h with
  | nil => simpa using Logged.nil
  | @concat as ks h k now ih =>
    have hlength : as.length = ks.length := by
      clear ih
      induction h with
      | nil => rfl
      | concat h k now ih => simp [ih]
    by_cases hn : n ≤ as.length
    · rw [List.take_append_of_le_length hn, List.take_append_of_le_length (hlength ▸ hn)]
      exact ih
    · rw [List.take_of_length_le (by simp; omega), List.take_of_length_le (by simp; omega)]
      exact .concat h k now

theorem Logged.notes (h : Logged s as ks) : List.Forall₂ RowAction.Notes as ks := by
  induction h with
  | nil => exact .nil
  | @concat as ks h k now ih =>
    refine List.rel_append ih (.cons ⟨rfl, rfl, rfl, ?_⟩ .nil)
    cases k with
    | insert row => rfl
    | delete row =>
      show (if .insert row ∈ ks then ActionType.insertThenDelete else .delete) = .delete ∨
        (if .insert row ∈ ks then ActionType.insertThenDelete else .delete) = .insertThenDelete
      split
      · exact Or.inr rfl
      · exact Or.inl rfl

theorem Logged.length_eq (h : Logged s as ks) : as.length = ks.length := h.notes.length_eq

theorem exists_change_of_mem (h : List.Forall₂ RowAction.Notes as ks) (ha : a ∈ as) :
    ∃ k ∈ ks, a.Notes k := by
  induction h with
  | nil => cases ha
  | @cons b j as ks hb _ ih =>
    rcases List.mem_cons.mp ha with rfl | hrest
    · exact ⟨j, List.mem_cons_self, hb⟩
    · obtain ⟨k, hk, hnotes⟩ := ih hrest
      exact ⟨k, List.mem_cons_of_mem j hk, hnotes⟩

theorem exists_action_of_mem (h : List.Forall₂ RowAction.Notes as ks) (hk : k ∈ ks) :
    ∃ a ∈ as, a.Notes k := by
  induction h with
  | nil => cases hk
  | @cons b j as ks hb _ ih =>
    rcases List.mem_cons.mp hk with rfl | hrest
    · exact ⟨b, List.mem_cons_self, hb⟩
    · obtain ⟨a, ha, hnotes⟩ := ih hrest
      exact ⟨a, List.mem_cons_of_mem b ha, hnotes⟩

theorem RowAction.Notes.isPending (h : a.Notes k) : a.type.isPending = true := by
  have htype := h.type
  cases k with
  | insert row => rw [show a.type = .insert from htype]; rfl
  | delete row => rcases htype with htype | htype <;> rw [htype] <;> rfl

namespace Coordinator

variable {storage : Storage} {bs : List RowAction} {js : List Change} {j : Change} {b : RowAction}

theorem undo_edits (hs : storage.Sound) (h : b.Notes j)
    (hrow : storage.get? j.table j.row.position = some j.row) :
    storage.Edits j.table ((storage.contents j.table).undo j)
      (b.undo (b.row? storage) now storage).2.2 := by
  have hfound : b.row? storage = some j.row := by
    rw [RowAction.row?_eq_get?, h.store, h.position]
    exact hrow
  obtain ⟨hok, hedits⟩ := hs.call_rollback hrow h.type
  unfold RowAction.undo
  rw [hfound, h.isPending, h.store]
  simp only [Bool.not_true, Bool.false_eq_true, if_false]
  generalize storage.call j.table (.rollback j.row b.type) = called at hok hedits
  obtain ⟨answer, after⟩ := called
  subst hok
  exact hedits

/-- The undo of actions, the newest first, takes the changes back that they note. -/
theorem undoAll_evolved (now : Timestamp) (hs : storage.Sound)
    (h : List.Forall₂ RowAction.Notes bs js)
    (hevolved : ∀ j ∈ js, ∃ m, Contents.Evolved m (Change.onTable j.table (ks₀ ++ js.reverse))
      (storage.contents j.table)) :
    (undoAll now bs storage).Sound ∧
      (∀ t, Change.onTable t js = [] → (undoAll now bs storage).contents t = storage.contents t) ∧
      ∀ t m, Contents.Evolved m (Change.onTable t (ks₀ ++ js.reverse)) (storage.contents t) →
        Contents.Evolved m (Change.onTable t ks₀) ((undoAll now bs storage).contents t) := by
  induction h generalizing storage with
  | nil =>
    refine ⟨hs, fun _ _ => rfl, fun t m hm => ?_⟩
    simpa [undoAll] using hm
  | @cons b j bs js hb hrest ih =>
    have hsplit (t : TableId) : Change.onTable t (ks₀ ++ (j :: js).reverse) =
        Change.onTable t (ks₀ ++ js.reverse) ++ if j.table = t then [j] else [] := by
      rw [List.reverse_cons, ← List.append_assoc, Change.onTable_append, Change.onTable_singleton]
    have hlast (m : IdMap Row) (hm : Contents.Evolved m
        (Change.onTable j.table (ks₀ ++ (j :: js).reverse)) (storage.contents j.table)) :
        Contents.Evolved m (Change.onTable j.table (ks₀ ++ js.reverse) ++ [j])
          (storage.contents j.table) := by
      rwa [hsplit, if_pos rfl] at hm
    obtain ⟨m₀, hm₀⟩ := hevolved j List.mem_cons_self
    have hrow := ((hlast m₀ hm₀).of_mem (List.mem_append_right _ List.mem_cons_self)).1
    have hedits : storage.Edits j.table ((storage.contents j.table).undo j)
      (b.undo (b.row? storage) now storage).2.2 := undo_edits hs hb (Storage.get?_eq.trans hrow)
    have hstep (t : TableId) (m : IdMap Row) (hm : Contents.Evolved m
        (Change.onTable t (ks₀ ++ (j :: js).reverse)) (storage.contents t)) :
        Contents.Evolved m (Change.onTable t (ks₀ ++ js.reverse))
          ((b.undo (b.row? storage) now storage).2.2.contents t) := by
      by_cases ht : j.table = t
      · subst ht
        rw [hedits.contents]
        exact (hlast m hm).undo
      · rw [hsplit, if_neg ht, List.append_nil] at hm
        rw [hedits.others t (Ne.symm ht)]
        exact hm
    obtain ⟨hsound, hsame, hback⟩ := ih hedits.sound fun i hi => by
      obtain ⟨m, hm⟩ := hevolved i (List.mem_cons_of_mem j hi)
      exact ⟨m, hstep i.table m hm⟩
    refine ⟨hsound, fun t ht => ?_, fun t m hm => hback t m (hstep t m hm)⟩
    have hj := Change.onTable_eq_nil.mp ht j List.mem_cons_self
    have hjs := Change.onTable_eq_nil.mpr fun i hi =>
      Change.onTable_eq_nil.mp ht i (List.mem_cons_of_mem j hi)
    exact (hsame t hjs).trans (hedits.others t (Ne.symm hj))

theorem settle_of_free {c : Contents} (hfree : c.rows.get? k.row.position = none) :
    c.settle k = c := by
  cases k with
  | insert row => rfl
  | delete row =>
    refine Contents.ext (IdMap.ext fun p => ?_) rfl
    show (c.rows.erase row.position).get? p = c.rows.get? p
    rw [IdMap.get?_erase]
    split
    next hp =>
      rw [hp]
      exact hfree.symm
    next => rfl

theorem get?_settle {c : Contents} {p : RowPosition} {row : Row}
    (h : (c.settle k).rows.get? p = some row) : c.rows.get? p = some row := by
  cases k with
  | insert _ => exact h
  | delete old =>
    have herased : (c.rows.erase old.position).get? p = some row := h
    rw [IdMap.get?_erase] at herased
    split at herased
    next => cases herased
    next => exact herased

theorem settle_visible {c : Contents} : (c.settle k).visible = c.visible := by
  cases k <;> rfl

/-- A step of the finalization settles one change. -/
theorem finalizeAll_cons (hs : storage.Sound) (h : a.Notes k)
    (hrow : ∀ row, (storage.contents k.table).rows.get? k.row.position = some row → row = k.row)
    (hgone : ∀ row, k = .delete row → ¬row.position ∈ (storage.contents k.table).visible) :
    ∃ after, storage.Edits k.table ((storage.contents k.table).settle k) after ∧
      finalizeAll now (a :: as) storage = finalizeAll now as after := by
  have hfound : a.row? storage = (storage.contents k.table).rows.get? k.row.position := by
    rw [RowAction.row?_eq_get?, h.store, h.position, Storage.get?_eq]
  rw [finalizeAll, hfound]
  cases hthere : (storage.contents k.table).rows.get? k.row.position with
  | none => exact ⟨storage, ⟨(settle_of_free hthere).symm, fun _ _ => rfl, hs⟩, rfl⟩
  | some row =>
    have hsame := hrow row hthere
    subst hsame
    have hpresent := Storage.isSome_of_get? (Storage.get?_eq.trans hthere)
    obtain ⟨hok, hedits⟩ : (storage.call k.table (.commit k.row (a.commit now).type)).1 = .ok () ∧
        storage.Edits k.table ((storage.contents k.table).settle k)
          (storage.call k.table (.commit k.row (a.commit now).type)).2 :=
      hs.call_commit hpresent hgone h.type
    rw [h.store]
    dsimp only
    generalize storage.call k.table (.commit k.row (a.commit now).type) = called at hok hedits
    obtain ⟨answer, after⟩ := called
    subst hok
    exact ⟨after, hedits, rfl⟩

/-- When actions are made final, the deleted rows are freed and nothing else happens. -/
theorem finalizeAll_settles (now : Timestamp) (hs : storage.Sound) (h : List.Forall₂ RowAction.Notes as ks)
    (hrow : ∀ k ∈ ks, ∀ row,
      (storage.contents k.table).rows.get? k.row.position = some row → row = k.row)
    (hgone : ∀ row, .delete row ∈ ks → ¬row.position ∈ (storage.contents row.table).visible) :
    (finalizeAll now as storage).1 = none ∧ (finalizeAll now as storage).2.Sound ∧
      ∀ t, (finalizeAll now as storage).2.contents t =
        (Change.onTable t ks).foldl Contents.settle (storage.contents t) := by
  induction h generalizing storage with
  | nil => exact ⟨rfl, hs, fun _ => rfl⟩
  | @cons a k as ks ha hrest ih =>
    obtain ⟨after, hedits, hsteps⟩ : ∃ after, storage.Edits k.table
        ((storage.contents k.table).settle k) after ∧
        finalizeAll now (a :: as) storage = finalizeAll now as after := by
      refine finalizeAll_cons hs ha (hrow k List.mem_cons_self) fun row hk => ?_
      subst hk
      exact hgone row List.mem_cons_self
    have hcontents (t : TableId) : after.contents t =
        if k.table = t then (storage.contents t).settle k else storage.contents t := by
      split
      next ht => exact ht ▸ hedits.contents
      next ht => exact hedits.others t (Ne.symm ht)
    -- What this step leaves is still what the other changes say.
    have hrow' (j : Change) (hj : j ∈ ks) (row : Row)
        (hfound : (after.contents j.table).rows.get? j.row.position = some row) : row = j.row := by
      rw [hcontents] at hfound
      refine hrow j (List.mem_cons_of_mem k hj) row ?_
      split at hfound
      next => exact get?_settle hfound
      next => exact hfound
    have hgone' (row : Row) (hj : .delete row ∈ ks) :
        ¬row.position ∈ (after.contents row.table).visible := by
      have hbefore := hgone row (List.mem_cons_of_mem k hj)
      rw [hcontents]
      split
      next =>
        rw [settle_visible]
        exact hbefore
      next => exact hbefore
    obtain ⟨hnone, hsound, hall⟩ := ih hedits.sound hrow' hgone'
    rw [hsteps]
    refine ⟨hnone, hsound, fun t => ?_⟩
    rw [hall, hcontents, ← List.singleton_append, Change.onTable_append, Change.onTable_singleton]
    split <;> rfl

end Coordinator

end Log

end LockingDb
