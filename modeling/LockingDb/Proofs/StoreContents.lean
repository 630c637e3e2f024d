import LockingDb.Storage
import LockingDb.Proofs.RowChanges
import Mathlib.Tactic.ByContra

namespace LockingDb

/-- The types under which a change may be noted. -/
def Change.Fits (type : ActionType) : Change → Prop
  | .insert _ => type = .insert
  | .delete _ => type = .delete ∨ type = .insertThenDelete

def RowStore.contents (s : RowStore) : Contents := ⟨s.rows, s.index⟩

namespace StoreCall

/-- The call hands in its row: it puts the row at its position if none is there. -/
def hands : StoreCall → Bool
  | index _ | rollback _ .delete | rollback _ .insertThenDelete => true
  | _ => false

/-- The call frees the position of its row. -/
def frees : StoreCall → Bool
  | rollback _ .insert | commit _ .deleteFinal => true
  | _ => false

end StoreCall

namespace RowStore

variable {store store' : RowStore} {row : Row} {k : StoreCall}

theorem of_indexRow (hk : store.indexRow row = .ok store') : row.table = store.table ∧
    store' = { store with
      rows := if store.rows.contains row.position then store.rows
        else store.rows.insert row.position row
      index := store.index.insert row.position } := by
  unfold indexRow at hk
  split at hk
  next htable => exact ⟨htable, (Except.ok.inj hk).symm⟩
  next => cases hk

theorem of_delete (hk : store.delete row = .ok store') : store.isIndexed row.position = true ∧
    store' = { store with index := store.index.erase row.position } := by
  unfold delete at hk
  split at hk
  next hvisible => exact ⟨hvisible, (Except.ok.inj hk).symm⟩
  next => cases hk

/-- What a call that is carried out does: nothing, or it shows or hides its row, or it frees the
position of its row. -/
inductive CarriesOut (store : RowStore) (k : StoreCall) : RowStore → Prop where
  | stays (hhands : k.hands = false) (hfrees : k.frees = false) : CarriesOut store k store
  | shows {store' : RowStore} (hhands : k.hands = true) (hfrees : k.frees = false)
    (h : store.indexRow k.row = .ok store') : CarriesOut store k store'
  | hides {store' : RowStore} (hhands : k.hands = false) (hfrees : k.frees = false)
    (h : store.delete k.row = .ok store') : CarriesOut store k store'
  | frees (hhands : k.hands = false) (hfrees : k.frees = true) :
    CarriesOut store k (store.remove k.row.position)

theorem carriesOut (hk : store.perform k = .ok store') : store.CarriesOut k store' := by
  have hstays (hhands : k.hands = false) (hfrees : k.frees = false)
      (h : (.ok store : Except Failure RowStore) = .ok store') : store.CarriesOut k store' :=
    Except.ok.inj h ▸ .stays hhands hfrees
  cases k with
  | index row => exact .shows rfl rfl hk
  | delete row => exact .hides rfl rfl hk
  | rollback row type =>
    cases type with
    | insert => exact Except.ok.inj hk ▸ .frees rfl rfl
    | delete => exact .shows rfl rfl hk
    | insertThenDelete => exact .shows rfl rfl hk
    | none => exact hstays rfl rfl hk
    | deleteFinal => exact hstays rfl rfl hk
  | commit row type =>
    cases type with
    | deleteFinal => exact Except.ok.inj hk ▸ .frees rfl rfl
    | insert => exact hstays rfl rfl hk
    | delete => exact hstays rfl rfl hk
    | insertThenDelete => exact hstays rfl rfl hk
    | none => exact hstays rfl rfl hk

end RowStore

namespace Storage

/-- The store of a table; a table that does not exist yet has an empty one. -/
def storeOf (s : Storage) (t : TableId) : RowStore :=
  ((s.tables.get? t).map Table.store).getD (.empty t)

def contents (s : Storage) (t : TableId) : Contents := (s.storeOf t).contents

variable {s s' : Storage} {t u : TableId} {p : RowPosition} {row : Row} {k : StoreCall}
  {store : RowStore} {f : Failure}

theorem scan_eq : s.scan t = (s.contents t).scan := by
  unfold scan contents storeOf
  cases s.tables.get? t <;> rfl

theorem get?_eq : s.get? t p = (s.contents t).rows.get? p := by
  unfold get? contents storeOf
  cases s.tables.get? t <;> rfl

/-- The stores obey, each row is found where it says it is, and ids and positions that are still to
be given out are new. -/
structure Sound (s : Storage) : Prop where
  named : ∀ t, (s.storeOf t).table = t
  obeys : ∀ t table, s.tables.get? t = some table → ∀ n k, table.faults n k = none
  created : ∀ t table, s.tables.get? t = some table → t < s.nextTable
  bounded : s.nextRow < UInt64.size
  numbered : ∀ t, (s.storeOf t).nextPosition ≤ s.nextRow
  placed : ∀ t p row, s.get? t p = some row → row.table = t ∧ row.position = p
  allocated : ∀ t p row, s.get? t p = some row →
    p < (s.storeOf t).nextPosition ∧ row.id < s.nextRow
  apart : ∀ t u p q row other, s.get? t p = some row → s.get? u q = some other →
    row.id = other.id → row = other

theorem sound_empty : empty.Sound where
  named _ := rfl
  obeys := nofun
  created := nofun
  bounded := by decide
  numbered _ := Nat.le_refl 1
  placed := nofun
  allocated := nofun
  apart := nofun

/-- Stores may lose rows, and empty ones may be added. -/
theorem Sound.of_fewer (hs : s.Sound) (hnextRow : s'.nextRow = s.nextRow)
    (hstores : ∀ u, (s'.storeOf u).table = (s.storeOf u).table ∧
      (s'.storeOf u).nextPosition = (s.storeOf u).nextPosition)
    (hrows : ∀ u p row, s'.get? u p = some row → s.get? u p = some row)
    (htables : ∀ u table, s'.tables.get? u = some table →
      u < s'.nextTable ∧ ∀ n k, table.faults n k = none) : s'.Sound where
  named u := (hstores u).1.trans (hs.named u)
  obeys u table hu := (htables u table hu).2
  created u table hu := (htables u table hu).1
  bounded := hnextRow ▸ hs.bounded
  numbered u := by
    rw [(hstores u).2, hnextRow]
    exact hs.numbered u
  placed u p row hrow := hs.placed u p row (hrows u p row hrow)
  allocated u p row hrow := by
    rw [(hstores u).2, hnextRow]
    exact hs.allocated u p row (hrows u p row hrow)
  apart u v p q row other hrow hother :=
    hs.apart u v p q row other (hrows u p row hrow) (hrows v q other hother)

/-- `s'` has another store for a table, and nothing else has changed but the notes of the calls. -/
structure Puts (s : Storage) (t : TableId) (store : RowStore) (s' : Storage) : Prop where
  storeOf : ∀ u, s'.storeOf u = if u = t then store else s.storeOf u
  nextRow : s'.nextRow = s.nextRow
  nextTable : s'.nextTable = s.nextTable
  faults : ∀ u, (s'.tables.get? u).map Table.faults = (s.tables.get? u).map Table.faults

theorem Puts.contents (h : s.Puts t store s') :
    s'.contents u = if u = t then store.contents else s.contents u := by
  unfold Storage.contents
  rw [h.storeOf]
  split <;> rfl

theorem Puts.contents_of_ne (h : s.Puts t store s') (hu : u ≠ t) :
    s'.contents u = s.contents u := h.contents.trans (if_neg hu)

theorem Puts.get? (h : s.Puts t store s') :
    s'.get? u p = if u = t then store.get? p else s.get? u p := by
  rw [get?_eq, get?_eq, h.contents]
  split <;> rfl

theorem table?_of_faults {table : Table}
    (hfaults : (s'.tables.get? u).map Table.faults = (s.tables.get? u).map Table.faults)
    (hu : s'.tables.get? u = some table) :
    ∃ old, s.tables.get? u = some old ∧ old.faults = table.faults := by
  rw [hu] at hfaults
  exact Option.map_eq_some_iff.mp hfaults.symm

theorem Sound.puts (hs : s.Sound) (h : s.Puts t store s') (htable : store.table = t)
    (hnext : store.nextPosition = (s.storeOf t).nextPosition)
    (hrows : ∀ p row, store.get? p = some row → s.get? t p = some row) : s'.Sound := by
  refine hs.of_fewer h.nextRow (fun u => ?_) (fun u p row hrow => ?_) fun u table hu => ?_
  · rw [h.storeOf]
    split
    next hu =>
      rw [hu]
      exact ⟨htable.trans (hs.named t).symm, hnext⟩
    next => exact ⟨rfl, rfl⟩
  · rw [h.get?] at hrow
    split at hrow
    next hu => exact hu ▸ hrows p row hrow
    next => exact hrow
  · obtain ⟨old, hold, hfaults⟩ := table?_of_faults (h.faults u) hu
    rw [h.nextTable, ← hfaults]
    exact ⟨hs.created u old hold, hs.obeys u old hold⟩

theorem storeOf_setStore (ht : (s.tables.get? t).isSome = true) :
    (s.setStore t store).storeOf u = if u = t then store else s.storeOf u := by
  obtain ⟨table, htable⟩ := Option.isSome_iff_exists.mp ht
  unfold storeOf setStore
  rw [IdMap.get?_modify]
  split
  next => rw [htable]; rfl
  next => rfl

theorem puts_setStore (ht : (s.tables.get? t).isSome = true) : s.Puts t store (s.setStore t store) := by
  refine ⟨fun u => storeOf_setStore ht, rfl, rfl, fun u => ?_⟩
  unfold setStore
  rw [IdMap.get?_modify]
  split
  next hu =>
    rw [hu, Option.map_map]
    rfl
  next => rfl

/-- What a call on a table comes to. -/
inductive Calls (s : Storage) (t : TableId) (k : StoreCall) : Except Failure Unit → Storage → Prop where
  | refused {f : Failure} {s' : Storage} (h : s.Puts t (s.storeOf t) s') : Calls s t k (.error f) s'
  | done {store : RowStore} {s' : Storage} (ht : (s.tables.get? t).isSome = true)
    (hk : (s.storeOf t).perform k = .ok store) (h : s.Puts t store s') : Calls s t k (.ok ()) s'

theorem puts_same (htables : s'.tables = s.tables) (hrow : s'.nextRow = s.nextRow)
    (htable : s'.nextTable = s.nextTable) : s.Puts t (s.storeOf t) s' := by
  have hstore (u : TableId) : s'.storeOf u = s.storeOf u := by
    unfold storeOf
    rw [htables]
  refine ⟨fun u => ?_, hrow, htable, fun u => by rw [htables]⟩
  rw [hstore]
  split
  next hu => rw [hu]
  next => rfl

theorem call_calls (s : Storage) (t : TableId) (k : StoreCall) :
    s.Calls t k (s.call t k).1 (s.call t k).2 := by
  unfold call table?
  cases htable : s.tables.get? t with
  | none => exact .refused (puts_same rfl rfl rfl)
  | some table =>
    have hstore : s.storeOf t = table.store := by
      unfold storeOf
      rw [htable]
      rfl
    dsimp only
    split
    next => exact .refused (puts_same rfl rfl rfl)
    next =>
      split
      next => exact .refused (puts_same rfl rfl rfl)
      next store hk =>
        have ht : (s.tables.get? t).isSome = true := by rw [htable]; rfl
        have hput : s.Puts t store (s.setStore t store) := puts_setStore ht
        exact .done ht (hstore ▸ hk) ⟨hput.storeOf, rfl, rfl, hput.faults⟩

/-- A sound table refuses only what its store refuses. -/
theorem Sound.call_ok (hs : s.Sound) (ht : (s.tables.get? t).isSome = true)
    (hk : (s.storeOf t).perform k = .ok store) : (s.call t k).1 = .ok () := by
  obtain ⟨table, htable⟩ := Option.isSome_iff_exists.mp ht
  have hstore : s.storeOf t = table.store := by
    unfold storeOf
    rw [htable]
    rfl
  have hobeys := hs.obeys t table htable s.calls.length k
  rw [hstore] at hk
  unfold call table?
  rw [htable]
  dsimp only
  rw [hobeys]
  dsimp only
  rw [hk]

/-- `s'` is sound, and of the contents only those of one table may have changed. -/
structure Edits (s : Storage) (t : TableId) (c : Contents) (s' : Storage) : Prop where
  contents : s'.contents t = c
  others : ∀ u, u ≠ t → s'.contents u = s.contents u
  sound : s'.Sound

theorem Sound.edits_refused (hs : s.Sound) (h : s.Puts t (s.storeOf t) s') :
    s.Edits t (s.contents t) s' where
  contents := h.contents.trans (if_pos rfl)
  others _ hu := h.contents_of_ne hu
  sound := hs.puts h (hs.named t) rfl fun p row hrow => by rw [get?_eq]; exact hrow

theorem isSome_of_get? (hrow : s.get? t p = some row) : (s.tables.get? t).isSome = true := by
  unfold get? at hrow
  obtain ⟨table, htable, -⟩ := Option.bind_eq_some_iff.mp hrow
  rw [htable]
  rfl

/-- What a call that is carried out leaves, if its store only loses rows. -/
theorem Sound.edits_call (hs : s.Sound) (ht : (s.tables.get? t).isSome = true)
    (hk : (s.storeOf t).perform k = .ok store) (htable : store.table = (s.storeOf t).table)
    (hnext : store.nextPosition = (s.storeOf t).nextPosition)
    (hrows : ∀ p row, store.get? p = some row → (s.storeOf t).get? p = some row) :
    (s.call t k).1 = .ok () ∧ s.Edits t store.contents (s.call t k).2 := by
  have hok := hs.call_ok ht hk
  have hcall := s.call_calls t k
  generalize (s.call t k).1 = answer, (s.call t k).2 = after at hok hcall
  subst hok
  refine ⟨rfl, ?_⟩
  cases hcall with
  | done ht hk' h =>
    cases hk.symm.trans hk'
    refine ⟨h.contents.trans (if_pos rfl), fun u hu => h.contents_of_ne hu, ?_⟩
    refine hs.puts h (htable.trans (hs.named t)) hnext fun p row hrow => ?_
    rw [get?_eq]
    exact hrows p row hrow

theorem Sound.indexRow_eq (hs : s.Sound) (hrow : s.get? t row.position = some row) :
    (s.storeOf t).indexRow row =
      .ok { s.storeOf t with index := (s.storeOf t).index.insert row.position } := by
  have htable : row.table = (s.storeOf t).table :=
    (hs.placed t row.position row hrow).1.trans (hs.named t).symm
  have hthere : (s.storeOf t).rows.contains row.position = true := by
    have hfound : (s.storeOf t).rows.get? row.position = some row := get?_eq.symm.trans hrow
    rw [IdMap.contains_eq, hfound]
    rfl
  unfold RowStore.indexRow
  rw [if_pos htable, if_pos hthere]

/-- An allocated row is made visible. -/
theorem Sound.call_index (hs : s.Sound) (hrow : s.get? t row.position = some row) :
    (s.call t (.index row)).1 = .ok () ∧
      s.Edits t ⟨(s.contents t).rows, (s.contents t).visible.insert row.position⟩
        (s.call t (.index row)).2 :=
  hs.edits_call (k := .index row) (isSome_of_get? hrow) (hs.indexRow_eq hrow) rfl rfl fun _ _ h => h

/-- A delete is carried out if the row is visible, and leaves all as it was if not. -/
theorem Sound.call_delete (hs : s.Sound) (row : Row) (ht : (s.tables.get? t).isSome = true) :
    ((s.call t (.delete row)).1 = .ok () ∧ row.position ∈ (s.contents t).visible ∧
      s.Edits t ⟨(s.contents t).rows, (s.contents t).visible.erase row.position⟩
        (s.call t (.delete row)).2) ∨
      (∃ f, (s.call t (.delete row)).1 = .error f) ∧
        s.Edits t (s.contents t) (s.call t (.delete row)).2 := by
  by_cases hvisible : row.position ∈ (s.contents t).visible
  · left
    have hk : (s.storeOf t).perform (.delete row) =
        .ok { s.storeOf t with index := (s.storeOf t).index.erase row.position } :=
      if_pos (decide_eq_true hvisible)
    obtain ⟨hok, hedits⟩ := hs.edits_call ht hk rfl rfl fun _ _ h => h
    exact ⟨hok, hvisible, hedits⟩
  · right
    have hk : (s.storeOf t).perform (.delete row) = .error (.rowNotFound row.position) :=
      if_neg fun hin => hvisible (of_decide_eq_true hin)
    have hcall := s.call_calls t (.delete row)
    generalize (s.call t (.delete row)).1 = answer, (s.call t (.delete row)).2 = after at hcall
    cases hcall with
    | refused h => exact ⟨⟨_, rfl⟩, hs.edits_refused h⟩
    | done ht hk' h =>
      rw [hk] at hk'
      cases hk'

/-- A deleted row stays where it is. -/
theorem get?_call_delete : (s.call t (.delete row)).2.get? u p = s.get? u p := by
  have hcall := s.call_calls t (.delete row)
  generalize (s.call t (.delete row)).1 = answer, (s.call t (.delete row)).2 = after at hcall
  have hsame : ∀ store : RowStore, s.Puts t store after → store.rows = (s.storeOf t).rows →
      after.get? u p = s.get? u p := by
    intro store hput hrows
    rw [hput.get?]
    split
    next hu =>
      rw [hu, get?_eq, RowStore.get?, hrows]
      rfl
    next => rfl
  cases hcall with
  | refused h => exact hsame _ h rfl
  | done ht hk h =>
    obtain ⟨-, rfl⟩ := RowStore.of_delete hk
    exact hsame _ h rfl

theorem get?_of_mem_scan (hplaced : ∀ p row, s.get? t p = some row → row.position = p)
    (hrow : row ∈ s.scan t) : s.get? t row.position = some row := by
  rw [scan_eq] at hrow
  obtain ⟨p, -, hfound⟩ := List.mem_filterMap.mp hrow
  have hget : s.get? t p = some row := get?_eq.trans hfound
  rw [hplaced p row hget]
  exact hget

theorem Sound.get?_of_mem_scan (hs : s.Sound) (hrow : row ∈ s.scan t) :
    s.get? t row.position = some row :=
  Storage.get?_of_mem_scan (fun p row hget => (hs.placed t p row hget).2) hrow

theorem get?_remove {q : RowPosition} (hrow : (store.remove q).get? p = some row) :
    store.get? p = some row := by
  unfold RowStore.remove RowStore.get? at hrow
  rw [IdMap.get?_erase] at hrow
  split at hrow
  next => cases hrow
  next => exact hrow

/-- A change is taken back by a rollback call with its row. -/
theorem Sound.call_rollback (hs : s.Sound) {k : Change} {type : ActionType}
    (hrow : s.get? t k.row.position = some k.row) (htype : k.Fits type) :
    (s.call t (.rollback k.row type)).1 = .ok () ∧
      s.Edits t ((s.contents t).undo k) (s.call t (.rollback k.row type)).2 := by
  cases k with
  | insert row =>
    cases (htype : type = .insert)
    have hk : (s.storeOf t).perform (.rollback row .insert) =
        .ok ((s.storeOf t).remove row.position) := rfl
    exact hs.edits_call (isSome_of_get? hrow) hk rfl rfl fun _ _ h => get?_remove h
  | delete row =>
    have hk : (s.storeOf t).perform (.rollback row type) =
        .ok { s.storeOf t with index := (s.storeOf t).index.insert row.position } := by
      rcases htype with rfl | rfl <;> exact hs.indexRow_eq hrow
    exact hs.edits_call (isSome_of_get? hrow) hk rfl rfl fun _ _ h => h

/-- A change is settled by a commit call with its row, once a deleted row is invisible. -/
theorem Sound.call_commit (hs : s.Sound) {k : Change} {type : ActionType}
    (ht : (s.tables.get? t).isSome = true)
    (hgone : ∀ row, k = .delete row → ¬row.position ∈ (s.contents t).visible)
    (htype : k.Fits type) :
    (s.call t (.commit k.row type.committed)).1 = .ok () ∧
      s.Edits t ((s.contents t).settle k) (s.call t (.commit k.row type.committed)).2 := by
  cases k with
  | insert row =>
    cases (htype : type = .insert)
    have hk : (s.storeOf t).perform (.commit row .none) = .ok (s.storeOf t) := rfl
    exact hs.edits_call ht hk rfl rfl fun _ _ h => h
  | delete row =>
    have hfinal : type.committed = .deleteFinal := by rcases htype with rfl | rfl <;> rfl
    rw [hfinal]
    have hk : (s.storeOf t).perform (.commit row .deleteFinal) =
        .ok ((s.storeOf t).remove row.position) := rfl
    obtain ⟨hok, hedits⟩ := hs.edits_call ht hk rfl rfl fun _ _ h => get?_remove h
    have hsame : ((s.storeOf t).remove row.position).contents = (s.contents t).settle (.delete row) := by
      refine Contents.ext rfl (IdSet.ext fun p => ?_)
      show p ∈ (s.contents t).visible.erase row.position ↔ p ∈ (s.contents t).visible
      rw [IdSet.mem_erase]
      refine and_iff_left_of_imp fun hp => ?_
      rintro rfl
      exact hgone row rfl hp
    exact ⟨hok, hsame ▸ hedits⟩

/-- As long as the numbers do not start over, each is one more than the last. -/
theorem nextCount_of_ne_zero {n m : Nat} (hn : n < UInt64.size) (hnext : nextCount n ≠ 0)
    (hm : m ≤ n) : n + 1 < UInt64.size ∧ nextCount m = m + 1 := by
  have hroom : n + 1 < UInt64.size := by
    by_contra hlast
    have hn : n + 1 = UInt64.size := by omega
    exact hnext (by rw [nextCount, hn, Nat.mod_self])
  exact ⟨hroom, nextCount_eq (by omega)⟩

/-- The position that a table gives out next is free. -/
theorem Sound.get?_next (hs : s.Sound) : s.get? t (s.storeOf t).nextPosition = none := by
  cases hrow : s.get? t (s.storeOf t).nextPosition with
  | none => rfl
  | some row => exact absurd (hs.allocated t _ row hrow).1 (Nat.lt_irrefl _)

theorem calls_newRow {values : List Value} : (s.newRow t values).2.calls = s.calls := by
  unfold Storage.newRow
  split <;> rfl

/-- The row that is allocated next in a table. -/
def rowOf (s : Storage) (t : TableId) (values : List Value) : Row :=
  ⟨s.nextRow, (s.storeOf t).nextPosition, t, values⟩

theorem newRow_eq {values : List Value} (hs : s.Sound) (ht : (s.tables.get? t).isSome = true) :
    s.newRow t values = (.ok (s.rowOf t values),
      { s.setStore t ((s.storeOf t).newRow s.nextRow values).2 with nextRow := nextCount s.nextRow }) := by
  obtain ⟨table, htable⟩ := Option.isSome_iff_exists.mp ht
  have hstore : s.storeOf t = table.store := by
    unfold storeOf
    rw [htable]
    rfl
  have hnamed := hs.named t
  unfold newRow table? rowOf
  rw [htable, hstore]
  rw [hstore] at hnamed
  simp only [RowStore.newRow, hnamed]

/-- `s'` has a new row under the next id and the next position of its table. -/
structure Allocates (s : Storage) (row : Row) (s' : Storage) : Prop where
  id : row.id = s.nextRow
  position : row.position = (s.storeOf row.table).nextPosition
  nextRow : s'.nextRow = s.nextRow + 1
  nextTable : s'.nextTable = s.nextTable
  table : ∀ u, (s'.storeOf u).table = (s.storeOf u).table
  nextPosition : ∀ u, (s'.storeOf u).nextPosition =
    (s.storeOf u).nextPosition + if u = row.table then 1 else 0
  contents : ∀ u, s'.contents u = if u = row.table then
    ⟨(s.contents u).rows.insert row.position row, (s.contents u).visible⟩ else s.contents u
  faults : ∀ u, (s'.tables.get? u).map Table.faults = (s.tables.get? u).map Table.faults

theorem Allocates.get?_cases {row other : Row} (h : s.Allocates row s')
    (hother : s'.get? u p = some other) :
    (u = row.table ∧ p = row.position ∧ other = row) ∨ s.get? u p = some other := by
  rw [get?_eq, h.contents] at hother
  rw [get?_eq]
  split at hother
  next hu =>
    rw [IdMap.get?_insert] at hother
    split at hother
    next hp => exact Or.inl ⟨hu, hp, (Option.some.inj hother).symm⟩
    next => exact Or.inr hother
  next => exact Or.inr hother

theorem Sound.allocates {row : Row} (hs : s.Sound) (h : s.Allocates row s')
    (hroom : s.nextRow + 1 < UInt64.size) : s'.Sound where
  named u := (h.table u).trans (hs.named u)
  obeys u table hu := by
    obtain ⟨old, hold, hfaults⟩ := table?_of_faults (h.faults u) hu
    rw [← hfaults]
    exact hs.obeys u old hold
  created u table hu := by
    obtain ⟨old, hold, -⟩ := table?_of_faults (h.faults u) hu
    rw [h.nextTable]
    exact hs.created u old hold
  bounded := by
    rw [h.nextRow]
    exact hroom
  numbered u := by
    rw [h.nextPosition, h.nextRow]
    refine Nat.add_le_add (hs.numbered u) ?_
    split <;> decide
  placed u p other hother := by
    rcases h.get?_cases hother with ⟨rfl, rfl, rfl⟩ | hold
    · exact ⟨rfl, rfl⟩
    · exact hs.placed u p other hold
  allocated u p other hother := by
    rw [h.nextPosition, h.nextRow]
    rcases h.get?_cases hother with ⟨rfl, rfl, rfl⟩ | hold
    · rw [if_pos rfl, h.id, h.position]
      exact ⟨Nat.lt_succ_self _, Nat.lt_succ_self _⟩
    · obtain ⟨hp, hid⟩ := hs.allocated u p other hold
      exact ⟨Nat.lt_of_lt_of_le hp (Nat.le_add_right _ _), Nat.lt_succ_of_lt hid⟩
  apart u v p q first second hfirst hsecond hid := by
    have hnew {u p other} (hold : s.get? u p = some other) : other.id ≠ row.id := by
      rw [h.id]
      exact Nat.ne_of_lt (hs.allocated u p other hold).2
    rcases h.get?_cases hfirst with ⟨-, -, rfl⟩ | hold <;>
      rcases h.get?_cases hsecond with ⟨-, -, rfl⟩ | holder
    · rfl
    · exact absurd hid.symm (hnew holder)
    · exact absurd hid (hnew hold)
    · exact hs.apart u v p q first second hold holder hid

theorem Sound.newRow_allocates (hs : s.Sound) (values : List Value)
    (ht : (s.tables.get? t).isSome = true) (hnext : nextCount s.nextRow ≠ 0) :
    s.Allocates (s.rowOf t values) (s.newRow t values).2 := by
  obtain ⟨-, hcount⟩ := nextCount_of_ne_zero hs.bounded hnext (Nat.le_refl _)
  obtain ⟨-, hposition⟩ := nextCount_of_ne_zero hs.bounded hnext (hs.numbered t)
  rw [newRow_eq hs ht]
  have hput : s.Puts t ((s.storeOf t).newRow s.nextRow values).2
    (s.setStore t ((s.storeOf t).newRow s.nextRow values).2) := puts_setStore ht
  have hrow : ((s.storeOf t).newRow s.nextRow values).1 = s.rowOf t values := by
    simp only [RowStore.newRow, rowOf, hs.named t]
  refine ⟨rfl, rfl, hcount, rfl, fun u => ?_, fun u => ?_, fun u => ?_, hput.faults⟩
  · show ((s.setStore t _).storeOf u).table = _
    rw [hput.storeOf]
    split
    next hu => exact hu ▸ rfl
    next => rfl
  · show ((s.setStore t _).storeOf u).nextPosition = _ + if u = t then 1 else 0
    rw [hput.storeOf]
    split
    next hu => exact hu ▸ hposition
    next => rfl
  · show (s.setStore t _).contents u = if u = t then _ else _
    rw [hput.contents, ← hrow]
    split
    next hu => exact hu ▸ rfl
    next => rfl

theorem call_nextRow : (s.call t k).2.nextRow = s.nextRow := by
  have hcall := s.call_calls t k
  generalize (s.call t k).1 = answer, (s.call t k).2 = after at hcall
  cases hcall with
  | refused h => exact h.nextRow
  | done ht hk h => exact h.nextRow

/-- A row is inserted: it is allocated, and then made visible. -/
theorem Sound.insertRow (hs : s.Sound) (values : List Value) (ht : (s.tables.get? t).isSome = true)
    (hnext : nextCount s.nextRow ≠ 0) :
    (s.contents t).Allows (.insert (s.rowOf t values)) ∧
      ((s.newRow t values).2.call t (.index (s.rowOf t values))).1 = .ok () ∧
      (s.newRow t values).2.Edits t ((s.contents t).change (.insert (s.rowOf t values)))
        ((s.newRow t values).2.call t (.index (s.rowOf t values))).2 := by
  have hallocates := hs.newRow_allocates values ht hnext
  have hsound := hs.allocates hallocates (nextCount_of_ne_zero hs.bounded hnext (Nat.le_refl _)).1
  have hcontents : (s.newRow t values).2.contents t = ⟨(s.contents t).rows.insert
      (s.rowOf t values).position (s.rowOf t values), (s.contents t).visible⟩ :=
    (hallocates.contents t).trans (if_pos rfl)
  have hfree : s.get? t (s.rowOf t values).position = none := hs.get?_next
  have hfound : (s.newRow t values).2.get? t (s.rowOf t values).position =
      some (s.rowOf t values) := by
    rw [get?_eq, hcontents]
    exact IdMap.get?_insert_self
  obtain ⟨hok, hedits⟩ := hsound.call_index hfound
  rw [hcontents] at hedits
  exact ⟨get?_eq.symm.trans hfree, hok, hedits⟩

/-- A table that is created is empty, as it was before. -/
theorem Sound.createTable (hs : s.Sound) (name : String) (watched : Bool) :
    (s.createTable name watched).2.Sound ∧
      (∀ u, (s.createTable name watched).2.contents u = s.contents u) ∧
      (s.createTable name watched).2.nextRow = s.nextRow := by
  unfold Storage.createTable
  split
  next => exact ⟨hs, fun _ => rfl, rfl⟩
  next =>
    have hnew : s.tables.get? s.nextTable = none := by
      cases htable : s.tables.get? s.nextTable with
      | none => rfl
      | some table => exact absurd (hs.created s.nextTable table htable) (Nat.lt_irrefl _)
    have hget (u : TableId) : (s.addTable s.nextTable watched).tables.get? u =
        if u = s.nextTable then some (.empty s.nextTable watched) else s.tables.get? u :=
      IdMap.get?_insert
    have hstore (u : TableId) : (s.addTable s.nextTable watched).storeOf u = s.storeOf u := by
      unfold storeOf
      rw [hget]
      split
      next hu => rw [hu, hnew]; rfl
      next => rfl
    have hcontents (u : TableId) : (s.addTable s.nextTable watched).contents u = s.contents u :=
      congrArg RowStore.contents (hstore u)
    refine ⟨hs.of_fewer rfl (fun u => ?_) (fun u p row hrow => ?_) fun u table hu => ?_, hcontents, rfl⟩
    · have hsame := hstore u
      exact ⟨congrArg RowStore.table hsame, congrArg RowStore.nextPosition hsame⟩
    · have hsame : (s.addTable s.nextTable watched).get? u p = s.get? u p := by
        rw [get?_eq, get?_eq, hcontents]
      exact hsame.symm.trans hrow
    · have hu := (hget u).symm.trans hu
      split at hu
      next hnext =>
        cases hu
        exact ⟨Nat.lt_succ_of_le (Nat.le_of_eq hnext), fun _ _ => rfl⟩
      next => exact ⟨Nat.lt_succ_of_lt (hs.created u table hu), hs.obeys u table hu⟩

end Storage

end LockingDb
