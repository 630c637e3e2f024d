import LockingDb.IdMap
import LockingDb.IdSet
import LockingDb.Row
import Mathlib.Data.List.Basic
import Mathlib.Data.List.Induction

namespace LockingDb

/-- What a transaction does to a row. -/
inductive Change where
  | insert (row : Row)
  | delete (row : Row)
  deriving DecidableEq

namespace Change

def row : Change → Row
  | insert row | delete row => row

def table (k : Change) : TableId := k.row.table

/-- The changes that count in the end: of a row that is inserted and deleted again nothing is left. -/
def net (ks : List Change) : List Change :=
  ks.filter fun k => ¬(insert k.row ∈ ks ∧ delete k.row ∈ ks)

def onTable (t : TableId) (ks : List Change) : List Change := ks.filter (·.table = t)

variable {t : TableId} {ks js : List Change} {k : Change}

theorem onTable_append : onTable t (ks ++ js) = onTable t ks ++ onTable t js := List.filter_append ..

theorem onTable_singleton : onTable t [k] = if k.table = t then [k] else [] := by
  unfold onTable
  by_cases hk : k.table = t
  · rw [if_pos hk, List.filter_cons_of_pos (by simpa using hk), List.filter_nil]
  · rw [if_neg hk, List.filter_cons_of_neg (by simpa using hk), List.filter_nil]

theorem mem_onTable : k ∈ onTable t ks ↔ k ∈ ks ∧ k.table = t := by
  simp [onTable]

theorem onTable_eq_nil : onTable t ks = [] ↔ ∀ k ∈ ks, k.table ≠ t := by
  simp [onTable]

theorem mem_net : k ∈ net ks ↔ k ∈ ks ∧ ¬(insert k.row ∈ ks ∧ delete k.row ∈ ks) := by
  rw [net, List.mem_filter, decide_eq_true_iff]

theorem net_onTable : net (onTable t ks) = onTable t (net ks) := by
  unfold net onTable
  rw [List.filter_filter, List.filter_filter]
  refine List.filter_congr fun k _ => ?_
  -- Both changes of a row are on the same table.
  have hinsert : (insert k.row).table = k.table := rfl
  have hdelete : (delete k.row).table = k.table := rfl
  by_cases hk : k.table = t <;> simp [List.mem_filter, hinsert, hdelete, hk]

end Change

namespace IdMap

/-- The rows of a table, by position, after a change. -/
def change (m : IdMap Row) : Change → IdMap Row
  | .insert row => m.insert row.position row
  | .delete row => m.erase row.position

def changeAll (m : IdMap Row) (ks : List Change) : IdMap Row := ks.foldl change m

variable {m m' : IdMap Row} {ks js : List Change} {k : Change} {p : RowPosition}

theorem changeAll_concat : m.changeAll (ks ++ [k]) = (m.changeAll ks).change k := by
  simp [changeAll]

theorem changeAll_append : m.changeAll (ks ++ js) = (m.changeAll ks).changeAll js := by
  simp [changeAll]

theorem get?_change_of_ne (hp : k.row.position ≠ p) : (m.change k).get? p = m.get? p := by
  cases k with
  | insert row => exact get?_insert.trans (if_neg (Ne.symm hp))
  | delete row => exact get?_erase.trans (if_neg (Ne.symm hp))

theorem get?_change_congr (hm : m.get? p = m'.get? p) : (m.change k).get? p = (m'.change k).get? p := by
  cases k with
  | insert row => simp only [change, get?_insert, hm]
  | delete row => simp only [change, get?_erase, hm]

theorem get?_changeAll_of_ne (hp : ∀ k ∈ ks, k.row.position ≠ p) :
    (m.changeAll ks).get? p = m.get? p := by
  induction ks generalizing m with
  | nil => rfl
  | cons k ks ih =>
    have hrest := ih (m := m.change k) fun j hj => hp j (List.mem_cons_of_mem k hj)
    exact hrest.trans (get?_change_of_ne (hp k List.mem_cons_self))

/-- Changes of other positions may be left out. -/
theorem get?_changeAll_filter {f : Change → Bool}
    (hp : ∀ k ∈ ks, f k = false → k.row.position ≠ p) :
    (m.changeAll (ks.filter f)).get? p = (m.changeAll ks).get? p := by
  induction ks using List.reverseRecOn with
  | nil => rfl
  | append_singleton ks k ih =>
    have hks := ih fun j hj => hp j (List.mem_append_left [k] hj)
    rw [List.filter_append, changeAll_concat]
    by_cases hk : f k = true
    · rw [List.filter_cons_of_pos hk, List.filter_nil, changeAll_concat]
      exact get?_change_congr hks
    · have hother := hp k (by simp) (Bool.eq_false_iff.mpr hk)
      rw [List.filter_cons_of_neg hk, List.filter_nil, List.append_nil, hks]
      exact (get?_change_of_ne hother).symm

end IdMap

/-- The allocated rows of a table by position, and the positions of the visible ones. -/
@[ext]
structure Contents where
  rows : IdMap Row
  visible : IdSet

namespace Contents

/-- All rows are visible. -/
def ofRows (m : IdMap Row) : Contents := ⟨m, ⟨m.keys, m.increasing⟩⟩

/-- The visible rows in the order of their positions. -/
def scan (c : Contents) : List Row := c.visible.toList.filterMap c.rows.get?

/-- A deleted row stays allocated. -/
def change (c : Contents) : Change → Contents
  | .insert row => ⟨c.rows.insert row.position row, c.visible.insert row.position⟩
  | .delete row => ⟨c.rows, c.visible.erase row.position⟩

def undo (c : Contents) : Change → Contents
  | .insert row => ⟨c.rows.erase row.position, c.visible.erase row.position⟩
  | .delete row => ⟨c.rows, c.visible.insert row.position⟩

/-- What becomes of a change at the end: a deleted row is freed. -/
def settle (c : Contents) : Change → Contents
  | .insert _ => c
  | .delete row => ⟨c.rows.erase row.position, c.visible⟩

/-- Rows are inserted at free positions, and visible rows are deleted. -/
def Allows (c : Contents) : Change → Prop
  | .insert row => c.rows.get? row.position = none
  | .delete row => row.position ∈ c.visible ∧ c.rows.get? row.position = some row

/-- Where a table gets by changes from a state in which exactly the rows of `m` are allocated, and
all are visible. -/
inductive Evolved (m : IdMap Row) : List Change → Contents → Prop where
  | start : Evolved m [] (ofRows m)
  | step {ks : List Change} {k : Change} {c : Contents} (h : Evolved m ks c) (hk : c.Allows k) :
    Evolved m (ks ++ [k]) (c.change k)

variable {m : IdMap Row} {ks : List Change} {k : Change} {c c' : Contents} {p : RowPosition}
  {row : Row}

theorem evolved_nil : Evolved m [] c ↔ c = ofRows m := by
  constructor
  · intro h
    generalize hks : ([] : List Change) = ks at h
    cases h with
    | start => rfl
    | step h hk => simp at hks
  · rintro rfl
    exact .start

theorem evolved_concat : Evolved m (ks ++ [k]) c ↔
    ∃ c₀, Evolved m ks c₀ ∧ c₀.Allows k ∧ c = c₀.change k := by
  constructor
  · intro h
    generalize hks : ks ++ [k] = all at h
    cases h with
    | start => simp at hks
    | step h hk =>
      obtain ⟨rfl, hlast⟩ := List.append_inj' hks rfl
      cases hlast
      exact ⟨_, h, hk, rfl⟩
  · rintro ⟨c₀, h, hk, rfl⟩
    exact .step h hk

/-- The changes of a table determine its contents. -/
theorem Evolved.unique (h : Evolved m ks c) (h' : Evolved m ks c') : c = c' := by
  induction h generalizing c' with
  | start => exact (evolved_nil.mp h').symm
  | @step ks k c h hk ih =>
    obtain ⟨c₀, h₀, -, rfl⟩ := evolved_concat.mp h'
    rw [ih h₀]

/-- Of the changed table those rows are visible that the changes leave. -/
theorem Evolved.mem_visible (h : Evolved m ks c) :
    p ∈ c.visible ↔ ((m.changeAll ks).get? p).isSome = true := by
  induction h with
  | start => exact IdMap.mem_keys
  | @step ks k c h hk ih =>
    rw [IdMap.changeAll_concat]
    cases k with
    | insert row =>
      simp only [change, IdMap.change, IdSet.mem_insert, IdMap.get?_insert, ih]
      by_cases hp : p = row.position <;> simp [hp]
    | delete row =>
      simp only [change, IdMap.change, IdSet.mem_erase, IdMap.get?_erase, ih]
      by_cases hp : p = row.position <;> simp [hp]

theorem Evolved.get?_rows (h : Evolved m ks c) (hrow : (m.changeAll ks).get? p = some row) :
    c.rows.get? p = some row := by
  induction h with
  | start => exact hrow
  | @step ks k c h hk ih =>
    rw [IdMap.changeAll_concat] at hrow
    cases k with
    | insert new =>
      simp only [change, IdMap.change, IdMap.get?_insert] at hrow ⊢
      split at hrow
      next hp => rw [if_pos hp, hrow]
      next hp => rw [if_neg hp, ih hrow]
    | delete old =>
      simp only [IdMap.change, IdMap.get?_erase] at hrow
      split at hrow
      next => cases hrow
      next => exact ih hrow

/-- No row is freed by a change. -/
theorem Evolved.get?_base (h : Evolved m ks c) (hrow : m.get? p = some row) :
    c.rows.get? p = some row := by
  induction h with
  | start => exact hrow
  | @step ks k c h hk ih =>
    cases k with
    | insert new =>
      have hp : p ≠ new.position := by
        rintro rfl
        rw [hk] at ih
        cases ih
      exact IdMap.get?_insert.trans ((if_neg hp).trans ih)
    | delete old => exact ih

/-- The rows of all changes are allocated, and those of deletes are not visible. -/
theorem Evolved.of_mem (h : Evolved m ks c) (hk : k ∈ ks) :
    c.rows.get? k.row.position = some k.row ∧
      (∀ row, k = .delete row → ¬row.position ∈ c.visible) := by
  induction h with
  | start => cases hk
  | @step ks j c h hj ih =>
    rcases List.mem_append.mp hk with hold | hnew
    · obtain ⟨hrow, hgone⟩ := ih hold
      cases j with
      | insert new =>
        have hp : k.row.position ≠ new.position := by
          intro hp
          rw [hp, hj] at hrow
          cases hrow
        refine ⟨IdMap.get?_insert.trans ((if_neg hp).trans hrow), fun row hdelete hvisible => ?_⟩
        subst hdelete
        rcases IdSet.mem_insert.mp hvisible with hsame | hvisible
        · exact hp hsame
        · exact hgone row rfl hvisible
      | delete old =>
        refine ⟨hrow, fun row hdelete hvisible => ?_⟩
        exact hgone row hdelete (IdSet.mem_erase.mp hvisible).1
    · obtain rfl := List.mem_singleton.mp hnew
      cases k with
      | insert new => exact ⟨IdMap.get?_insert_self, nofun⟩
      | delete old =>
        refine ⟨hj.2, fun row hdelete hvisible => ?_⟩
        cases hdelete
        exact (IdSet.mem_erase.mp hvisible).2 rfl

/-- The position of an inserted row was free before. -/
theorem Evolved.get?_base_of_insert (h : Evolved m ks c) (hrow : Change.insert row ∈ ks) :
    m.get? row.position = none := by
  induction h with
  | start => cases hrow
  | @step ks j c h hj ih =>
    rcases List.mem_append.mp hrow with hold | hnew
    · exact ih hold
    · obtain rfl := List.mem_singleton.mp hnew
      cases hbase : m.get? row.position with
      | none => rfl
      | some other => exact absurd (h.get?_base hbase) (by rw [hj]; nofun)

theorem Evolved.left_or_deleted (h : Evolved m ks c) (hrow : c.rows.get? p = some row) :
    (m.changeAll ks).get? p = some row ∨ ∃ old, Change.delete old ∈ ks ∧ old.position = p := by
  induction h with
  | start => exact Or.inl hrow
  | @step ks k c h hk ih =>
    rw [IdMap.changeAll_concat]
    have hkeep (hleft : (∃ old, Change.delete old ∈ ks ∧ old.position = p)) :
        ∃ old, Change.delete old ∈ ks ++ [k] ∧ old.position = p := by
      obtain ⟨old, hold, hp⟩ := hleft
      exact ⟨old, List.mem_append_left [k] hold, hp⟩
    cases k with
    | insert new =>
      simp only [change, IdMap.change, IdMap.get?_insert] at hrow ⊢
      split at hrow
      next hp => exact Or.inl (by rw [if_pos hp, hrow])
      next hp =>
        rw [if_neg hp]
        exact (ih hrow).imp_right hkeep
    | delete old =>
      by_cases hp : p = old.position
      · exact Or.inr ⟨old, by simp, hp.symm⟩
      · rcases ih hrow with hleft | hdeleted
        · exact Or.inl (IdMap.get?_erase.trans ((if_neg hp).trans hleft))
        · exact Or.inr (hkeep hdeleted)

theorem Evolved.scan (h : Evolved m ks c) : c.scan = (m.changeAll ks).values := by
  have hvisible : c.visible = ⟨(m.changeAll ks).keys, (m.changeAll ks).increasing⟩ := by
    ext p
    exact h.mem_visible.trans IdMap.mem_keys.symm
  unfold Contents.scan
  rw [hvisible]
  simp only [IdMap.keys, IdMap.values, List.filterMap_map]
  rw [← List.filterMap_eq_map]
  refine List.filterMap_congr fun e he => ?_
  have hrow : (m.changeAll ks).get? e.1 = some e.2 := IdMap.mem_entries.mp he
  exact h.get?_rows hrow

/-- A change that has been made is taken back by its undo. -/
theorem Evolved.undo (h : Evolved m (ks ++ [k]) c) : Evolved m ks (c.undo k) := by
  obtain ⟨c₀, h₀, hk, rfl⟩ := evolved_concat.mp h
  suffices hback : (c₀.change k).undo k = c₀ by
    rw [hback]
    exact h₀
  cases k with
  | insert row =>
    have hfree : ¬row.position ∈ c₀.visible := by
      intro hvisible
      obtain ⟨other, hother⟩ := Option.isSome_iff_exists.mp (h₀.mem_visible.mp hvisible)
      exact absurd (h₀.get?_rows hother) (by rw [hk]; nofun)
    refine Contents.ext (IdMap.ext fun p => ?_) (IdSet.ext fun p => ?_)
    · by_cases hp : p = row.position
      · rw [hp]
        exact IdMap.get?_erase_self.trans hk.symm
      · exact (IdMap.get?_erase.trans (if_neg hp)).trans (IdMap.get?_insert.trans (if_neg hp))
    · simp only [change, Contents.undo, IdSet.mem_erase, IdSet.mem_insert]
      constructor
      · rintro ⟨hsame | hvisible, hp⟩
        · exact absurd hsame hp
        · exact hvisible
      · intro hvisible
        refine ⟨Or.inr hvisible, ?_⟩
        rintro rfl
        exact hfree hvisible
  | delete row =>
    refine Contents.ext rfl (IdSet.ext fun p => ?_)
    simp only [change, Contents.undo, IdSet.mem_erase, IdSet.mem_insert]
    constructor
    · rintro (rfl | ⟨hvisible, -⟩)
      · exact hk.1
      · exact hvisible
    · intro hvisible
      by_cases hp : p = row.position
      · exact Or.inl hp
      · exact Or.inr ⟨hvisible, hp⟩

theorem visible_foldl_settle (ks : List Change) :
    (ks.foldl Contents.settle c).visible = c.visible := by
  induction ks generalizing c with
  | nil => rfl
  | cons k ks ih =>
    rw [List.foldl_cons, ih]
    cases k <;> rfl

theorem get?_foldl_settle (ks : List Change) :
    (∃ old, Change.delete old ∈ ks ∧ old.position = p) ∧
        (ks.foldl Contents.settle c).rows.get? p = none ∨
      (∀ old, Change.delete old ∈ ks → old.position ≠ p) ∧
        (ks.foldl Contents.settle c).rows.get? p = c.rows.get? p := by
  induction ks using List.reverseRecOn with
  | nil => exact Or.inr ⟨nofun, rfl⟩
  | append_singleton ks k ih =>
    rw [List.foldl_append, List.foldl_cons, List.foldl_nil]
    cases k with
    | insert row => simpa [Contents.settle] using ih
    | delete row =>
      simp only [Contents.settle, IdMap.get?_erase]
      by_cases hp : p = row.position
      · exact Or.inl ⟨⟨row, by simp, hp.symm⟩, if_pos hp⟩
      · rw [if_neg hp]
        refine ih.imp (fun h => ⟨?_, h.2⟩) (fun h => ⟨fun old hold => ?_, h.2⟩)
        · obtain ⟨old, hold, hposition⟩ := h.1
          exact ⟨old, List.mem_append_left _ hold, hposition⟩
        · rcases List.mem_append.mp hold with hold | hnew
          · exact h.1 old hold
          · cases List.mem_singleton.mp hnew
            exact Ne.symm hp

/-- When all changes are settled, exactly the rows that they leave are allocated, and all of these
are visible. -/
theorem Evolved.settle (h : Evolved m ks c) : ks.foldl Contents.settle c = ofRows (m.changeAll ks) := by
  refine Contents.ext (IdMap.ext fun p => ?_) (IdSet.ext fun p => ?_)
  · show _ = (m.changeAll ks).get? p
    rcases get?_foldl_settle (c := c) (p := p) ks with ⟨⟨old, hold, hp⟩, hnone⟩ | ⟨hkept, hsame⟩
    · subst hp
      have hgone := (h.of_mem hold).2 old rfl
      rw [hnone]
      cases hleft : (m.changeAll ks).get? old.position with
      | none => rfl
      | some row => exact absurd (h.mem_visible.mpr (by rw [hleft]; rfl)) hgone
    · rw [hsame]
      cases hrow : c.rows.get? p with
      | none =>
        cases hleft : (m.changeAll ks).get? p with
        | none => rfl
        | some row => exact absurd (h.get?_rows hleft) (by rw [hrow]; nofun)
      | some row =>
        rcases h.left_or_deleted hrow with hleft | ⟨old, hold, hp⟩
        · exact hleft.symm
        · exact absurd hp (hkept old hold)
  · rw [visible_foldl_settle]
    exact h.mem_visible.trans IdMap.mem_keys.symm

theorem Evolved.fresh (h : Evolved m ks c) (hfree : c.rows.get? row.position = none) (hk : k ∈ ks) :
    k.row ≠ row := by
  rintro rfl
  have hrow := (h.of_mem hk).1
  rw [hfree] at hrow
  cases hrow

theorem Evolved.net_insert (h : Evolved m ks c) (hfree : c.rows.get? row.position = none) :
    Change.net (ks ++ [.insert row]) = Change.net ks ++ [.insert row] := by
  have hnew : ¬Change.delete row ∈ ks ++ [.insert row] := by
    intro hmem
    rcases List.mem_append.mp hmem with hold | hlast
    · exact h.fresh hfree hold rfl
    · cases List.mem_singleton.mp hlast
  unfold Change.net
  rw [List.filter_append]
  congr 1
  · refine List.filter_congr fun k hk => ?_
    have hne : k.row ≠ row := h.fresh hfree hk
    simp [hne]
  · rw [List.filter_cons_of_pos, List.filter_nil]
    simpa [Change.row] using hnew

theorem Evolved.net_delete_inserted (hrow : Change.insert row ∈ ks) :
    Change.net (ks ++ [.delete row]) = (Change.net ks).filter (·.row ≠ row) := by
  have hboth : Change.insert row ∈ ks ++ [.delete row] := List.mem_append_left _ hrow
  unfold Change.net
  rw [List.filter_append, List.filter_filter]
  rw [List.filter_cons_of_neg (by simpa [Change.row] using hrow), List.filter_nil, List.append_nil]
  refine List.filter_congr fun k _ => ?_
  by_cases hk : k.row = row
  · simp [hk, hrow]
  · simp [hk]

theorem Evolved.net_delete_base (hrow : ¬Change.insert row ∈ ks) :
    Change.net (ks ++ [.delete row]) = Change.net ks ++ [.delete row] := by
  unfold Change.net
  rw [List.filter_append]
  congr 1
  · refine List.filter_congr fun k _ => ?_
    by_cases hk : k.row = row
    · simp [hk, hrow]
    · simp [hk]
  · rw [List.filter_cons_of_pos, List.filter_nil]
    simp [Change.row, hrow]

/-- The net changes lead to the same rows as all of them. -/
theorem Evolved.changeAll_net (h : Evolved m ks c) : m.changeAll (Change.net ks) = m.changeAll ks := by
  induction h with
  | start => rfl
  | @step ks k c h hk ih =>
    cases k with
    | insert row => rw [h.net_insert hk, IdMap.changeAll_concat, IdMap.changeAll_concat, ih]
    | delete row =>
      by_cases hrow : Change.insert row ∈ ks
      · rw [net_delete_inserted hrow, IdMap.changeAll_concat, ← ih]
        refine IdMap.ext fun p => ?_
        show _ = ((m.changeAll (Change.net ks)).erase row.position).get? p
        rw [IdMap.get?_erase]
        by_cases hp : p = row.position
        · -- All changes at this position are of this row, and none of them is left.
          rw [if_pos hp, hp, IdMap.get?_changeAll_of_ne, h.get?_base_of_insert hrow]
          intro j hj hsame
          obtain ⟨hnet, hother⟩ := List.mem_filter.mp hj
          have hfound := (h.of_mem (Change.mem_net.mp hnet).1).1
          rw [hsame, hk.2] at hfound
          exact absurd (Option.some.inj hfound).symm (by simpa using hother)
        · rw [if_neg hp, IdMap.get?_changeAll_filter]
          intro j _ hj hsame
          have hrow : j.row = row := by simpa using hj
          rw [hrow] at hsame
          exact hp hsame.symm
      · rw [net_delete_base hrow, IdMap.changeAll_concat, IdMap.changeAll_concat, ih]

end Contents

end LockingDb
