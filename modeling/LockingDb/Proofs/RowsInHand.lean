import LockingDb.Proofs.LoggedPlaces

namespace LockingDb

/-- What it makes of a place to take an action back that was done there, while somebody may have the
row of the action in hand. The row that was deleted comes back even if the place is empty. -/
def ActionType.takeBackWith (held : Option Row) :
    ActionType → Option (Row × Bool) → Option (Row × Bool)
  | .insert, _ => Option.none
  | .delete, spot | .insertThenDelete, spot => ((spot.map Prod.fst).or held).map fun row => (row, true)
  | .none, spot | .deleteFinal, spot => spot

namespace RowAction

/-- Somebody has the row of an action in hand that was done at the place. -/
def InHandAt (as : List RowAction) (inHand : List Row) (t : TableId) (p : RowPosition) : Prop :=
  ∃ a ∈ as, a.IsAt t p ∧ a.InHand inHand

/-- What it makes of a place to take actions back, the last one first, while somebody has rows in
hand. -/
def rewindWith (inHand : List Row) (as : List RowAction) (t : TableId) (p : RowPosition)
    (spot : Option (Row × Bool)) : Option (Row × Bool) :=
  as.foldr (fun a spot =>
    if a.IsAt t p then a.type.takeBackWith (inHand.find? a.isOn) spot else spot) spot

variable {as bs : List RowAction} {a : RowAction} {t : TableId} {p : RowPosition} {row : Row}
  {spot : Option (Row × Bool)} {inHand : List Row}

theorem not_inHand_nil : ¬a.InHand [] := nofun

theorem inHandAt_reverse : InHandAt as.reverse inHand t p ↔ InHandAt as inHand t p := by
  simp [InHandAt]

theorem not_inHandAt_nil : ¬InHandAt as [] t p := fun ⟨_, _, _, hheld⟩ => not_inHand_nil hheld

theorem Inserts.isAt (h : a.Inserts t p) : a.IsAt t p := ⟨h.1, h.2.1⟩

theorem Deletes.isAt (h : a.Deletes t p) : a.IsAt t p := ⟨h.1, h.2.1⟩

theorem rewind_cons : rewind (a :: as) t p spot =
    if a.IsAt t p then a.type.takeBack (rewind as t p spot) else rewind as t p spot := rfl

theorem rewindWith_cons : rewindWith inHand (a :: as) t p spot =
    if a.IsAt t p then a.type.takeBackWith (inHand.find? a.isOn) (rewindWith inHand as t p spot)
    else rewindWith inHand as t p spot := rfl

theorem rewindWith_append : rewindWith inHand (as ++ bs) t p spot =
    rewindWith inHand as t p (rewindWith inHand bs t p spot) :=
  List.foldr_append

theorem takeBackWith_none (type : ActionType) : type.takeBackWith none spot = type.takeBack spot := by
  cases type with
  | insert => rfl
  | none => rfl
  | deleteFinal => rfl
  | _ => cases spot <;> rfl

theorem takeBackWith_of_settled {type : ActionType} (h : type.isPending = false) (held : Option Row) :
    type.takeBackWith held spot = spot := by
  cases type with
  | none => rfl
  | deleteFinal => rfl
  | _ => cases h

theorem find?_eq_none_of_not_inHand (h : ¬a.InHand inHand) : inHand.find? a.isOn = none :=
  List.find?_eq_none.mpr fun row hrow hon => h ⟨row, hrow, hon⟩

/-- Where nobody has a row in hand, it matters to nobody. -/
theorem rewindWith_eq (h : ¬InHandAt as inHand t p) :
    rewindWith inHand as t p spot = rewind as t p spot := by
  induction as with
  | nil => rfl
  | cons a as ih =>
    have hrest : ¬InHandAt as inHand t p := fun ⟨b, hb, hheld⟩ =>
      h ⟨b, List.mem_cons_of_mem a hb, hheld⟩
    rw [rewindWith_cons, rewind_cons, ih hrest]
    split
    next hat =>
      have hfree : ¬a.InHand inHand := fun hheld => h ⟨a, List.mem_cons_self, hat, hheld⟩
      rw [find?_eq_none_of_not_inHand hfree, takeBackWith_none]
    next => rfl

/-- Nothing is left where a row was inserted. -/
theorem rewind_of_inserted (h : Inserted as t p) : rewind as t p spot = none := by
  induction as with
  | nil => exact absurd h not_inserted_nil
  | cons a as ih =>
    rw [rewind_cons]
    rcases inserted_cons.mp h with hfirst | hrest
    · rw [if_pos hfirst.isAt, hfirst.2.2]
      rfl
    · rw [ih hrest]
      split
      next => cases a.type <;> rfl
      next => rfl

/-- Where no row was inserted the same row is left, and one that was deleted is visible again. -/
theorem rewind_of_not_inserted (spot : Option (Row × Bool)) (h : ¬Inserted as t p) :
    (Deleted as t p → rewind as t p spot = spot.map fun place => (place.1, true)) ∧
      (¬Deleted as t p → rewind as t p spot = spot) := by
  induction as with
  | nil => exact ⟨fun hdeleted => absurd hdeleted not_deleted_nil, fun _ => rfl⟩
  | cons a as ih =>
    rw [inserted_cons, not_or] at h
    obtain ⟨hinserts, hrest⟩ := h
    obtain ⟨hshown, hkept⟩ := ih hrest
    by_cases hdeletes : a.Deletes t p
    · have htake : rewind (a :: as) t p spot =
          (rewind as t p spot).map fun place => (place.1, true) := by
        rw [rewind_cons, if_pos hdeletes.isAt]
        rcases hdeletes.2.2 with htype | htype
        all_goals
          rw [htype]
          rfl
      refine ⟨fun _ => ?_, fun hnot => absurd (deleted_cons.mpr (.inl hdeletes)) hnot⟩
      rw [htake]
      by_cases hdeleted : Deleted as t p
      · rw [hshown hdeleted, Option.map_map]
        rfl
      · rw [hkept hdeleted]
    · have hpass : rewind (a :: as) t p spot = rewind as t p spot := by
        rw [rewind_cons]
        split
        next hat =>
          cases htype : a.type with
          | insert => exact absurd ⟨hat.1, hat.2, htype⟩ hinserts
          | delete => exact absurd ⟨hat.1, hat.2, .inl htype⟩ hdeletes
          | insertThenDelete => exact absurd ⟨hat.1, hat.2, .inr htype⟩ hdeletes
          | none => rfl
          | deleteFinal => rfl
        next => rfl
      rw [hpass, deleted_cons, or_iff_right hdeletes]
      exact ⟨hshown, hkept⟩

/-- A row that is visible when actions have been taken back was so before, or one of them has deleted
it, and none has inserted it. -/
theorem rewind_shown : rewind as t p spot = some (row, true) ↔ ¬Inserted as t p ∧
    (spot = some (row, true) ∨ Deleted as t p ∧ spot.map Prod.fst = some row) := by
  by_cases hinserted : Inserted as t p
  · rw [rewind_of_inserted hinserted]
    exact iff_of_false nofun fun hnot => hnot.1 hinserted
  · obtain ⟨hshown, hkept⟩ := rewind_of_not_inserted spot hinserted
    rw [and_iff_right hinserted]
    by_cases hdeleted : Deleted as t p
    · rw [hshown hdeleted, and_iff_right hdeleted]
      cases spot with
      | none => simp
      | some place =>
        obtain ⟨other, shown⟩ := place
        simp only [Option.map_some, Option.some.injEq, Prod.mk.injEq, and_true]
        exact ⟨.inr, fun hother => hother.elim And.left id⟩
    · rw [hkept hdeleted]
      exact ⟨.inl, fun hother => hother.resolve_right fun hnot => hdeleted hnot.1⟩

/-- A row that is hidden when actions have been taken back was so before, and none of them has
deleted it. -/
theorem rewind_hidden (h : rewind as t p spot = some (row, false)) :
    spot = some (row, false) ∧ ¬Deleted as t p := by
  by_cases hinserted : Inserted as t p
  · rw [rewind_of_inserted hinserted] at h
    cases h
  · obtain ⟨hshown, hkept⟩ := rewind_of_not_inserted spot hinserted
    by_cases hdeleted : Deleted as t p
    · rw [hshown hdeleted] at h
      obtain ⟨place, -, hplace⟩ := Option.map_eq_some_iff.mp h
      cases hplace
    · exact ⟨(hkept hdeleted).symm.trans h, hdeleted⟩

/-- Nobody has another row of the place in hand. -/
def OnlyInHandAt (as : List RowAction) (inHand : List Row) (t : TableId) (p : RowPosition)
    (row : Row) : Prop :=
  ∀ a ∈ as, a.IsAt t p → ∀ other ∈ inHand, a.isOn other = true → other = row

theorem OnlyInHandAt.mono (h : OnlyInHandAt bs inHand t p row) (hmore : as ⊆ bs) :
    OnlyInHandAt as inHand t p row := fun a ha => h a (hmore ha)

theorem OnlyInHandAt.held (h : OnlyInHandAt as inHand t p row) (ha : a ∈ as) (hat : a.IsAt t p) :
    ∀ other ∈ inHand.find? a.isOn, other = row := by
  intro other hfound
  exact h a ha hat other (List.mem_of_find?_eq_some hfound) (List.find?_some hfound)

/-- A place that is taken by no other row is taken by no other one when an action has been taken back
there. -/
theorem takeBackWith_only {type : ActionType} {held : Option Row}
    (hheld : ∀ other ∈ held, other = row) (hspot : ∀ place ∈ spot, place.1 = row) :
    ∀ place ∈ type.takeBackWith held spot, place.1 = row := by
  have hback : ∀ place ∈ ((spot.map Prod.fst).or held).map fun row => (row, true), place.1 = row := by
    intro place hplace
    obtain ⟨other, hother, rfl⟩ := Option.map_eq_some_iff.mp hplace
    cases spot with
    | none => exact hheld other hother
    | some old =>
      cases hother
      exact hspot old rfl
  cases type with
  | insert => nofun
  | delete => exact hback
  | insertThenDelete => exact hback
  | none => exact hspot
  | deleteFinal => exact hspot

/-- Where a row was inserted, no other one is left than the one that somebody has in hand. -/
theorem rewindWith_only (honly : OnlyInHandAt as inHand t p row)
    (hstart : Inserted as t p ∨ ∀ place ∈ spot, place.1 = row) :
    ∀ place ∈ rewindWith inHand as t p spot, place.1 = row := by
  induction as with
  | nil => exact hstart.resolve_left not_inserted_nil
  | cons a as ih =>
    have hlater : OnlyInHandAt as inHand t p row := honly.mono (List.subset_cons_self a as)
    rw [rewindWith_cons]
    by_cases hinserts : a.Inserts t p
    · rw [if_pos hinserts.isAt, hinserts.2.2]
      nofun
    · have hrest := ih hlater (hstart.imp_left fun h => (inserted_cons.mp h).resolve_left hinserts)
      split
      next hat => exact takeBackWith_only (honly.held List.mem_cons_self hat) hrest
      next => exact hrest

/-- A row that is visible stays so if none was inserted at its place. -/
theorem rewindWith_shown (h : ¬Inserted as t p) (hspot : spot = some (row, true)) :
    rewindWith inHand as t p spot = some (row, true) := by
  induction as with
  | nil => exact hspot
  | cons a as ih =>
    rw [inserted_cons, not_or] at h
    rw [rewindWith_cons, ih h.2]
    split
    next hat =>
      cases htype : a.type with
      | insert => exact absurd ⟨hat.1, hat.2, htype⟩ h.1
      | _ => rfl
    next => rfl

/-- A row that was deleted comes back from the hand of whoever has it, if it was inserted again
after that only. -/
theorem rewindWith_reinserted (honly : OnlyInHandAt (as ++ a :: bs) inHand t p row)
    (hdeletes : a.Deletes t p) (hon : a.isOn row = true) (hheld : row ∈ inHand)
    (hbefore : ¬Inserted as t p) (hafter : Inserted bs t p) :
    rewindWith inHand (as ++ a :: bs) t p spot = some (row, true) := by
  have hfound : inHand.find? a.isOn = some row := by
    obtain ⟨other, hother⟩ : ∃ other, inHand.find? a.isOn = some other :=
      Option.isSome_iff_exists.mp (List.find?_isSome.mpr ⟨row, hheld, hon⟩)
    have hin : a ∈ as ++ a :: bs := List.mem_append_right as List.mem_cons_self
    rw [hother, honly.held hin hdeletes.isAt other hother]
  have hlast : ∀ place ∈ rewindWith inHand bs t p spot, place.1 = row := by
    refine rewindWith_only (honly.mono fun b hb => ?_) (.inl hafter)
    exact List.mem_append_right as (List.mem_cons_of_mem a hb)
  have hback : ((rewindWith inHand bs t p spot).map Prod.fst).or (some row) = some row := by
    cases hplace : rewindWith inHand bs t p spot with
    | none => rfl
    | some place => exact congrArg some (hlast place hplace)
  rw [rewindWith_append]
  refine rewindWith_shown hbefore ?_
  rw [rewindWith_cons, if_pos hdeletes.isAt, hfound]
  rcases hdeletes.2.2 with htype | htype
  all_goals
    rw [htype]
    exact congrArg (Option.map fun row => (row, true)) hback

end RowAction

open RowAction

namespace Storage

variable {s s' : Storage} {t u : TableId} {p : RowPosition} {row : Row} {a : RowAction}
  {as : List RowAction} {inHand : List Row} {now : Timestamp}

/-- The row of an action is the one in hand, and else the one at its place. -/
theorem or_of_row? (h : s.InPlace) (hrow : a.row? s inHand = some row) :
    (inHand.find? a.isOn = some row ∧ a.isOn row = true ∧ row ∈ inHand ∨
      inHand.find? a.isOn = none ∧ s.get? a.store a.position = some row ∧ row.table = a.store) ∧
    row.position = a.position := by
  refine ⟨?_, h.position_of_row? hrow⟩
  unfold RowAction.row? at hrow
  cases hheld : inHand.find? a.isOn with
  | some other =>
    rw [hheld] at hrow
    cases hrow
    exact .inl ⟨rfl, List.find?_some hheld, List.mem_of_find?_eq_some hheld⟩
  | none =>
    rw [hheld] at hrow
    exact .inr ⟨rfl, hrow, (h.found hrow).1⟩

/-- An action without a row was done at a place that is free now, and nobody has its row in hand. -/
theorem free_of_row? (hrow : a.row? s inHand = none) :
    inHand.find? a.isOn = none ∧ s.spot a.store a.position = none := by
  constructor
  · unfold RowAction.row? at hrow
    cases hfound : inHand.find? a.isOn with
    | none => rfl
    | some other =>
      rw [hfound] at hrow
      cases hrow
  · rw [← Option.map_eq_none_iff (f := Prod.fst), fst_spot]
    exact Option.eq_none_iff_forall_ne_some.mpr fun row => get?_ne_of_row? hrow ⟨rfl, rfl⟩

/-- The row that stands where an action was done when its own row has been put back there, if the place
was free. -/
theorem InPlace.put_back (h : s.InPlace) (hrow : a.row? s inHand = some row) :
    ((s.spot a.store a.position).map Prod.fst).or (inHand.find? a.isOn) =
      some (((s.spot a.store a.position).map Prod.fst).getD row) := by
  rw [fst_spot]
  rcases (or_of_row? h hrow).1 with ⟨hheld, -⟩ | ⟨-, hget, -⟩
  · rw [hheld]
    cases s.get? a.store a.position <;> rfl
  · rw [hget]
    rfl

theorem InPlace.perform_rollback (h : s.InPlace) (htable : row.table = t) (type : ActionType) :
    ∃ store, (s.storeOf t).perform (.rollback row type) = .ok store := by
  have hindex : ∃ store, (s.storeOf t).indexRow row = .ok store :=
    ⟨_, if_pos (htable.trans (h.named t).symm)⟩
  cases type with
  | delete => exact hindex
  | insertThenDelete => exact hindex
  | _ => exact ⟨_, rfl⟩

/-- To take an action back changes its place only, and makes of it what it should, if the row that
somebody has in hand fits the table. -/
theorem InPlace.spot_undo (h : s.InPlace) (now : Timestamp)
    (hfits : a.IsAt t p → ∀ row ∈ inHand, a.isOn row = true →
      row.table = t ∧ (s.tables.get? t).isSome = true) :
    (a.undo (a.row? s inHand) now s).2.2.spot t p = rewindWith inHand [a] t p (s.spot t p) := by
  have hsingle : rewindWith inHand [a] t p (s.spot t p) =
      if a.IsAt t p then a.type.takeBackWith (inHand.find? a.isOn) (s.spot t p) else s.spot t p := rfl
  rw [hsingle]
  cases hpending : a.type.isPending with
  | false => rw [undo_of_settled hpending, takeBackWith_of_settled hpending, ite_self]
  | true =>
    cases hrow : a.row? s inHand with
    | none =>
      rw [undo_of_gone]
      split
      next hat =>
        obtain ⟨rfl, rfl⟩ := hat
        obtain ⟨hheld, hgone⟩ := free_of_row? hrow
        rw [hheld, hgone]
        cases a.type <;> rfl
      next => rfl
    | some row =>
      obtain ⟨hfound, hposition⟩ := or_of_row? h hrow
      rw [undo_of_row hpending]
      split
      next hat =>
        obtain ⟨rfl, rfl⟩ := hat
        have hfit : row.table = a.store ∧ (s.tables.get? a.store).isSome = true := by
          rcases hfound with ⟨-, hon, hin⟩ | ⟨-, hget, htable⟩
          · exact hfits ⟨rfl, rfl⟩ row hin hon
          · exact ⟨htable, isSome_of_get? hget⟩
        obtain ⟨store, hk⟩ := h.perform_rollback hfit.1 a.type
        obtain ⟨hok, -⟩ := h.call_ok hfit.2 hk
        have hback := congrArg (Option.map fun row => (row, true)) (h.put_back hrow)
        rw [spot_call, hok, if_pos ⟨rfl, rfl, hposition.symm⟩]
        cases htype : a.type with
        | delete => exact hback.symm
        | insertThenDelete => exact hback.symm
        | _ => rfl
      next hother =>
        refine spot_call_of_ne fun hat => hother ⟨hat.1.symm, ?_⟩
        exact (hat.2.trans hposition).symm

/-- Actions are taken back one after another, and what becomes of a place is up to those that were
done there. -/
theorem InPlace.spot_undoAll (h : s.InPlace) (now : Timestamp) (as : List RowAction)
    (hfits : ∀ a ∈ as, a.IsAt t p → ∀ row ∈ inHand, a.isOn row = true →
      row.table = t ∧ (s.tables.get? t).isSome = true) :
    (Coordinator.undoAll now as s inHand).spot t p =
      rewindWith inHand as.reverse t p (s.spot t p) := by
  induction as generalizing s with
  | nil => rfl
  | cons a as ih =>
    have hfirst := h.spot_undo now (hfits a List.mem_cons_self)
    rw [List.reverse_cons, rewindWith_append, ← hfirst]
    refine ih h.undo fun b hb hat row hrow hon => ?_
    rw [isSome_undo]
    exact hfits b (List.mem_cons_of_mem a hb) hat row hrow hon

/-- Where nobody has a row in hand, what becomes of a place is up to the actions alone. -/
theorem InPlace.spot_undoAll_of_free (h : s.InPlace) (hfree : ¬InHandAt as inHand t p) :
    (Coordinator.undoAll now as.reverse s inHand).spot t p = rewind as t p (s.spot t p) := by
  have hspot := h.spot_undoAll now as.reverse fun a ha hat row hrow hon =>
    absurd (inHandAt_reverse.mp ⟨a, ha, hat, row, hrow, hon⟩) hfree
  rw [List.reverse_reverse] at hspot
  exact hspot.trans (rewindWith_eq hfree)

/-- A scan gives the rows that are visible. -/
theorem InPlace.shown_iff (h : s.InPlace) :
    row ∈ s.scan t ↔ s.spot t row.position = some (row, true) := by
  rw [h.mem_scan, get?_storeOf]
  unfold spot RowStore.spot RowStore.isIndexed
  cases (s.storeOf t).get? row.position with
  | none => simp
  | some other => simp [and_comm]

end Storage

end LockingDb
