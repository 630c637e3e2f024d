import LockingDb.Proofs.SturdyTables

namespace LockingDb

/-- What it makes of a place to take an action back that was done there. -/
def ActionType.takeBack : ActionType → Option (Row × Bool) → Option (Row × Bool)
  | .insert, _ => Option.none
  | .delete, spot | .insertThenDelete, spot => spot.map fun (row, _) => (row, true)
  | .none, spot | .deleteFinal, spot => spot

namespace RowAction

/-- The action was done at a place of a table. -/
def IsAt (a : RowAction) (t : TableId) (p : RowPosition) : Prop := a.store = t ∧ a.position = p

instance (a : RowAction) (t : TableId) (p : RowPosition) : Decidable (a.IsAt t p) :=
  inferInstanceAs (Decidable (a.store = t ∧ a.position = p))

/-- What it makes of a place to take actions back, the last one first. -/
def rewind (as : List RowAction) (t : TableId) (p : RowPosition) (spot : Option (Row × Bool)) :
    Option (Row × Bool) :=
  as.foldr (fun a spot => if a.IsAt t p then a.type.takeBack spot else spot) spot

/-- The call that takes an action back. -/
def undoCall (s : Storage) (a : RowAction) : TableId × StoreCall :=
  (a.store, .rollback ((a.row? s).getD default) a.type)

/-- The call that makes an action final. -/
def finalCall (s : Storage) (a : RowAction) : TableId × StoreCall :=
  (a.store, .commit ((a.row? s).getD default) a.type.committed)

variable {as bs : List RowAction} {a : RowAction} {t : TableId} {p : RowPosition}
  {spot : Option (Row × Bool)}

theorem rewind_append : rewind (as ++ bs) t p spot = rewind as t p (rewind bs t p spot) :=
  List.foldr_append

theorem rewind_singleton : rewind [a] t p spot = if a.IsAt t p then a.type.takeBack spot else spot :=
  rfl

theorem rewind_of_none (h : ∀ a ∈ as, ¬a.IsAt t p) : rewind as t p spot = spot := by
  induction as with
  | nil => rfl
  | cons a as ih =>
    show (if a.IsAt t p then a.type.takeBack (rewind as t p spot) else rewind as t p spot) = spot
    rw [if_neg (h a List.mem_cons_self)]
    exact ih fun b hb => h b (List.mem_cons_of_mem a hb)

end RowAction

/-- The log of an open transaction fits the tables: the rows of its actions are at their places, those
that it has deleted are not visible, and the only two actions at one place are an insert and a later
delete. -/
structure Tracked (as : List RowAction) (s : Storage) : Prop where
  pending : ∀ a ∈ as, a.type.isPending = true
  found : ∀ a ∈ as, ∃ row shown, s.spot a.store a.position = some (row, shown) ∧ row.id = a.row ∧
    (a.type ≠ .insert → shown = false)
  apart : as.Pairwise fun a b => b.IsAt a.store a.position → a.type = .insert ∧ b.type ≠ .insert

open RowAction

namespace Storage

variable {s s' : Storage} {t u : TableId} {p : RowPosition} {row : Row} {a : RowAction}
  {as bs : List RowAction} {now : Timestamp}

theorem row?_of_spot {shown : Bool} (h : s.spot a.store a.position = some (row, shown)) :
    a.row? s = some row := get?_of_spot h

theorem takeBack_of_settled (hpending : a.type.isPending = false) (spot : Option (Row × Bool)) :
    a.type.takeBack spot = spot := by
  cases htype : a.type with
  | none => rfl
  | deleteFinal => rfl
  | _ =>
    rw [htype] at hpending
    cases hpending

theorem put_rollback {other : Row} {shown : Bool} (type : ActionType) :
    (StoreCall.rollback row type).put (some (other, shown)) = type.takeBack (some (other, shown)) := by
  cases type <;> rfl

theorem Sturdy.rollbackRow_ok (hs : s.Sturdy) (hrow : s.get? t row.position = some row)
    (type : ActionType) : ∃ store, (s.storeOf t).perform (.rollback row type) = .ok store := by
  cases type with
  | delete => exact hs.indexRow_eq hrow
  | insertThenDelete => exact hs.indexRow_eq hrow
  | _ => exact ⟨_, rfl⟩

/-- The call that takes an action back changes the place of the action at most, and makes of it what it
should unless it fails. -/
theorem Sturdy.call_rollback (hs : s.Sturdy) (hrow : s.get? a.store a.position = some row) :
    (s.call a.store (.rollback row a.type)).2.Sturdy ∧
      (∀ t p, ¬a.IsAt t p → (s.call a.store (.rollback row a.type)).2.spot t p = s.spot t p) ∧
      (s.Spared (s.call a.store (.rollback row a.type)).2 a.store a.position →
        (s.call a.store (.rollback row a.type)).2.spot a.store a.position =
          a.type.takeBack (s.spot a.store a.position)) := by
  obtain ⟨-, hposition⟩ := hs.found hrow
  have hplace : s.get? a.store row.position = some row := hposition.symm ▸ hrow
  refine ⟨hs.call (k := .rollback row a.type) hplace, fun t p hother => spot_call_of_ne fun hat => ?_,
    fun hspared => ?_⟩
  · exact hother ⟨hat.1.symm, (hat.2.trans hposition).symm⟩
  · have hfree : s.fault? s.calls.length (a.store, .rollback row a.type) = none :=
      Spared.fault?_eq_none (hposition ▸ hspared)
    obtain ⟨store, hk⟩ := hs.rollbackRow_ok hplace a.type
    obtain ⟨hok, -⟩ := call_of_free (isSome_of_get? hrow) hfree hk
    obtain ⟨spot, hspot, hfst⟩ := Option.map_eq_some_iff.mp (fst_spot.trans hrow)
    rw [spot_call, hok, if_pos ⟨rfl, rfl, hposition.symm⟩, hspot]
    exact put_rollback a.type

theorem fst_takeBack {type : ActionType} (htype : type ≠ .insert) (spot : Option (Row × Bool)) :
    (type.takeBack spot).map Prod.fst = spot.map Prod.fst := by
  cases type with
  | insert => exact absurd rfl htype
  | none => rfl
  | deleteFinal => rfl
  | _ => cases spot <;> rfl

/-- A row that was deleted is allocated all the time. -/
theorem get?_call_rollback (hs : s.Sturdy) (hrow : s.get? a.store a.position = some row)
    (htype : a.type ≠ .insert) :
    (s.call a.store (.rollback row a.type)).2.get? t p = s.get? t p := by
  rw [← fst_spot, spot_call, ← fst_spot]
  split
  next hdone =>
    obtain ⟨-, rfl, hp⟩ := hdone
    have hspot := (fst_spot (s := s) (t := a.store) (p := p)).trans
      ((hp.trans (hs.found hrow).2) ▸ hrow)
    obtain ⟨spot, hspot, -⟩ := Option.map_eq_some_iff.mp hspot
    rw [hspot, ← fst_takeBack htype (some spot)]
    exact congrArg (Option.map Prod.fst) (put_rollback a.type)
  next => rfl

/-- To take an action back changes the place of the action at most, and makes of it what it should
unless a call for the place fails. -/
theorem Sturdy.undo (hs : s.Sturdy) (now : Timestamp) (a : RowAction) :
    (a.undo (a.row? s) now s).2.2.Sturdy ∧
    ∀ t p, s.Spared (a.undo (a.row? s) now s).2.2 t p →
      (a.undo (a.row? s) now s).2.2.spot t p = rewind [a] t p (s.spot t p) := by
  cases hpending : a.type.isPending with
  | false =>
    rw [undo_of_settled hpending]
    refine ⟨hs, fun t p _ => ?_⟩
    rw [rewind_singleton, takeBack_of_settled hpending, ite_self]
  | true =>
    cases hrow : a.row? s with
    | none =>
      have hgone : s.spot a.store a.position = none := by
        rw [← Option.map_eq_none_iff (f := Prod.fst), fst_spot]
        exact hrow
      rw [undo_of_gone]
      refine ⟨hs, fun t p _ => ?_⟩
      rw [rewind_singleton]
      split
      next hat =>
        obtain ⟨rfl, rfl⟩ := hat
        rw [hgone]
        cases a.type <;> rfl
      next => rfl
    | some row =>
      obtain ⟨hsturdy, hothers, hplace⟩ := hs.call_rollback hrow
      rw [undo_of_row hpending]
      refine ⟨hsturdy, fun t p hspared => ?_⟩
      rw [rewind_singleton]
      split
      next hat =>
        obtain ⟨rfl, rfl⟩ := hat
        exact hplace hspared
      next hother => exact hothers t p hother

/-- An invisible row that goes is missed by no scan. -/
theorem scan_remove {store : RowStore} (hgone : store.isIndexed p = false) :
    (store.remove p).contents.scan = store.contents.scan := by
  have hout : ¬p ∈ store.index := of_decide_eq_false hgone
  have hindex : store.index.erase p = store.index := by
    refine IdSet.ext fun q => ?_
    rw [IdSet.mem_erase]
    refine and_iff_left_of_imp fun hq => ?_
    rintro rfl
    exact hout hq
  show (store.index.erase p).toList.filterMap (store.rows.erase p).get? =
    store.index.toList.filterMap store.rows.get?
  rw [hindex]
  refine List.filterMap_congr fun q hq => ?_
  rw [IdMap.get?_erase, if_neg]
  rintro rfl
  exact hout hq

/-- To make an action final changes no scan, if the row is invisible that it has deleted. -/
theorem scan_call_commit {type : ActionType}
    (hgone : type ≠ .insert → (s.storeOf t).isIndexed row.position = false) :
    (s.call t (.commit row type.committed)).2.scan u = s.scan u := by
  have hcall := s.call_calls t (.commit row type.committed)
  generalize (s.call t (.commit row type.committed)).1 = answer,
    (s.call t (.commit row type.committed)).2 = after at hcall
  rw [scan_eq, scan_eq]
  have hsame (store : RowStore) (hput : s.Puts t store after)
      (hscan : store.contents.scan = (s.storeOf t).contents.scan) :
      (after.contents u).scan = (s.contents u).scan := by
    rw [hput.contents]
    split
    next hu =>
      rw [hu]
      exact hscan
    next => rfl
  cases hcall with
  | refused h => exact hsame _ h rfl
  | done _ hk h =>
    refine hsame _ h ?_
    cases type with
    | delete =>
      cases hk
      exact scan_remove (hgone nofun)
    | insertThenDelete =>
      cases hk
      exact scan_remove (hgone nofun)
    | deleteFinal =>
      cases hk
      exact scan_remove (hgone nofun)
    | insert =>
      cases hk
      rfl
    | none =>
      cases hk
      rfl

theorem isIndexed_of_spot {shown : Bool} (h : s.spot t p = some (row, shown)) :
    (s.storeOf t).isIndexed p = shown := by
  obtain ⟨other, -, heq⟩ := Option.map_eq_some_iff.mp h
  exact congrArg Prod.snd heq

theorem adds_undo : s.Adds (fun _ => True) (a.undo (a.row? s) now s).2.2 :=
  undo_adds fun _ _ => trivial

theorem adds_undoAll : s.Adds (fun _ => True) (Coordinator.undoAll now bs s) :=
  undoAll_adds fun _ _ _ _ => trivial

/-- Only the tables of the actions change when they are taken back. -/
theorem storeOf_undoAll (hbs : ∀ b ∈ bs, t ≠ b.store) :
    (Coordinator.undoAll now bs s).storeOf t = s.storeOf t := by
  induction bs generalizing s with
  | nil => rfl
  | cons a bs ih =>
    have hfirst : (a.undo (a.row? s) now s).2.2.storeOf t = s.storeOf t := by
      cases hpending : a.type.isPending with
      | false => rw [undo_of_settled hpending]
      | true =>
        cases hrow : a.row? s with
        | none => rw [undo_of_gone]
        | some row =>
          rw [undo_of_row hpending]
          exact storeOf_call (hbs a List.mem_cons_self)
    exact (ih fun b hb => hbs b (List.mem_cons_of_mem a hb)).trans hfirst

theorem storeOf_finalizeAll (has : ∀ a ∈ as, t ≠ a.store) :
    (Coordinator.finalizeAll now as s).2.storeOf t = s.storeOf t := by
  induction as generalizing s with
  | nil => rfl
  | cons a as ih =>
    have hrest {after : Storage} (hafter : after.storeOf t = s.storeOf t) :
        (Coordinator.finalizeAll now as after).2.storeOf t = s.storeOf t :=
      (ih fun b hb => has b (List.mem_cons_of_mem a hb)).trans hafter
    unfold Coordinator.finalizeAll
    split
    next => exact hrest rfl
    next row hrow =>
      have hcall : (s.call a.store (.commit row (a.commit now).type)).2.storeOf t = s.storeOf t :=
        storeOf_call (has a List.mem_cons_self)
      generalize s.call a.store (.commit row (a.commit now).type) = made at hcall
      obtain ⟨answer, after⟩ := made
      cases answer <;> exact hrest hcall

/-- Actions are taken back one after another, and what becomes of a place is up to the calls for it
alone. -/
theorem Sturdy.undoAll (hs : s.Sturdy) (now : Timestamp) (bs : List RowAction) :
    (Coordinator.undoAll now bs s).Sturdy ∧
      ∀ t p, s.Spared (Coordinator.undoAll now bs s) t p →
        (Coordinator.undoAll now bs s).spot t p = rewind bs.reverse t p (s.spot t p) := by
  induction bs generalizing s with
  | nil => exact ⟨hs, fun t p _ => rfl⟩
  | cons a bs ih =>
    obtain ⟨hfirst, hplace⟩ := hs.undo now a
    obtain ⟨hrest, hplaces⟩ := ih hfirst
    refine ⟨hrest, fun t p hspared => ?_⟩
    have hlast := hplaces t p (hspared.last adds_undo)
    rw [hplace t p (hspared.first adds_undoAll)] at hlast
    rw [List.reverse_cons, rewind_append]
    exact hlast

end Storage

namespace Tracked

variable {s s' : Storage} {t u : TableId} {p : RowPosition} {row : Row} {a b : RowAction}
  {as bs : List RowAction} {now : Timestamp}

theorem nil : Tracked [] s := ⟨nofun, nofun, .nil⟩

theorem left (h : Tracked (as ++ bs) s) : Tracked as s :=
  ⟨fun a ha => h.pending a (List.mem_append_left bs ha),
    fun a ha => h.found a (List.mem_append_left bs ha), (List.pairwise_append.mp h.apart).1⟩

/-- The log fits other tables that have the same rows at its places. -/
theorem of_spot (h : Tracked as s)
    (hsame : ∀ a ∈ as, s'.spot a.store a.position = s.spot a.store a.position) : Tracked as s' := by
  refine ⟨h.pending, fun a ha => ?_, h.apart⟩
  rw [hsame a ha]
  exact h.found a ha

/-- Where an insert was done the row may have become visible or not. -/
theorem of_rows (h : Tracked as s)
    (hsame : ∀ a ∈ as, s'.spot a.store a.position = s.spot a.store a.position ∨
      a.type = .insert ∧ s'.get? a.store a.position = s.get? a.store a.position) : Tracked as s' := by
  refine ⟨h.pending, fun a ha => ?_, h.apart⟩
  obtain ⟨row, shown, hspot, hid, hhidden⟩ := h.found a ha
  rcases hsame a ha with hsame | ⟨htype, hsame⟩
  · exact ⟨row, shown, hsame.trans hspot, hid, hhidden⟩
  · have hrow : s'.get? a.store a.position = some row := hsame.trans (Storage.get?_of_spot hspot)
    obtain ⟨⟨other, shown'⟩, hspot', hother⟩ :=
      Option.map_eq_some_iff.mp (Storage.fst_spot.trans hrow)
    obtain rfl : other = row := hother
    exact ⟨other, shown', hspot', hid, fun hno => absurd htype hno⟩

theorem row? (h : Tracked as s) (ha : a ∈ as) : ∃ row, a.row? s = some row ∧ row.id = a.row := by
  obtain ⟨row, shown, hspot, hid, -⟩ := h.found a ha
  exact ⟨row, Storage.row?_of_spot hspot, hid⟩

theorem not_at_free (h : Tracked as s) (ha : a ∈ as) (hfree : s.spot t p = none) : ¬a.IsAt t p := by
  rintro ⟨rfl, rfl⟩
  obtain ⟨row, shown, hspot, -⟩ := h.found a ha
  rw [hfree] at hspot
  cases hspot

/-- A row is allocated and, unless the call fails, made visible and noted. -/
theorem insert (h : Tracked as s) (hs : s.Sturdy) {x : SessionId} {s₁ : Storage}
    (hnew : s.Allocates row s₁) : Tracked
      (as ++ if (s₁.call row.table (.index row)).1.isOk then [.insert x now row.table row] else [])
      (s₁.call row.table (.index row)).2 := by
  have hfree := hs.spot_free hnew
  have hothers (a : RowAction) (ha : a ∈ as) :
      (s₁.call row.table (.index row)).2.spot a.store a.position = s.spot a.store a.position := by
    have hat : ¬(a.store = row.table ∧ a.position = row.position) := h.not_at_free ha hfree
    rw [Storage.spot_call_of_ne hat, hnew.spot_of_ne hat]
  have hold : Tracked as (s₁.call row.table (.index row)).2 := h.of_spot hothers
  split
  next hok =>
    obtain ⟨⟨other, shown⟩, hspot, hrow⟩ := Option.map_eq_some_iff.mp
      (Storage.fst_spot.trans hnew.get?_self)
    obtain rfl : other = row := hrow
    have hplace : (s₁.call other.table (.index other)).2.spot other.table other.position =
        some (other, true) := by
      rw [Storage.spot_call, if_pos ⟨hok, rfl, rfl⟩, hspot]
      rfl
    refine ⟨fun a ha => ?_, fun a ha => ?_, List.pairwise_append.mpr
      ⟨h.apart, List.pairwise_singleton .., fun a ha b hb hat => ?_⟩⟩
    · rcases List.mem_append.mp ha with ha | ha
      · exact h.pending a ha
      · rw [List.mem_singleton.mp ha]
        rfl
    · rcases List.mem_append.mp ha with ha | ha
      · exact hold.found a ha
      · rw [List.mem_singleton.mp ha]
        exact ⟨other, true, hplace, rfl, fun hno => absurd rfl hno⟩
    · rw [List.mem_singleton.mp hb] at hat
      exact absurd ⟨hat.1.symm, hat.2.symm⟩ (h.not_at_free ha hfree)
  next =>
    rw [List.append_nil]
    exact hold

/-- Only a visible row is deleted. -/
theorem spot_of_delete (hrow : s.get? t row.position = some row)
    (hok : (s.call t (.delete row)).1.isOk = true) : s.spot t row.position = some (row, true) := by
  have hvisible : (s.storeOf t).isIndexed row.position = true := by
    have hcall := s.call_calls t (.delete row)
    generalize (s.call t (.delete row)).1 = answer, (s.call t (.delete row)).2 = after at hok hcall
    cases hcall with
    | refused => cases hok
    | done _ hk => exact (RowStore.of_delete hk).1
  rw [Storage.get?_storeOf] at hrow
  unfold Storage.spot RowStore.spot
  rw [hrow, hvisible]
  rfl

/-- A row is made invisible and noted, unless the call fails. -/
theorem delete (h : Tracked as s) {x : SessionId} {insertedHere : Bool}
    (hrow : s.get? t row.position = some row) : Tracked
      (as ++ if (s.call t (.delete row)).1.isOk then [.delete x now t row insertedHere] else [])
      (s.call t (.delete row)).2 := by
  split
  next hok =>
    have hshown := spot_of_delete hrow hok
    have hgone : (s.call t (.delete row)).2.spot t row.position = some (row, false) := by
      rw [Storage.spot_call, if_pos ⟨hok, rfl, rfl⟩, hshown]
      rfl
    -- An action on a row that is still visible is its insert.
    have hinsert (a : RowAction) (ha : a ∈ as) (hat : a.IsAt t row.position) : a.type = .insert := by
      obtain ⟨rfl, hposition⟩ := hat
      obtain ⟨other, shown, hspot, -, hhidden⟩ := h.found a ha
      rw [hposition, hshown] at hspot
      by_contra htype
      rw [hhidden htype] at hspot
      cases hspot
    have hold : Tracked as (s.call t (.delete row)).2 := h.of_rows fun a ha => by
      by_cases hat : a.IsAt t row.position
      · exact .inr ⟨hinsert a ha hat, Storage.get?_call_delete⟩
      · exact .inl (Storage.spot_call_of_ne hat)
    have htype : (RowAction.delete x now t row insertedHere).type ≠ .insert := by
      cases insertedHere <;> nofun
    refine ⟨fun a ha => ?_, fun a ha => ?_, List.pairwise_append.mpr
      ⟨h.apart, List.pairwise_singleton .., fun a ha b hb hat => ?_⟩⟩
    · rcases List.mem_append.mp ha with ha | ha
      · exact h.pending a ha
      · rw [List.mem_singleton.mp ha]
        cases insertedHere <;> rfl
    · rcases List.mem_append.mp ha with ha | ha
      · exact hold.found a ha
      · rw [List.mem_singleton.mp ha]
        exact ⟨row, false, hgone, rfl, fun _ => rfl⟩
    · rw [List.mem_singleton.mp hb] at hat ⊢
      exact ⟨hinsert a ha ⟨hat.1.symm, hat.2.symm⟩, htype⟩
  next hok =>
    rw [List.append_nil]
    refine h.of_spot fun a ha => ?_
    rw [Storage.spot_call, if_neg fun hdone => hok hdone.1]

/-- The last action is taken back by one call, whether it fails or not, and the log in front of it
fits the tables still. -/
theorem undo (h : Tracked (as ++ [b]) s) (hs : s.Sturdy) (now : Timestamp) :
    Tracked as (b.undo (b.row? s) now s).2.2 ∧
      (b.undo (b.row? s) now s).2.2.calls = b.undoCall s :: s.calls ∧
      ∀ a ∈ as, a.undoCall (b.undo (b.row? s) now s).2.2 = a.undoCall s := by
  have hb : b ∈ as ++ [b] := List.mem_append_right as (List.mem_singleton_self b)
  obtain ⟨row, hrow, -⟩ := h.row? hb
  have hget : s.get? b.store b.position = some row := hrow
  obtain ⟨-, hothers, -⟩ := hs.call_rollback hget
  have hcall : b.undoCall s = (b.store, .rollback row b.type) := by
    unfold undoCall
    rw [hrow]
    rfl
  rw [hrow, Storage.undo_of_row (h.pending b hb), hcall]
  have hkept (a : RowAction) (ha : a ∈ as) (hat : b.IsAt a.store a.position) : a.type = .insert ∧
      (s.call b.store (.rollback row b.type)).2.get? a.store a.position =
        s.get? a.store a.position := by
    obtain ⟨htype, hlater⟩ :=
      (List.pairwise_append.mp h.apart).2.2 a ha b (List.mem_singleton_self b) hat
    exact ⟨htype, Storage.get?_call_rollback hs hget hlater⟩
  refine ⟨h.left.of_rows fun a ha => ?_, Storage.calls_call (Storage.isSome_of_get? hget),
    fun a ha => ?_⟩
  · by_cases hat : b.IsAt a.store a.position
    · exact .inr (hkept a ha hat)
    · exact .inl (hothers _ _ hat)
  · have hsame : a.row? (s.call b.store (.rollback row b.type)).2 = a.row? s := by
      unfold RowAction.row?
      by_cases hat : b.IsAt a.store a.position
      · exact (hkept a ha hat).2
      · rw [← Storage.fst_spot, hothers _ _ hat, Storage.fst_spot]
    unfold undoCall
    rw [hsame]

/-- The end of the log is taken back, with one call for each action and the last one first, and the log
in front of it fits the tables still. -/
theorem undoAll (h : Tracked (as ++ bs) s) (hs : s.Sturdy) (now : Timestamp) :
    Tracked as (Coordinator.undoAll now bs.reverse s) ∧
      (Coordinator.undoAll now bs.reverse s).calls = bs.map (undoCall s) ++ s.calls := by
  induction bs using List.reverseRecOn generalizing s with
  | nil =>
    rw [List.append_nil] at h
    exact ⟨h, rfl⟩
  | append_singleton bs b ih =>
    rw [← List.append_assoc] at h
    obtain ⟨hbefore, hcalls, hsame⟩ := h.undo hs now
    obtain ⟨hleft, hrest⟩ := ih hbefore (hs.undo now b).1
    rw [List.reverse_append]
    refine ⟨hleft, hrest.trans ?_⟩
    rw [hcalls, List.map_append, List.append_assoc]
    refine congrArg (· ++ _) (List.map_congr_left fun a ha => ?_)
    exact hsame a (List.mem_append_right as ha)

/-- All of the log is taken back, with one call for each action and the last one first. -/
theorem calls_undoAll (h : Tracked as s) (hs : s.Sturdy) (now : Timestamp) :
    (Coordinator.undoAll now as.reverse s).calls = as.map (undoCall s) ++ s.calls := by
  rw [← List.nil_append as] at h
  exact (h.undoAll hs now).2

/-- Where the oldest action of a log was done a later one may only have deleted what it has
inserted. -/
theorem head_insert (h : Tracked (a :: as) s) (hb : b ∈ as) (hat : b.IsAt a.store a.position) :
    a.type = .insert := ((List.pairwise_cons.mp h.apart).1 b hb hat).1

/-- The oldest action is made final by one call. Unless it was to fail it succeeds, and whether it does
or not a scan gives what it gave, and the rest of the log fits the tables. -/
theorem finalize (h : Tracked (a :: as) s) (hs : s.Sturdy) {after : Storage}
    (hafter : (s.call (a.finalCall s).1 (a.finalCall s).2).2 = after) :
    (∃ row, a.row? s = some row) ∧ Tracked as after ∧ after.Sturdy ∧
      after.calls = a.finalCall s :: s.calls ∧ (∀ b ∈ as, b.finalCall after = b.finalCall s) ∧
      (∀ t, after.scan t = s.scan t) ∧
      (s.call (a.finalCall s).1 (a.finalCall s).2).1 =
        match s.fault? s.calls.length (a.finalCall s) with
        | none => .ok ()
        | some f => .error f := by
  subst hafter
  obtain ⟨row, shown, hspot, -, hhidden⟩ := h.found a List.mem_cons_self
  have hrow : a.row? s = some row := Storage.row?_of_spot hspot
  have hget : s.get? a.store a.position = some row := hrow
  obtain ⟨-, hposition⟩ := hs.found hget
  have hplace : s.get? a.store row.position = some row := hposition.symm ▸ hget
  have ht := Storage.isSome_of_get? hget
  have hcall : a.finalCall s = (a.store, .commit row a.type.committed) := by
    unfold finalCall
    rw [hrow]
    rfl
  rw [hcall]
  -- Nothing happens where another action is left, since it was done after the insert of its row.
  have hothers (b : RowAction) (hb : b ∈ as) :
      (s.call a.store (.commit row a.type.committed)).2.spot b.store b.position =
        s.spot b.store b.position := by
    by_cases hat : b.IsAt a.store a.position
    · rw [h.head_insert hb hat, Storage.spot_call]
      split <;> rfl
    · exact Storage.spot_call_of_ne fun hat' => hat ⟨hat'.1, hat'.2.trans hposition⟩
  have hrest : Tracked as s := ⟨fun b hb => h.pending b (List.mem_cons_of_mem a hb),
    fun b hb => h.found b (List.mem_cons_of_mem a hb), (List.pairwise_cons.mp h.apart).2⟩
  refine ⟨⟨row, hrow⟩, hrest.of_spot hothers, hs.call hplace, Storage.calls_call ht,
    fun b hb => ?_, fun t => ?_, ?_⟩
  · unfold finalCall RowAction.row?
    rw [← Storage.fst_spot, hothers b hb, Storage.fst_spot]
  · refine Storage.scan_call_commit fun htype => ?_
    rw [hposition, Storage.isIndexed_of_spot hspot]
    exact hhidden htype
  · cases hfault : s.fault? s.calls.length (a.store, .commit row a.type.committed) with
    | none =>
      obtain ⟨store, hk⟩ : ∃ store, (s.storeOf a.store).perform (.commit row a.type.committed) =
          .ok store := by cases a.type <;> exact ⟨_, rfl⟩
      exact (Storage.call_of_free ht hfault hk).1
    | some f => exact (Storage.call_of_fault hfault).1

/-- The log is made final in its order, with one call for each action. The first failure is answered,
and no failure keeps a later call from being made. -/
theorem finalizeAll (h : Tracked as s) (hs : s.Sturdy) (now : Timestamp) :
    (Coordinator.finalizeAll now as s).2.Sturdy ∧
      (Coordinator.finalizeAll now as s).2.calls = (as.map (finalCall s)).reverse ++ s.calls ∧
      (∀ t, (Coordinator.finalizeAll now as s).2.scan t = s.scan t) ∧
      (Coordinator.finalizeAll now as s).1 = s.firstFault? (as.map (finalCall s)) := by
  induction as generalizing s with
  | nil => exact ⟨hs, rfl, fun _ => rfl, rfl⟩
  | cons a as ih =>
    obtain ⟨after, hafter⟩ : ∃ after, (s.call (a.finalCall s).1 (a.finalCall s).2).2 = after :=
      ⟨_, rfl⟩
    obtain ⟨⟨row, hrow⟩, hleft, hsturdy, hcalls, hkept, hscan, hanswer⟩ := h.finalize hs hafter
    obtain ⟨hlast, hrest, hscans, hfirst⟩ := ih hleft hsturdy
    have hfault (n : Nat) (call : TableId × StoreCall) : after.fault? n call = s.fault? n call := by
      rw [← hafter]
      exact (Storage.call_adds (p := fun _ => True) trivial).fault?
    have hmap : as.map (finalCall after) = as.map (finalCall s) :=
      List.map_congr_left fun b hb => hkept b hb
    have hcall : a.finalCall s = (a.store, .commit row (a.commit now).type) := by
      unfold finalCall
      rw [hrow]
      rfl
    have hstep : Coordinator.finalizeAll now (a :: as) s =
        ((s.fault? s.calls.length (a.finalCall s)).or (Coordinator.finalizeAll now as after).1,
          (Coordinator.finalizeAll now as after).2) := by
      rw [hcall] at hafter hanswer ⊢
      rw [Coordinator.finalizeAll, hrow]
      dsimp only
      dsimp only at hafter hanswer
      generalize s.call a.store (.commit row (a.commit now).type) = made at hafter hanswer
      obtain ⟨answer, after'⟩ := made
      subst hafter
      dsimp only at hanswer
      rw [hanswer]
      cases s.fault? s.calls.length (a.store, .commit row (a.commit now).type) <;> rfl
    have hstorage : (Coordinator.finalizeAll now (a :: as) s).2 =
        (Coordinator.finalizeAll now as after).2 := by rw [hstep]
    rw [hstorage]
    refine ⟨hlast, ?_, fun t => (hscans t).trans (hscan t), ?_⟩
    · rw [hrest, hmap, hcalls, List.map_cons, List.reverse_cons, List.append_assoc]
      rfl
    · unfold Storage.firstFault? at hfirst ⊢
      rw [hcalls, List.length_cons, hmap] at hfirst
      simp only [hfault] at hfirst
      rw [hstep, List.map_cons, List.zipIdx_cons, List.findSome?_cons]
      dsimp only
      cases s.fault? s.calls.length (a.finalCall s) with
      | some f => rfl
      | none => exact hfirst

end Tracked

end LockingDb
