import LockingDb.Proofs.FaultyRuns
import LockingDb.Proofs.RowsInHand
import LockingDb.Proofs.StoreRuns

namespace LockingDb

open Coordinator RowAction

namespace RowStore

variable {store : RowStore} {p : RowPosition} {id : RowId} {values : List Value}

theorem spot_newRow_of_ne (hp : p ≠ store.nextPosition) :
    (store.newRow id values).2.spot p = store.spot p := by
  have hget : (store.newRow id values).2.get? p = store.get? p := get?_newRow.trans (if_neg hp)
  unfold spot
  rw [hget]
  rfl

end RowStore

namespace Storage

variable {s s' : Storage} {t u : TableId} {p : RowPosition} {row : Row} {k : StoreCall}
  {store : RowStore} {values : List Value} {a : RowAction} {as : List RowAction} {now : Timestamp}

/-- Tables are created in the order of their numbers, and the store of each has come about by steps
from an empty one, whichever calls fail. -/
structure Reached (s : Storage) : Prop where
  created : s.Created
  stores : ∀ t, ∃ steps, s.storeOf t = RowStore.after t steps

theorem reached_empty : empty.Reached := ⟨nofun, fun _ => ⟨[], rfl⟩⟩

theorem Reached.coherent (h : s.Reached) (t : TableId) :
    (s.storeOf t).Coherent ∧ (s.storeOf t).table = t := by
  obtain ⟨steps, hsteps⟩ := h.stores t
  rw [hsteps]
  exact RowStore.coherent_after t steps

theorem Reached.found (h : s.Reached) : s.Found := by
  intro t p row hrow
  rw [get?_storeOf] at hrow
  obtain ⟨hcoherent, hnamed⟩ := h.coherent t
  obtain ⟨htable, hposition⟩ := hcoherent.placed p row hrow
  exact ⟨htable.trans hnamed, hposition⟩

theorem Reached.of_same (h : s.Reached) (hstore : ∀ t, s'.storeOf t = s.storeOf t)
    (hcreated : s'.Created) : s'.Reached := ⟨hcreated, fun t => hstore t ▸ h.stores t⟩

theorem Reached.puts (h : s.Reached) (hput : s.Puts t store s')
    (hstore : ∃ steps, store = RowStore.after t steps) : s'.Reached := by
  refine ⟨hput.created h.created, fun u => ?_⟩
  rw [hput.storeOf]
  split
  next hu => exact hu ▸ hstore
  next => exact h.stores u

theorem Reached.call (h : s.Reached) : (s.call t k).2.Reached := by
  obtain ⟨steps, hsteps⟩ := h.stores t
  have hcall := s.call_calls t k
  generalize (s.call t k).1 = answer, (s.call t k).2 = after at hcall
  cases hcall with
  | refused hput => exact h.puts hput ⟨steps, hsteps⟩
  | done _ hk hput =>
    refine h.puts hput ⟨steps ++ [.call k], ?_⟩
    rw [RowStore.after_concat, ← hsteps, RowStore.takeStep_of_ok hk]

/-- A row that is allocated is found at its position, and all other places are as before. -/
structure Grows (s : Storage) (t : TableId) (row : Row) (s' : Storage) : Prop where
  reached : s'.Reached
  get? : s'.get? t row.position = some row
  others : ∀ u p, ¬(u = t ∧ p = row.position) → s'.spot u p = s.spot u p

theorem Reached.newRow (h : s.Reached) (hnew : s.newRow t values = (.ok row, s')) :
    s.Grows t row s' := by
  obtain ⟨steps, hsteps⟩ := h.stores t
  have hnamed := (h.coherent t).2
  have hrow : s.rowOf t values = ((s.storeOf t).newRow s.nextRow values).1 := by
    simp only [RowStore.newRow, rowOf, hnamed]
  obtain ⟨ht, rfl, rfl⟩ := eq_of_newRow hnamed hnew
  have hput : s.Puts t ((s.storeOf t).newRow s.nextRow values).2
      (s.setStore t ((s.storeOf t).newRow s.nextRow values).2) := puts_setStore ht
  refine ⟨?_, ?_, fun u p hne => ?_⟩
  · have hgrown := h.puts hput ⟨steps ++ [.allocate s.nextRow values], by
      rw [RowStore.after_concat, ← hsteps]
      rfl⟩
    exact ⟨hgrown.created, hgrown.stores⟩
  · rw [hrow]
    exact hput.get?.trans ((if_pos rfl).trans (RowStore.get?_newRow.trans (if_pos rfl)))
  · show ((s.setStore t _).storeOf u).spot p = (s.storeOf u).spot p
    rw [hput.storeOf]
    split
    next hu =>
      subst hu
      exact RowStore.spot_newRow_of_ne fun hp => hne ⟨rfl, hp⟩
    next => rfl

theorem Reached.undo (h : s.Reached) (now : Timestamp) (a : RowAction) :
    (a.undo (a.row? s) now s).2.2.Reached := by
  by_cases hpending : a.type.isPending = true
  · cases hrow : a.row? s with
    | none =>
      rw [undo_of_gone]
      exact h
    | some row =>
      rw [undo_of_row hpending]
      exact h.call
  · rw [undo_of_settled (Bool.eq_false_iff.mpr hpending)]
    exact h

theorem Reached.undoAll (h : s.Reached) : (Coordinator.undoAll now as s).Reached := by
  induction as generalizing s with
  | nil => exact h
  | cons a as ih => exact ih (h.undo now a)

theorem Reached.finalizeAll (h : s.Reached) : (Coordinator.finalizeAll now as s).2.Reached := by
  induction as generalizing s with
  | nil => exact h
  | cons a as ih =>
    unfold Coordinator.finalizeAll
    split
    next => exact ih h
    next row _ =>
      have hcall : (s.call a.store (.commit row (a.commit now).type)).2.Reached := h.call
      generalize s.call a.store (.commit row (a.commit now).type) = called at hcall
      obtain ⟨answer, after⟩ := called
      cases answer <;> exact ih hcall

/-- Tables obey when they are created. -/
theorem InPlace.createTable (h : s.InPlace) (hcreated : s.Created) (name : String) (watched : Bool) :
    (s.createTable name watched).2.InPlace := by
  obtain ⟨-, hstore, -⟩ := hcreated.createTable name watched
  refine ⟨fun t => hstore t ▸ h.named t, fun t table ht => ?_, fun t => hstore t ▸ h.placed t⟩
  unfold Storage.createTable at ht
  split at ht
  next => exact h.obeys t table ht
  next =>
    have hget : (s.addTable s.nextTable watched).tables.get? t =
        if t = s.nextTable then some (.empty s.nextTable watched) else s.tables.get? t :=
      IdMap.get?_insert
    have ht := hget.symm.trans ht
    split at ht
    next =>
      cases ht
      exact fun _ _ => rfl
    next => exact h.obeys t table ht

/-- A row is hidden if it is allocated and no scan gives it. -/
theorem InPlace.hidden_iff (h : s.InPlace) :
    s.spot t p = some (row, false) ↔ s.get? t p = some row ∧ row ∉ s.scan t := by
  rw [h.mem_scan, get?_storeOf, get?_storeOf]
  unfold spot RowStore.spot
  cases hrow : (s.storeOf t).get? p with
  | none => simp
  | some other =>
    obtain ⟨-, rfl⟩ := h.placed t p other hrow
    simp only [Option.map_some, Option.some.injEq, Prod.mk.injEq]
    refine and_congr_right ?_
    rintro rfl
    simp [hrow, RowStore.isIndexed]

/-- What is hidden after actions have been made final was so before, and none of them has deleted it. -/
theorem Finalized.hidden (h : Finalized as s s') (hs : s.InPlace)
    (hspot : s'.spot t p = some (row, false)) : s.spot t p = some (row, false) ∧ ¬Deleted as t p := by
  obtain ⟨hrow', hout⟩ := h.inPlace.hidden_iff.mp hspot
  obtain ⟨hrow, hkept⟩ := (h.left t p row).mp hrow'
  obtain ⟨-, rfl⟩ := hs.found hrow
  rw [h.shown] at hout
  exact ⟨hs.hidden_iff.mpr ⟨hrow, fun hin => hout ⟨hin, hkept⟩⟩, hkept⟩

end Storage

namespace Coordinator

variable {c c' : Coordinator} {s : SessionId} {t : TableId} {p : RowPosition} {row : Row}
  {e : Option Event}

theorem StoreTurn.reached (h : StoreTurn s c c' e) (hs : c.storage.Reached) : c'.storage.Reached := by
  cases h with
  | stays hstorage hactions hup hgoes => exact hstorage ▸ hs
  | inserts hopen hmode hnew hstorage hactions hup => exact hstorage ▸ (hs.newRow hnew).reached.call
  | deletes hopen hmode hrow hstorage hactions hup => exact hstorage ▸ hs.call
  | undoes hstorage hactions hup hends => exact hstorage ▸ hs.undoAll
  | finalizes hstorage hactions hends => exact hstorage ▸ hs.finalizeAll

/-- A turn keeps the rows where they belong, and what it notes waits for the end. -/
theorem StoreTurn.inPlace (h : StoreTurn s c c' e) (hs : c.storage.InPlace)
    (hpending : ∀ a ∈ (c.tx s).actions, a.type.isPending = true) :
    c'.storage.InPlace ∧ ∀ a ∈ (c'.tx s).actions, a.type.isPending = true := by
  have hadds (b : RowAction) (done : Bool) (hb : b.type.isPending = true) :
      ∀ a ∈ (c.tx s).actions ++ if done then [b] else [], a.type.isPending = true := by
    intro a ha
    rcases List.mem_append.mp ha with hold | hnew
    · exact hpending a hold
    · split at hnew
      next => rwa [List.mem_singleton.mp hnew]
      next => cases hnew
  cases h with
  | stays hstorage hactions hup hgoes =>
    rw [hstorage, hactions]
    exact ⟨hs, hpending⟩
  | @inserts t values row storage hopen hmode hnew hstorage hactions hup =>
    have hgrown : (c.storage.newRow t values).2.InPlace := hs.newRow
    rw [hnew] at hgrown
    rw [hstorage, hactions]
    exact ⟨hgrown.call, hadds _ _ rfl⟩
  | @deletes t row insertedHere hopen hmode hrow hstorage hactions hup =>
    rw [hstorage, hactions]
    exact ⟨hs.call, hadds _ _ (by cases insertedHere <;> rfl)⟩
  | undoes hstorage hactions hup hends =>
    rw [hstorage, hactions]
    exact ⟨hs.undoAll, fun a ha => hpending a (List.mem_of_mem_take ha)⟩
  | finalizes hstorage hactions hends =>
    rw [hstorage, hactions]
    exact ⟨(hs.finalizeAll hpending fun _ _ hheld => absurd hheld not_inHand_nil).2.inPlace, nofun⟩

/-- What is hidden after a turn the session has noted as deleted, or it was hidden before and not by
the session. -/
theorem StoreTurn.hidden (h : StoreTurn s c c' e) (hs : c.storage.InPlace)
    (hreached : c.storage.Reached) (hpending : ∀ a ∈ (c.tx s).actions, a.type.isPending = true)
    (hspot : c'.storage.spot t p = some (row, false)) :
    Deleted (c'.tx s).actions t p ∨
      c.storage.spot t p = some (row, false) ∧ ¬Deleted (c.tx s).actions t p := by
  have hkept (hold : c.storage.spot t p = some (row, false))
      (hlog : Deleted (c.tx s).actions t p → Deleted (c'.tx s).actions t p) :
      Deleted (c'.tx s).actions t p ∨
        c.storage.spot t p = some (row, false) ∧ ¬Deleted (c.tx s).actions t p := by
    by_cases hdeleted : Deleted (c.tx s).actions t p
    · exact .inl (hlog hdeleted)
    · exact .inr ⟨hold, hdeleted⟩
  cases h with
  | stays hstorage hactions hup hgoes =>
    rw [hstorage] at hspot
    rw [hactions] at hkept ⊢
    exact hkept hspot id
  | @inserts u values new storage hopen hmode hnew hstorage hactions hup =>
    have hgrows := hreached.newRow hnew
    have hinPlace : storage.InPlace := by
      have hgrown : (c.storage.newRow u values).2.InPlace := hs.newRow
      rwa [hnew] at hgrown
    rw [hstorage] at hspot
    by_cases hat : t = u ∧ p = new.position
    · -- The row that is inserted is visible.
      obtain ⟨rfl, rfl⟩ := hat
      obtain ⟨htable, -⟩ := hinPlace.found hgrows.get?
      have hk : ∃ store, (storage.storeOf t).perform (.index new) = .ok store :=
        ⟨_, if_pos (htable.trans (hinPlace.named t).symm)⟩
      obtain ⟨store, hk⟩ := hk
      obtain ⟨hok, -⟩ := hinPlace.call_ok (Storage.isSome_of_get? hgrows.get?) hk
      rw [Storage.spot_call, hok, if_pos ⟨rfl, rfl, rfl⟩] at hspot
      cases hspot
    · rw [Storage.spot_call_of_ne hat, hgrows.others t p hat] at hspot
      refine hkept hspot fun hdeleted => ?_
      rw [hactions]
      exact deleted_append.mpr (.inl hdeleted)
  | @deletes u old insertedHere hopen hmode hrow hstorage hactions hup =>
    rw [hstorage, Storage.spot_call] at hspot
    rw [hactions] at hkept ⊢
    split at hspot
    next hdone =>
      obtain ⟨hok, rfl, rfl⟩ := hdone
      rw [if_pos hok]
      exact .inl (deleted_append.mpr (.inr ⟨_, List.mem_cons_self, deletes_delete⟩))
    next => exact hkept hspot fun hdeleted => deleted_append.mpr (.inl hdeleted)
  | @undoes e n now hstorage hactions hup hends =>
    rw [hstorage] at hspot
    rw [hs.spot_undoAll_of_free not_inHandAt_nil] at hspot
    obtain ⟨hold, hleft⟩ := rewind_hidden hspot
    refine hkept hold fun hdeleted => ?_
    rw [← List.take_append_drop n (c.tx s).actions, deleted_append] at hdeleted
    exact hactions ▸ hdeleted.resolve_right hleft
  | finalizes hstorage hactions hends =>
    rw [hstorage] at hspot
    exact .inr ((hs.finalizeAll hpending fun _ _ hheld => absurd hheld not_inHand_nil).2.hidden hs hspot)

end Coordinator

namespace Database

variable {db : Database} {m : Move} {moves : List Move} {t : TableId} {p : RowPosition} {row : Row}

/-- What holds as long as no store fails: the stores have come about by steps, the logs wait for their
end, and whoever has hidden a row has noted it. -/
structure Tended (db : Database) : Prop where
  standing : db.Standing
  aims : ∀ s x, db.sessions.get? s = some x → x.Aims db.coordinator.storage
  tidy : db.coordinator.Tidy
  reached : db.coordinator.storage.Reached
  hidden : ∀ t p row, db.coordinator.storage.spot t p = some (row, false) →
    ∃ s, Deleted (db.coordinator.tx s).actions t p

theorem tended_openWith {settings : Settings} {journal : Journal}
    (hopen : openWith? settings journal = .ok db) : db.Tended := by
  have hkept := kept_openWith hopen
  have hdb := openWith?_eq hopen
  subst hdb
  exact ⟨hkept.standing, hkept.aims, ⟨Storage.sound_empty.inPlace, nofun⟩, Storage.reached_empty,
    nofun⟩

theorem Tended.posed (h : db.Tended) : db.Posed :=
  ⟨h.standing, h.reached.found, h.reached.created, h.aims⟩

/-- Moves of no session leave the stores and the logs as they are. -/
theorem Tended.of_no_mover (h : db.Tended) (hinside : m.isInside = true) (hm : m.mover? = none) :
    (db.perform m).coordinator.storage.InPlace ∧ (db.perform m).coordinator.storage.Reached ∧
      ∀ t, (db.perform m).coordinator.storage.storeOf t = db.coordinator.storage.storeOf t := by
  obtain ⟨hcreated, hstores, -⟩ := h.posed.of_no_mover hm (refaults_of_inside hinside)
  refine ⟨?_, h.reached.of_same hstores hcreated, hstores⟩
  cases m with
  | createTable name watched => exact h.tidy.inPlace.createTable h.reached.created name watched
  | expire y =>
    have hsame : (db.perform (.expire y)).coordinator.storage = db.coordinator.storage :=
      congrArg Coordinator.storage coordinator_expire
    exact hsame ▸ h.tidy.inPlace
  | checkpoint => exact h.tidy.inPlace
  | connect => exact h.tidy.inPlace
  | raiseAbort y => exact h.tidy.inPlace
  | outside storage journal => cases hinside
  | _ => cases hm

theorem Tended.perform (h : db.Tended) (hinside : m.isInside = true) : (db.perform m).Tended := by
  have hlog {s : SessionId} (hs : m.mover? ≠ some s) := h.standing.actions_of_other hs
  have haims (s : SessionId) (x : Session) (hx : (db.perform m).sessions.get? s = some x) :=
    h.posed.aims_perform (refaults_of_inside hinside) hx
  cases hmover : m.mover? with
  | none =>
    obtain ⟨hinPlace, hreached, hstores⟩ := h.of_no_mover hinside hmover
    have hall (s : SessionId) := hlog (s := s) (hmover ▸ nofun)
    refine ⟨h.standing.perform m, haims, ⟨hinPlace, fun s a ha => ?_⟩, hreached,
      fun t p row hspot => ?_⟩
    · exact h.tidy.pending s a (hall s ▸ ha)
    · obtain ⟨s, hdeleted⟩ := h.hidden t p row ((Storage.spot_of_storeOf (hstores t)).symm.trans hspot)
      exact ⟨s, (hall s).symm ▸ hdeleted⟩
  | some y =>
    have hturn := h.posed.storeTurn hmover
    have hothers {s : SessionId} (hs : s ≠ y) := hlog (s := s) (by
      rw [hmover]
      exact fun hsame => hs (Option.some.inj hsame).symm)
    obtain ⟨hinPlace, hpending⟩ := hturn.inPlace h.tidy.inPlace (h.tidy.pending y)
    refine ⟨h.standing.perform m, haims, ⟨hinPlace, fun s a ha => ?_⟩, hturn.reached h.reached,
      fun t p row hspot => ?_⟩
    · by_cases hs : s = y
      · exact hpending a (hs ▸ ha)
      · exact h.tidy.pending s a (hothers hs ▸ ha)
    · rcases hturn.hidden h.tidy.inPlace h.reached (h.tidy.pending y) hspot with
        hdeleted | ⟨hold, hnot⟩
      · exact ⟨y, hdeleted⟩
      · obtain ⟨s, hdeleted⟩ := h.hidden t p row hold
        have hs : s ≠ y := by
          rintro rfl
          exact hnot hdeleted
        exact ⟨s, (hothers hs).symm ▸ hdeleted⟩

theorem Tended.run (h : db.Tended) (hinside : ∀ m ∈ moves, m.isInside = true) :
    (db.run moves).Tended := by
  induction moves generalizing db with
  | nil => exact h
  | cons m rest ih =>
    have hfirst := h.perform (hinside m List.mem_cons_self)
    exact ih hfirst fun m hm => hinside m (List.mem_cons_of_mem _ hm)

/-- While no transaction is open nothing is hidden. -/
theorem Tended.visible (h : db.Tended) (hclosed : ∀ s, (db.coordinator.tx s).isOpen = false)
    (hrow : (db.coordinator.storage.storeOf t).get? p = some row) :
    p ∈ (db.coordinator.storage.storeOf t).index := by
  by_contra hout
  have hspot : db.coordinator.storage.spot t p = some (row, false) := by
    unfold Storage.spot RowStore.spot RowStore.isIndexed
    rw [hrow, decide_eq_false hout]
    rfl
  obtain ⟨s, a, ha, -⟩ := h.hidden t p row hspot
  rw [h.standing.actions_of_closed (hclosed s)] at ha
  cases ha

/-- Whatever is done to a row store, its rows and its index fit together, and a scan gives a row for
each visible position, in order. However sessions take turns on such stores, while none of them has a
transaction open the visible rows of each table are all that is allocated. -/
theorem rows_fit_and_are_reclaimed :
    (∀ (t : TableId) (steps : List StoreStep),
      let store := RowStore.after t steps
      (∀ p ∈ store.index, (store.get? p).isSome = true) ∧
      (∀ p row, store.get? p = some row → row.table = t ∧ row.position = p) ∧
      store.scan.length = store.rowCount ∧ (store.scan.map Row.position).Pairwise (· < ·)) ∧
    ∀ (settings : Settings) (journal : Journal) (db : Database) (moves : List Move),
      openWith? settings journal = .ok db → (∀ m ∈ moves, m.isInside = true) →
      (∀ s, ((db.run moves).coordinator.tx s).isOpen = false) →
      ∀ t, let store := (db.run moves).coordinator.storage.storeOf t
        (∃ steps, store = RowStore.after t steps) ∧
        (∀ p, (store.get? p).isSome = true ↔ p ∈ store.index) ∧
        store.rows.values = store.scan ∧ store.allocated = store.rowCount := by
  refine ⟨fun t steps => ?_, fun settings journal db moves hopen hinside hclosed t => ?_⟩
  · obtain ⟨hcoherent, htable⟩ := RowStore.coherent_after t steps
    have hpositions := hcoherent.positions_scan
    refine ⟨hcoherent.indexed, fun p row hrow => ?_, ?_, ?_⟩
    · obtain ⟨hnamed, hposition⟩ := hcoherent.placed p row hrow
      exact ⟨hnamed.trans htable, hposition⟩
    · rw [← List.length_map (f := Row.position), hpositions]
      rfl
    · rw [hpositions]
      exact (RowStore.after t steps).index.increasing
  · have htended := (tended_openWith hopen).run hinside
    have hcoherent := (htended.reached.coherent t).1
    obtain ⟨hscan, hcount⟩ := hcoherent.scan_eq_values fun _ _ => htended.visible hclosed
    refine ⟨htended.reached.stores t, fun p => ⟨fun hrow => ?_, hcoherent.indexed p⟩, hscan.symm,
      hcount.symm⟩
    obtain ⟨row, hrow⟩ := Option.isSome_iff_exists.mp hrow
    exact htended.visible hclosed hrow

/-- Session 1 inserts two rows, deletes the first of them again and commits. -/
def insertTwiceDelete : List Move :=
  [.createTable "t" false, .connect,
    .call 1 (.execute ⟨.write [1], fun _ => .insert 1 [] fun _ => .insert 1 [] fun _ =>
      .delete 1 1 fun _ => .done ⟨2, []⟩⟩)] ++ List.replicate 10 (.advance 1)

theorem rows_fit_and_are_reclaimed_insertTwiceDelete : ∃ db, openWith? .default .empty = .ok db ∧
    (∀ m ∈ insertTwiceDelete, m.isInside = true) ∧
    (∀ s, ((db.run insertTwiceDelete).coordinator.tx s).isOpen = false) ∧
    ((db.run insertTwiceDelete).coordinator.storage.storeOf 1).rows.values = [⟨2, 2, 1, []⟩] := by
  obtain ⟨db, hopen⟩ : ∃ db, openWith? .default .empty = .ok db := ⟨_, rfl⟩
  have hdb := openWith?_eq hopen
  have hinside : ∀ m ∈ insertTwiceDelete, m.isInside = true := by decide
  have hclosed (s : SessionId) : ((db.run insertTwiceDelete).coordinator.tx s).isOpen = false := by
    have hstanding := ((tended_openWith hopen).run hinside).standing
    cases hs : (db.run insertTwiceDelete).sessions.get? s with
    | none => exact (hstanding.gone s hs).2
    | some x =>
      have hkeys : (db.run insertTwiceDelete).sessions.keys = [1] := by
        rw [hdb]
        decide
      have hkey : s ∈ (db.run insertTwiceDelete).sessions.keys := IdMap.mem_keys.mpr (by rw [hs]; rfl)
      rw [hkeys, List.mem_singleton] at hkey
      rw [hkey, hdb]
      decide
  have hscan : ((db.run insertTwiceDelete).coordinator.storage.storeOf 1).scan = [⟨2, 2, 1, []⟩] := by
    rw [hdb]
    decide
  obtain ⟨-, hreclaimed⟩ := rows_fit_and_are_reclaimed
  obtain ⟨-, -, hvalues, -⟩ :=
    hreclaimed .default .empty db insertTwiceDelete hopen hinside hclosed 1
  exact ⟨db, hopen, hinside, hclosed, hvalues.trans hscan⟩

end Database

end LockingDb
