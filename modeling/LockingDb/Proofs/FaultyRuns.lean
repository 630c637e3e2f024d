import LockingDb.Proofs.FirstWrites
import LockingDb.Proofs.SavepointStack
import LockingDb.Proofs.StoreTurns

namespace LockingDb

open Coordinator Session RowAction

/-- The actions of a log come from writes of the open transaction that the history shows. -/
def RowAction.Attested (as : List RowAction) (s : SessionId) (h : List Event) : Prop :=
  ∀ a ∈ as, ∃ (i : Nat) (kind : AccessKind), kind.isWrite = true ∧ Live h i ⟨s, a.store, kind⟩

namespace Coordinator

variable {c c' : Coordinator} {s : SessionId} {t : TableId} {e : Option Event} {events : List Event}
  {base : Storage}

/-- A turn keeps the tables in order and the log fit for them. -/
theorem StoreTurn.keeps (h : StoreTurn s c c' e) (hs : c.storage.Sturdy)
    (htracked : Tracked (c.tx s).actions c.storage) (hnext : c'.storage.nextRow ≠ 0) :
    c'.storage.Sturdy ∧ Tracked (c'.tx s).actions c'.storage := by
  cases h with
  | stays hstorage hactions hup hgoes =>
    rw [hstorage, hactions]
    exact ⟨hs, htracked⟩
  | @inserts t values row storage hopen hmode hnew hstorage hactions hup =>
    rw [hstorage, Storage.call_nextRow] at hnext
    obtain ⟨hallocates, rfl, hroom⟩ := hs.newRow_allocates hnew hnext
    rw [hstorage, hactions]
    exact ⟨(hs.allocates hallocates hroom).call hallocates.get?_self, htracked.insert hs hallocates⟩
  | @deletes t row insertedHere hopen hmode hrow hstorage hactions hup =>
    rw [hstorage, hactions]
    exact ⟨hs.call (k := .delete row) hrow, htracked.delete hrow⟩
  | @undoes e n now hstorage hactions hup hends =>
    rw [← List.take_append_drop n (c.tx s).actions] at htracked
    rw [hstorage, hactions]
    exact ⟨(hs.undoAll now _).1, (htracked.undoAll hs now).1⟩
  | @finalizes e now hstorage hactions hends =>
    rw [hstorage, hactions]
    exact ⟨(htracked.finalizeAll hs now).1, .nil⟩

/-- A turn changes only tables that the session has for itself. -/
theorem StoreTurn.storeOf (h : StoreTurn s c c' e) (hbooked : c.Booked s)
    (hmode : c.locks.mode? s t ≠ some .exclusive) : c'.storage.storeOf t = c.storage.storeOf t := by
  have hother {u : TableId} (hu : c.locks.mode? s u = some .exclusive) : t ≠ u := by
    rintro rfl
    exact hmode hu
  cases h with
  | stays hstorage hactions hup hgoes => rw [hstorage]
  | @inserts u values row storage hopen hlocked hnew hstorage hactions hup =>
    have hold : (c.storage.newRow u values).2.storeOf t = c.storage.storeOf t :=
      Storage.storeOf_newRow (hother hlocked)
    rw [hnew] at hold
    rw [hstorage]
    exact (Storage.storeOf_call (hother hlocked)).trans hold
  | deletes hopen hlocked hrow hstorage hactions hup =>
    rw [hstorage]
    exact Storage.storeOf_call (hother hlocked)
  | undoes hstorage hactions hup hends =>
    rw [hstorage]
    refine Storage.storeOf_undoAll fun a ha => hother (hbooked.written a ?_)
    exact List.mem_of_mem_drop (List.mem_reverse.mp ha)
  | finalizes hstorage hactions hends =>
    rw [hstorage]
    exact Storage.storeOf_finalizeAll fun a ha => hother (hbooked.written a ha)

/-- What a turn adds to the log it shows in the history, and what it shows the end of is gone. -/
theorem StoreTurn.attested (h : StoreTurn s c c' e)
    (hattested : Attested (c.tx s).actions s events) :
    Attested (c'.tx s).actions s (events ++ e.toList) := by
  have hkept {e : Option Event} {as : List RowAction} (has : ∀ a ∈ as, a ∈ (c.tx s).actions)
      (hgoes : ∀ event ∈ e, event.ends s = false) : Attested as s (events ++ e.toList) := by
    intro a ha
    obtain ⟨i, kind, hkind, hlive⟩ := hattested a (has a ha)
    refine ⟨i, kind, hkind, hlive.append fun event hevent => ?_⟩
    exact hgoes event (Option.mem_toList.mp hevent)
  have hadds {t : TableId} {kind : AccessKind} {as : List RowAction} (hkind : kind.isWrite = true)
      (has : ∀ a ∈ as, a.store = t) :
      Attested ((c.tx s).actions ++ as) s (events ++ [.access ⟨s, t, kind⟩]) := by
    intro a ha
    rcases List.mem_append.mp ha with hold | hnew
    · exact hkept (e := some (.access ⟨s, t, kind⟩)) (fun _ h => h) goes_access a hold
    · exact ⟨events.length, kind, hkind, has a hnew ▸ live_last⟩
  cases h with
  | stays hstorage hactions hup hgoes =>
    rw [hactions]
    exact hkept (fun _ h => h) hgoes
  | inserts hopen hmode hnew hstorage hactions hup =>
    rw [hactions]
    refine hadds rfl fun a ha => ?_
    split at ha
    next => rw [List.mem_singleton.mp ha]; rfl
    next => cases ha
  | deletes hopen hmode hrow hstorage hactions hup =>
    rw [hactions]
    refine hadds rfl fun a ha => ?_
    split at ha
    next => rw [List.mem_singleton.mp ha]; rfl
    next => cases ha
  | @undoes e n now hstorage hactions hup hends =>
    rw [hactions]
    by_cases hgoes : ∀ event ∈ e, event.ends s = false
    · exact hkept (fun _ ha => List.mem_of_mem_take ha) hgoes
    · -- The transaction ends, and nothing is left of its log.
      simp only [not_forall, Bool.not_eq_false] at hgoes
      obtain ⟨event, hevent, hend⟩ := hgoes
      rw [hends event hevent hend]
      exact nofun
  | finalizes hstorage hactions hends =>
    rw [hactions]
    exact nofun

/-- A session has a table for itself, and what its open transaction has done to the table, taken back
along the log, gives the rows that the table has in another storage. -/
structure Recalls (c : Coordinator) (s : SessionId) (t : TableId) (base : Storage) : Prop where
  isOpen : (c.tx s).isOpen = true
  mode : c.locks.mode? s t = some .exclusive
  spots : ∀ p, base.spot t p = rewind (c.tx s).actions t p (c.storage.spot t p)

/-- A turn in which no store has failed leads away from what was there by what it adds to the log, and
back by what it takes from it. -/
theorem StoreTurn.spots (h : StoreTurn s c c' e) (hs : c.storage.Sturdy)
    (hnext : c'.storage.nextRow ≠ 0) (hopen : (c.tx s).isOpen = true)
    (hgoes : ∀ event ∈ e, event.ends s = false)
    (hclean : ∀ n call, ¬c.storage.Refuses c'.storage n call) (p : RowPosition) :
    rewind (c'.tx s).actions t p (c'.storage.spot t p) =
      rewind (c.tx s).actions t p (c.storage.spot t p) := by
  cases h with
  | stays hstorage hactions hup _ => rw [hstorage, hactions]
  | @inserts u values row storage _ hmode hnew hstorage hactions hup =>
    rw [hstorage, Storage.call_nextRow] at hnext
    obtain ⟨hallocates, rfl, hroom⟩ := hs.newRow_allocates hnew hnext
    have hsturdy := hs.allocates hallocates hroom
    have hplace := hallocates.get?_self
    obtain ⟨store, hk⟩ := hsturdy.indexRow_eq hplace
    have hfree : storage.fault? storage.calls.length (row.table, .index row) = none := by
      cases hfault : storage.fault? storage.calls.length (row.table, .index row) with
      | none => rfl
      | some f =>
        have hrefuses := Storage.refuses_call (by rw [hfault]; rfl : (storage.fault?
          storage.calls.length (row.table, .index row)).isSome = true)
        have hadds : c.storage.Adds (fun _ => True) storage := by
          have hnewRow : c.storage.Adds (fun _ => True) (c.storage.newRow row.table values).2 :=
            Storage.newRow_adds
          rwa [hnew] at hnewRow
        exact absurd (hstorage ▸ hrefuses.after hadds) (hclean _ _)
    obtain ⟨hok, -⟩ := Storage.call_of_free (Storage.isSome_of_get? hplace) hfree hk
    have hmade : (storage.call row.table (.index row)).1.isOk = true := by rw [hok]; rfl
    rw [hstorage, hactions, if_pos hmade, rewind_append, rewind_singleton]
    split
    next hat =>
      obtain ⟨rfl, rfl⟩ := hat
      exact congrArg (rewind _ _ _) (hs.spot_free hallocates).symm
    next hother =>
      have hat : ¬(t = row.table ∧ p = row.position) := fun hat => hother ⟨hat.1.symm, hat.2.symm⟩
      rw [Storage.spot_call_of_ne hat, hallocates.spot_of_ne hat]
  | @deletes u row insertedHere _ hmode hrow hstorage hactions hup =>
    rw [hstorage, hactions]
    split
    next hok =>
      rw [rewind_append, rewind_singleton]
      split
      next hat =>
        obtain ⟨rfl, rfl⟩ := hat
        have hshown := Tracked.spot_of_delete hrow hok
        have htype : (RowAction.delete s (c.tx s).actionAt u row insertedHere).type.takeBack
            (some (row, false)) = some (row, true) := by cases insertedHere <;> rfl
        refine congrArg (rewind _ _ _) ?_
        show ActionType.takeBack _ ((c.storage.call u (.delete row)).2.spot u row.position) =
          c.storage.spot u row.position
        rw [Storage.spot_call, if_pos ⟨hok, rfl, rfl⟩, hshown]
        exact htype
      next hother =>
        have hat : ¬(t = u ∧ p = row.position) := fun hat => hother ⟨hat.1.symm, hat.2.symm⟩
        rw [Storage.spot_call_of_ne hat]
    next hok =>
      rw [List.append_nil, Storage.spot_call, if_neg fun hdone => hok hdone.1]
  | @undoes e n now hstorage hactions hup hends =>
    have hspared : c.storage.Spared c'.storage t p := fun m k hrefuses =>
      absurd hrefuses (hclean _ _)
    rw [hstorage] at hspared
    have hplace := (hs.undoAll now ((c.tx s).actions.drop n).reverse).2 t p hspared
    rw [List.reverse_reverse] at hplace
    rw [hstorage, hactions, hplace, ← rewind_append, List.take_append_drop]
  | finalizes hstorage hactions hends =>
    obtain ⟨event, hevent, hend⟩ := hends hopen
    rw [hgoes event hevent] at hend
    cases hend

theorem StoreTurn.upholds (h : StoreTurn s c c' e) (hopen : (c.tx s).isOpen = true)
    (hgoes : ∀ event ∈ e, event.ends s = false) : Upholds s c c' := by
  cases h with
  | stays hstorage hactions hup _ => exact hup
  | inserts _ hmode hnew hstorage hactions hup => exact hup
  | deletes _ hmode hrow hstorage hactions hup => exact hup
  | undoes hstorage hactions hup hends => exact hup hopen hgoes
  | finalizes hstorage hactions hends =>
    obtain ⟨event, hevent, hend⟩ := hends hopen
    rw [hgoes event hevent] at hend
    cases hend

end Coordinator

namespace Database

variable {db : Database} {s y : SessionId} {t : TableId} {m : Move} {x z : Session}
  {moves before during rest : List Move} {write : Move} {base : Storage} {events : List Event}

/-- From outside nothing is done to the tables but that other calls are going to fail. -/
def Refaults (db : Database) : Move → Prop
  | .outside storage _ => db.coordinator.storage.Refaulted storage
  | _ => True

/-- A run that sets which calls on the tables and on the log fail, and in which row numbers do not
start over. -/
def RunsWithFaults (db : Database) : List Move → Prop
  | [] => True
  | m :: rest => db.Refaults m ∧ (db.perform m).coordinator.storage.nextRow ≠ 0 ∧
      (db.perform m).RunsWithFaults rest

theorem runsWithFaults_append : db.RunsWithFaults (before ++ rest) ↔
    db.RunsWithFaults before ∧ (db.run before).RunsWithFaults rest := by
  induction before generalizing db with
  | nil => exact ⟨fun h => ⟨trivial, h⟩, And.right⟩
  | cons m before ih =>
    show _ ∧ _ ∧ (db.perform m).RunsWithFaults (before ++ rest) ↔
      (_ ∧ _ ∧ (db.perform m).RunsWithFaults before) ∧ _
    rw [ih, and_assoc, and_assoc]
    rfl

theorem refaults_of_inside (hinside : m.isInside = true) : db.Refaults m := by
  cases m with
  | outside storage journal => cases hinside
  | _ => trivial

theorem RunsInside.runsWithFaults (h : db.RunsInside moves) : db.RunsWithFaults moves := by
  induction moves generalizing db with
  | nil => trivial
  | cons m rest ih =>
    obtain ⟨hinside, hnext, hrest⟩ := h
    exact ⟨refaults_of_inside hinside, hnext, ih hrest⟩

/-- What holds whichever calls fail: the tables are in order, the logs fit them, and the rows that a
session still has to delete are there. -/
structure Kept (db : Database) : Prop where
  standing : db.Standing
  sturdy : db.coordinator.storage.Sturdy
  tracked : ∀ s, Tracked (db.coordinator.tx s).actions db.coordinator.storage
  aims : ∀ s x, db.sessions.get? s = some x → x.Aims db.coordinator.storage

theorem kept_openWith {settings : Settings} {journal : Journal}
    (hopen : openWith? settings journal = .ok db) : db.Kept := by
  have hdb := openWith?_eq hopen
  subst hdb
  refine ⟨standing_fresh settings journal, Storage.sturdy_empty, fun s => .nil, fun s x hx => ?_⟩
  rw [show (∅ : IdMap Session).get? s = none from IdMap.get?_empty] at hx
  cases hx

/-- What the turns of sessions rest on: rows are found where they say, tables have been created in
order, and the rows that a session still has to delete are there. -/
structure Posed (db : Database) : Prop where
  standing : db.Standing
  found : db.coordinator.storage.Found
  created : db.coordinator.storage.Created
  aims : ∀ s x, db.sessions.get? s = some x → x.Aims db.coordinator.storage

theorem Kept.posed (h : db.Kept) : db.Posed :=
  ⟨h.standing, h.sturdy.found, h.sturdy.created, h.aims⟩

theorem Posed.storeTurn (h : db.Posed) (hm : m.mover? = some s) :
    StoreTurn s db.coordinator (db.perform m).coordinator (db.observe m) := by
  have hdoes := does_of_mover db hm
  generalize db.observe m = e, (db.perform m).coordinator = c' at hdoes
  cases hdoes with
  | nothing => exact storeTurn_refl nofun
  | step hx => exact (h.standing.placed s _ hx).stands.storeTurn_step h.found (h.aims s _ hx)
  | call hx hidle hk => exact call_storeTurn _

/-- Moves of no session leave the rows of all tables as they are. -/
theorem Posed.of_no_mover (h : db.Posed) (hm : m.mover? = none) (hallowed : db.Refaults m) :
    (db.perform m).coordinator.storage.Created ∧
      (∀ t, (db.perform m).coordinator.storage.storeOf t = db.coordinator.storage.storeOf t) ∧
      (db.perform m).coordinator.storage.nextRow = db.coordinator.storage.nextRow := by
  cases m with
  | createTable name watched => exact h.created.createTable name watched
  | outside storage journal =>
    exact ⟨hallowed.created h.created, hallowed.storeOf, hallowed.nextRow⟩
  | expire y =>
    have hsame : (db.perform (.expire y)).coordinator.storage = db.coordinator.storage :=
      congrArg Coordinator.storage coordinator_expire
    rw [hsame]
    exact ⟨h.created, fun _ => rfl, rfl⟩
  | checkpoint => exact ⟨h.created, fun _ => rfl, rfl⟩
  | connect => exact ⟨h.created, fun _ => rfl, rfl⟩
  | raiseAbort y => exact ⟨h.created, fun _ => rfl, rfl⟩
  | _ => cases hm

/-- A table that a session has for itself stays as it is while others move. -/
theorem Posed.storeOf_other (h : db.Posed) (hm : m.mover? ≠ some s) (hallowed : db.Refaults m)
    (hmode : db.coordinator.locks.mode? s t = some .exclusive) :
    (db.perform m).coordinator.storage.storeOf t = db.coordinator.storage.storeOf t := by
  cases hmover : m.mover? with
  | none => exact (h.of_no_mover hmover hallowed).2.1 t
  | some y =>
    have hy : y ≠ s := by
      rintro rfl
      exact hm hmover
    refine (h.storeTurn hmover).storeOf (h.standing.booked y) ?_
    rw [h.standing.settled.toHoldersAgree.writer_alone t s y hmode hy]
    exact nofun

theorem Kept.tracked_other (h : db.Kept) (hm : m.mover? ≠ some s) (hallowed : db.Refaults m) :
    Tracked ((db.perform m).coordinator.tx s).actions (db.perform m).coordinator.storage := by
  rw [h.standing.actions_of_other hm]
  exact (h.tracked s).of_spot fun a ha => Storage.spot_of_storeOf
    (h.posed.storeOf_other hm hallowed ((h.standing.booked s).written a ha))

/-- The rows that a session has still to delete stay while others move. -/
theorem Posed.aims_aside (h : db.Posed) (hx : db.sessions.get? s = some x) (hin : x.phase = .inside)
    (hm : m ≠ .advance s) (hallowed : db.Refaults m) :
    x.Aims (db.perform m).coordinator.storage := by
  have haims := h.aims s x hx
  have hstands := (h.standing.placed s x hx).stands
  obtain ⟨hbusy, -, -⟩ := hstands.of_inside hin
  by_cases hown : m.mover? = some s
  · have hsame : (db.perform m).coordinator = db.coordinator := by
      cases m with
      | advance y =>
        cases hown
        exact absurd rfl hm
      | call y k =>
        cases hown
        exact (call_of_busy (l := .empty) hx hbusy).1
      | drop y =>
        cases hown
        exact drop_of_busy hx hbusy
      | _ => cases hown
    rw [hsame]
    exact haims
  · unfold Session.Aims at haims ⊢
    unfold Session.Stands at hstands
    cases hactivity : x.activity with
    | deleting t rows count next =>
      simp only [hactivity] at haims hstands
      obtain ⟨hruns, ht⟩ := hstands
      intro row hrow
      rw [Storage.get?_of_storeOf (h.storeOf_other hown hallowed (hruns.written ht))]
      exact haims row hrow
    | _ => trivial

theorem Posed.aims_perform (h : db.Posed) (hallowed : db.Refaults m)
    (hz : (db.perform m).sessions.get? s = some z) : z.Aims (db.perform m).coordinator.storage := by
  by_cases hin : z.phase = .inside
  · rcases h.standing.becomes hz with ⟨x, hx, hbecomes⟩ | ⟨-, rfl⟩
    · by_cases hm : m = .advance s
      · subst hm
        rw [get?_advance hx] at hz
        cases hz
        rw [perform_advance hx]
        exact (h.aims s x hx).step h.found
      · cases hbecomes with
        | same => exact h.aims_aside hx hin hm hallowed
        | expired => cases hin
        | stepped heq => exact absurd heq hm
        | called hk hidle => exact absurd hin phase_call
    · cases hin
  · exact aims_of_phase hin

/-- Every move keeps the tables in order and the logs fit for them. -/
theorem Kept.perform (h : db.Kept) (hallowed : db.Refaults m)
    (hnext : (db.perform m).coordinator.storage.nextRow ≠ 0) : (db.perform m).Kept := by
  have hmoved : (db.perform m).coordinator.storage.Sturdy ∧ ∀ s, m.mover? = some s →
      Tracked ((db.perform m).coordinator.tx s).actions (db.perform m).coordinator.storage := by
    cases hmover : m.mover? with
    | none =>
      obtain ⟨hcreated, hstores, hrow⟩ := h.posed.of_no_mover hmover hallowed
      exact ⟨h.sturdy.of_same hstores hrow hcreated, nofun⟩
    | some y =>
      obtain ⟨hsturdy, htracked⟩ := (h.posed.storeTurn hmover).keeps h.sturdy (h.tracked y) hnext
      refine ⟨hsturdy, fun s hs => ?_⟩
      cases hs
      exact htracked
  refine ⟨h.standing.perform m, hmoved.1, fun s => ?_, fun s z hz => h.posed.aims_perform hallowed hz⟩
  by_cases hown : m.mover? = some s
  · exact hmoved.2 s hown
  · exact h.tracked_other hown hallowed

theorem Kept.run (h : db.Kept) (hm : db.RunsWithFaults moves) : (db.run moves).Kept := by
  induction moves generalizing db with
  | nil => exact h
  | cons m rest ih =>
    obtain ⟨hallowed, hnext, hrest⟩ := hm
    exact ih (h.perform hallowed hnext) hrest

/-- The log of an open transaction comes from the writes of the run. -/
theorem Kept.attested_perform (h : db.Kept)
    (ha : Attested (db.coordinator.tx s).actions s events) :
    Attested ((db.perform m).coordinator.tx s).actions s (events ++ (db.observe m).toList) := by
  by_cases hown : m.mover? = some s
  · exact (h.posed.storeTurn hown).attested ha
  · rw [h.standing.actions_of_other hown]
    intro a hmem
    obtain ⟨i, kind, hkind, hlive⟩ := ha a hmem
    refine ⟨i, kind, hkind, hlive.append fun event hevent => Bool.eq_false_iff.mpr fun hends => ?_⟩
    exact hown (observe_ends (Option.mem_toList.mp hevent) hends)

theorem Kept.attested_run (h : db.Kept) (hm : db.RunsWithFaults moves)
    (ha : Attested (db.coordinator.tx s).actions s events) :
    Attested ((db.run moves).coordinator.tx s).actions s (events ++ db.history moves) := by
  induction moves generalizing db events with
  | nil =>
    rw [Database.history, List.append_nil]
    exact ha
  | cons m rest ih =>
    obtain ⟨hallowed, hnext, hrest⟩ := hm
    have hafter := ih (h.perform hallowed hnext) hrest (h.attested_perform (m := m) ha)
    rw [List.append_assoc] at hafter
    exact hafter

theorem Kept.attested (h : db.Kept) (hnone : (db.coordinator.tx s).actions = [])
    (hm : db.RunsWithFaults moves) :
    Attested ((db.run moves).coordinator.tx s).actions s (db.history moves) := by
  have hstart : Attested (db.coordinator.tx s).actions s [] := by
    rw [hnone]
    exact nofun
  exact h.attested_run hm hstart

/-- With the move a store fails in a call of the session. -/
def FailsStore (db : Database) (s : SessionId) (m : Move) : Prop :=
  m.mover? = some s ∧
    ∃ n call, db.coordinator.storage.Refuses (db.perform m).coordinator.storage n call

/-- In the transaction that the session has open after a run no store has failed. -/
def CleanSince (db : Database) (s : SessionId) (moves : List Move) : Prop :=
  ∀ first m last, moves = first ++ m :: last → (db.run first).FailsStore s m →
    ∃ event ∈ (db.run first).history (m :: last), event.ends s = true

/-- Only in an open transaction is a table worked on. -/
theorem Standing.isOpen_of_access (h : db.Standing) {a : Access}
    (ha : db.observe m = some (.access a)) : (db.coordinator.tx a.session).isOpen = true := by
  cases m with
  | advance y =>
    obtain ⟨x, hx, he⟩ := Option.bind_eq_some_iff.mp ha
    obtain ⟨rfl, -⟩ := (h.ready hx).observe_guarded he
    exact ((h.placed _ x hx).stands.of_inside (phase_of_access he)).2.2
  | call y k => exact absurd ha callEvent?_ne_access
  | drop y => exact absurd ha callEvent?_ne_access
  | _ => cases ha

theorem endsTx_of_other (hm : m.mover? ≠ some s) : db.endsTx s m = false := by
  have hother {y : SessionId} {b : Bool} (hy : some y ≠ some s) : (y == s && b) = false := by
    have hne : y ≠ s := fun hsame => hy (congrArg some hsame)
    simp [hne]
  cases m with
  | advance y => exact hother hm
  | call y k => exact hother hm
  | drop y => exact hother hm
  | _ => rfl

/-- As long as a transaction goes on and no store fails in it, what it has done to a table can be
taken back. -/
theorem Kept.recalls_perform (h : db.Kept) (hr : db.coordinator.Recalls s t base)
    (hallowed : db.Refaults m) (hnext : (db.perform m).coordinator.storage.nextRow ≠ 0)
    (hgoes : ∀ event ∈ db.observe m, event.ends s = false) (hclean : ¬db.FailsStore s m) :
    (db.perform m).coordinator.Recalls s t base := by
  by_cases hown : m.mover? = some s
  · have hturn := h.posed.storeTurn hown
    have hup := hturn.upholds hr.isOpen hgoes
    refine ⟨hup.isOpen hr.isOpen, hup.written t hr.mode, fun p => (hr.spots p).trans ?_⟩
    refine (hturn.spots h.sturdy hnext hr.isOpen hgoes (fun n call hrefuses => ?_) p).symm
    exact hclean ⟨hown, n, call, hrefuses⟩
  · have hholds := h.standing.holds (endsTx_of_other (s := s) hown)
    have hsame := h.posed.storeOf_other hown hallowed hr.mode
    rcases h.standing.tx_of_other hown with ⟨signals, htx⟩ | ⟨rfl, level, htx⟩
    · refine ⟨?_, hholds.written t hr.mode, fun p => ?_⟩
      · rw [htx]
        exact hr.isOpen
      · rw [htx, Storage.spot_of_storeOf hsame]
        exact hr.spots p
    · -- A session that connects has no transaction open.
      obtain ⟨-, hclosed⟩ := h.standing.gone _ h.standing.nobody
      have hopen := hr.isOpen
      rw [hclosed] at hopen
      cases hopen

theorem Kept.recalls_run (h : db.Kept) (hr : db.coordinator.Recalls s t base)
    (hm : db.RunsWithFaults moves) (hgoes : ∀ event ∈ db.history moves, event.ends s = false)
    (hclean : db.CleanSince s moves) : (db.run moves).coordinator.Recalls s t base := by
  induction moves generalizing db with
  | nil => exact hr
  | cons m rest ih =>
    obtain ⟨hallowed, hnext, hrest⟩ := hm
    have hfirst : ∀ event ∈ db.observe m, event.ends s = false := fun event hevent =>
      hgoes event (List.mem_append_left _ (Option.mem_toList.mpr hevent))
    have hnone : ¬db.FailsStore s m := by
      intro hfails
      obtain ⟨event, hevent, hends⟩ := hclean [] m rest rfl hfails
      rw [hgoes event hevent] at hends
      cases hends
    refine ih (h.perform hallowed hnext) (h.recalls_perform hr hallowed hnext hfirst hnone) hrest
      (fun event hevent => hgoes event (List.mem_append_right _ hevent)) ?_
    rintro first move last rfl hfails
    exact hclean (m :: first) move last rfl hfails

theorem cleanSince_nil : db.CleanSince s [] := by
  intro first m last hmoves
  cases first <;> cases hmoves

/-- A move by which no store fails keeps a transaction clean. -/
theorem CleanSince.concat (h : db.CleanSince s moves) (hm : ¬(db.run moves).FailsStore s m) :
    db.CleanSince s (moves ++ [m]) := by
  intro first failing last hmoves hfails
  induction last using List.reverseRecOn with
  | nil =>
    obtain ⟨rfl, hlast⟩ := List.append_inj' hmoves rfl
    cases hlast
    exact absurd hfails hm
  | append_singleton last other _ =>
    have hsplit : moves ++ [m] = (first ++ failing :: last) ++ [other] := by
      rw [hmoves, List.append_assoc]
      rfl
    obtain ⟨rfl, -⟩ := List.append_inj' hsplit rfl
    obtain ⟨event, hevent, hends⟩ := h first failing last rfl hfails
    refine ⟨event, ?_, hends⟩
    rw [← List.cons_append, history_append]
    exact List.mem_append_left _ hevent

/-- Without faults no store fails. -/
theorem Faithful.cleanSince {l : Ledger} (hf : db.Faithful l) (hm : db.RunsInside moves) :
    db.CleanSince s moves := by
  induction moves using List.reverseRecOn with
  | nil => exact cleanSince_nil
  | append_singleton moves m ih =>
    obtain ⟨hbefore, -⟩ := runsInside_append.mp hm
    refine (ih hbefore).concat ?_
    rintro ⟨-, n, call, hrefuses⟩
    obtain ⟨f, hfault⟩ := Option.isSome_iff_exists.mp hrefuses.fault
    obtain ⟨faults, hfaults, hfails⟩ := Option.bind_eq_some_iff.mp hfault
    obtain ⟨table, htable, rfl⟩ := Option.map_eq_some_iff.mp hfaults
    rw [(hf.run hbefore).inStep.sound.obeys _ table htable] at hfails
    cases hfails

theorem CleanSince.last (h : db.CleanSince s (before ++ rest)) : (db.run before).CleanSince s rest := by
  rintro first m last rfl hfails
  have hrun : db.run (before ++ first) = (db.run before).run first := run_append
  have hlate := h (before ++ first) m last (List.append_assoc ..).symm
  rw [hrun] at hlate
  exact hlate hfails

/-- From the first write of an open transaction to a table on, if no store fails in the transaction,
the table can be led back to the rows that it had before. -/
theorem FirstWrite.recalls (hw : db.FirstWrite s t before write during) (h : db.Kept)
    (hm : db.RunsWithFaults (before ++ write :: during))
    (hnone : (db.coordinator.tx s).actions = [])
    (hclean : db.CleanSince s (before ++ write :: during)) :
    (db.run (before ++ write :: during)).coordinator.Recalls s t
      (db.run before).coordinator.storage := by
  obtain ⟨hbefore, hafter⟩ := runsWithFaults_append.mp hm
  obtain ⟨kind, hkind, hwrite⟩ := hw.writes
  have hkept := h.run hbefore
  have hattested : Attested ((db.run before).coordinator.tx s).actions s (db.history before) :=
    h.attested hnone hbefore
  -- Before its first write the transaction has done nothing to the table.
  have hstart : (db.run before).coordinator.Recalls s t (db.run before).coordinator.storage := by
    obtain ⟨hmover, -, hmode, -⟩ := hkept.standing.observe_guarded hwrite
    refine ⟨?_, hmode hkind, fun p => (rewind_of_none fun a ha hat => ?_).symm⟩
    · exact hkept.standing.isOpen_of_access hwrite
    · obtain ⟨i, earlier, hearlier, hlive⟩ := hattested a ha
      rw [hat.1] at hlive
      rw [hw.first i earlier hlive] at hearlier
      cases hearlier
  have hgoes : ∀ event ∈ (db.run before).history (write :: during), event.ends s = false := by
    have hmiddle : db.run (before ++ [write]) = (db.run before).perform write := run_append
    have hduring := hw.goesOn
    rw [hmiddle] at hduring
    intro event hevent
    rw [Database.history, hwrite] at hevent
    rcases List.mem_cons.mp hevent with rfl | hlate
    · rfl
    · exact hduring event hlate
  have hrun : db.run (before ++ write :: during) = (db.run before).run (write :: during) := run_append
  rw [hrun]
  exact hkept.recalls_run hstart hafter hgoes hclean.last

end Database

end LockingDb
