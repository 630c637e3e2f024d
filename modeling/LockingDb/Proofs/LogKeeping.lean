import LockingDb.Proofs.LogTurns
import Mathlib.Data.List.Nodup

namespace LockingDb

open Coordinator Session

namespace Coordinator

variable {c c' : Coordinator} {s y : SessionId} {e : Option Event} {l : Ledger} {name : String}

/-- A session owns the rows of all actions in its log. -/
def Claims (c : Coordinator) (s : SessionId) : Prop :=
  ∀ a ∈ (c.tx s).actions, c.owners.owner? a.row = some s

theorem Claims.of_same (h : c.Claims s) (hactions : (c'.tx s).actions = (c.tx s).actions)
    (howners : c'.owners = c.owners) : c'.Claims s := by
  intro a ha
  rw [hactions] at ha
  rw [howners]
  exact h a ha

theorem Turn.claims (h : Turn s c c' e) (hs : c.Claims s) : c'.Claims s := by
  cases h with
  | stays hwork howners hgoes => exact hs.of_same (actions_of_work hwork) howners
  | @adds a kind hkind hactions hsavepoints hfree howners =>
    intro b hb
    rw [hactions] at hb
    rw [howners, RowOwnership.owner?_claim]
    split
    next => rfl
    next hne =>
      rcases List.mem_append.mp hb with hold | hnew
      · exact hs b hold
      · rw [List.mem_singleton.mp hnew] at hne
        exact absurd rfl hne
  | cuts hactions hsavepoints hfits hfrees hends =>
    obtain ⟨rows, howners, hrows⟩ := hfrees
    intro b hb
    rw [hactions] at hb
    rw [howners, RowOwnership.owner?_release, if_neg fun hrow => (hrows b.row hrow).2 b hb rfl]
    exact hs b (List.mem_of_mem_take hb)

/-- A session neither takes rows from another one nor gives them back for it. -/
theorem Turn.claims_of_ne (h : Turn s c c' e) (hs : c.Claims s) (hy : y ≠ s)
    (hlog : (c'.tx y).actions = (c.tx y).actions) (hother : c.Claims y) : c'.Claims y := by
  intro b hb
  rw [hlog] at hb
  have howned := hother b hb
  cases h with
  | stays hwork howners hgoes => rw [howners, howned]
  | @adds a kind hkind hactions hsavepoints hfree howners =>
    rw [howners, RowOwnership.owner?_claim]
    split
    next hrow =>
      rw [hrow] at howned
      exact absurd (hfree y howned) hy
    next => exact howned
  | cuts hactions hsavepoints hfits hfrees hends =>
    obtain ⟨rows, howners, hrows⟩ := hfrees
    rw [howners, RowOwnership.owner?_release]
    split
    next hrow =>
      obtain ⟨a, ha, hsame⟩ := (hrows b.row hrow).1
      have hours := hs a (List.mem_of_mem_drop ha)
      rw [hsame, howned] at hours
      exact absurd (Option.some.inj hours) hy
    next => exact howned

/-- No two savepoints of a session have the same name. -/
def NamesApart (c : Coordinator) (s : SessionId) : Prop :=
  ((c.tx s).savepoints.map Savepoint.name).Nodup

theorem NamesApart.of_sublist (h : c.NamesApart s)
    (hsub : (c'.tx s).savepoints.Sublist (c.tx s).savepoints) : c'.NamesApart s :=
  h.sublist (hsub.map _)

theorem Turn.namesApart (h : Turn s c c' e) (hs : c.NamesApart s) : c'.NamesApart s := by
  refine hs.of_sublist ?_
  cases h with
  | stays hwork howners hgoes => rw [savepoints_of_work hwork]
  | adds hkind hactions hsavepoints hfree howners => rw [hsavepoints]
  | cuts hactions hsavepoints hfits hfrees hends =>
    rw [hsavepoints]
    exact List.take_sublist _ _

/-- A savepoint takes the place of an older one of its name. -/
theorem Marks.namesApart (h : Marks s name c c') (hs : c.NamesApart s) : c'.NamesApart s := by
  have hset (kept : List Savepoint) (hsub : kept.Sublist (c.tx s).savepoints)
      (hnone : ∀ p ∈ kept, p.name ≠ name) :
      ((kept ++ [(⟨name, (c.tx s).actions.length, (c.tx s).actionAt⟩ : Savepoint)]).map
        Savepoint.name).Nodup := by
    rw [List.map_append, List.map_singleton, List.nodup_append]
    refine ⟨hs.sublist (hsub.map _), List.nodup_singleton name, fun n hn o ho => ?_⟩
    obtain ⟨p, hp, rfl⟩ := List.mem_map.mp hn
    rw [List.mem_singleton.mp ho]
    exact hnone p hp
  unfold NamesApart
  rw [h.savepoints, SessionTx.setSavepoint]
  cases hfound : (c.tx s).savepointIndex? name with
  | none =>
    refine hset _ (List.Sublist.refl _) fun p hp hname => ?_
    have hmiss := List.findIdx?_eq_none_iff.mp hfound p hp
    simp [hname] at hmiss
  | some i =>
    refine hset _ (List.eraseIdx_sublist _ _) fun p hp hname => ?_
    obtain ⟨hi, hold, -⟩ := List.findIdx?_eq_some_iff_getElem.mp hfound
    obtain ⟨j, hj, hne, rfl⟩ := List.mem_eraseIdx_iff_getElem.mp hp
    have hnames := @List.Nodup.getElem_inj_iff _ _ hs j (by simpa using hj) i (by simpa using hi)
    rw [List.getElem_map, List.getElem_map] at hnames
    exact hne (hnames.mp (hname.trans (of_decide_eq_true hold).symm))

/-- The row that is allocated next has no owner. -/
theorem InStep.unowned (h : c.InStep l) (hagree : c.locks.HoldersAgree)
    (hbooked : ∀ y, c.Booked y) : c.owners.owner? c.storage.nextRow = none := by
  refine Option.eq_none_iff_forall_not_mem.mpr fun y hy => ?_
  obtain ⟨a, ha, hrow⟩ := (hbooked y).owned _ hy
  obtain ⟨k, hk, hnotes⟩ := exists_change_of_mem (h.carries y).logged.notes ha
  have hold := (h.sound.allocated _ _ _ (h.of_mem hagree hk).1).2
  rw [← hnotes.row, hrow] at hold
  exact Nat.lt_irrefl _ hold

end Coordinator

namespace Database

variable {db : Database} {l : Ledger} {s y : SessionId} {m : Move} {moves : List Move}

/-- Ledger and books of a database are right, the sessions own the rows of their logs, and their
savepoints have different names. -/
structure WellKept (db : Database) (l : Ledger) : Prop where
  faithful : db.Faithful l
  standing : db.Standing
  claims : ∀ s, db.coordinator.Claims s
  namesApart : ∀ s, db.coordinator.NamesApart s

/-- The rows that a session owns are those of its log. -/
theorem WellKept.owner?_eq_some (h : db.WellKept l) {row : RowId} :
    db.coordinator.owners.owner? row = some s ↔
      ∃ a ∈ (db.coordinator.tx s).actions, a.row = row := by
  refine ⟨(h.standing.booked s).owned row, ?_⟩
  rintro ⟨a, ha, rfl⟩
  exact h.claims s a ha

/-- What a move adds to the log of a session, if it cuts nothing off. -/
def grown (db : Database) (s : SessionId) (m : Move) : List RowAction :=
  ((db.perform m).coordinator.tx s).actions.drop (db.coordinator.tx s).actions.length

/-- What the moves of a run add to the log of a session, one after the other. -/
def recorded (db : Database) (s : SessionId) : List Move → List RowAction
  | [] => []
  | m :: rest => db.grown s m ++ (db.perform m).recorded s rest

theorem recorded_append {rest : List Move} :
    db.recorded s (moves ++ rest) = db.recorded s moves ++ (db.run moves).recorded s rest := by
  induction moves generalizing db with
  | nil => rfl
  | cons m moves ih =>
    have hrun : db.run (m :: moves) = (db.perform m).run moves := rfl
    rw [List.cons_append, recorded, recorded, ih, hrun, List.append_assoc]

theorem recorded_concat : db.recorded s (moves ++ [m]) =
    db.recorded s moves ++ (db.run moves).grown s m := by
  rw [recorded_append, recorded, recorded, List.append_nil]

theorem actions_append_grown (h : (db.coordinator.tx s).actions <+:
    ((db.perform m).coordinator.tx s).actions) : (db.coordinator.tx s).actions ++ db.grown s m =
      ((db.perform m).coordinator.tx s).actions := by
  obtain ⟨more, hmore⟩ := h
  rw [grown, ← hmore, List.drop_left]

theorem WellKept.turn (h : db.WellKept l) (hm : m.mover? = some s) :
    Turn s db.coordinator (db.perform m).coordinator (db.observe m) ∨ ∃ name,
      db.sets s name m = true ∧ Marks s name db.coordinator (db.perform m).coordinator :=
  h.faithful.turn (h.faithful.inStep.unowned h.standing.settled.toHoldersAgree h.standing.booked) hm

theorem WellKept.claims_perform (h : db.WellKept l) (m : Move) (y : SessionId) :
    (db.perform m).coordinator.Claims y := by
  by_cases hown : m.mover? = some y
  · rcases h.turn hown with hturn | ⟨name, -, hmarks⟩
    · exact hturn.claims (h.claims y)
    · exact (h.claims y).of_same hmarks.actions hmarks.owners
  · have hlog := h.standing.actions_of_other hown
    cases hm : m.mover? with
    | none => exact (h.claims y).of_same hlog (owners_of_no_mover hm)
    | some s =>
      have hy : y ≠ s := by
        rintro rfl
        exact hown hm
      rcases h.turn hm with hturn | ⟨name, -, hmarks⟩
      · exact hturn.claims_of_ne (h.claims s) hy hlog (h.claims y)
      · exact (h.claims y).of_same hlog hmarks.owners

theorem WellKept.namesApart_perform (h : db.WellKept l) (m : Move) (y : SessionId) :
    (db.perform m).coordinator.NamesApart y := by
  by_cases hown : m.mover? = some y
  · rcases h.turn hown with hturn | ⟨name, -, hmarks⟩
    · exact hturn.namesApart (h.namesApart y)
    · exact hmarks.namesApart (h.namesApart y)
  · refine (h.namesApart y).of_sublist ?_
    rcases h.standing.tx_of_other hown with ⟨signals, htx⟩ | ⟨-, level, htx⟩
    · rw [htx]
    · rw [htx]
      exact List.nil_sublist _

theorem WellKept.perform (h : db.WellKept l) (hinside : m.isInside = true)
    (hnext : (db.perform m).coordinator.storage.nextRow ≠ 0) :
    (db.perform m).WellKept (db.record l m) :=
  ⟨(h.faithful.perform hinside hnext).faithful, h.standing.perform m, h.claims_perform m,
    h.namesApart_perform m⟩

theorem WellKept.run (h : db.WellKept l) (hmoves : db.RunsInside moves) :
    (db.run moves).WellKept (db.ledger l moves) := by
  induction moves generalizing db l with
  | nil => exact h
  | cons m rest ih =>
    obtain ⟨hinside, hnext, hrest⟩ := hmoves
    exact ih (h.perform hinside hnext) hrest

theorem wellKept_openWith {settings : Settings} {journal : Journal}
    (hopen : openWith? settings journal = .ok db) : db.WellKept .empty := by
  refine ⟨faithful_openWith hopen, ?_, fun s => ?_, fun s => ?_⟩
  all_goals rw [openWith?_eq hopen]
  · exact standing_fresh settings journal
  · exact nofun
  · exact List.nodup_nil

end Database

end LockingDb
