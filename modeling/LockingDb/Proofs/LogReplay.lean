import LockingDb.Proofs.DatabaseLedger

namespace LockingDb

open Coordinator Change

namespace IdMap

variable {α β : Type} {m : IdMap α} {f : α → β} {k : Nat} {v : α}

def map (f : α → β) (m : IdMap α) : IdMap β where
  entries := m.entries.map fun e => (e.1, f e.2)
  increasing := by
    rw [List.map_map]
    exact m.increasing

theorem get?_map : (m.map f).get? k = (m.get? k).map f := by
  obtain ⟨l, hl⟩ := m
  show find k (l.map fun e => (e.1, f e.2)) = (find k l).map f
  clear hl
  induction l with
  | nil => rfl
  | cons e rest ih =>
    simp only [List.map_cons, find]
    split
    next => rfl
    next => exact ih

theorem map_insert : (m.insert k v).map f = (m.map f).insert k (f v) := by
  refine ext fun j => ?_
  simp only [get?_map, get?_insert]
  split <;> rfl

theorem map_erase : (m.erase k).map f = (m.map f).erase k := by
  refine ext fun j => ?_
  simp only [get?_map, get?_erase]
  split <;> rfl

end IdMap

namespace LogRecord

variable {t : TableId} {m : IdMap Row} {ks : List Change} {k : Change} {s : SessionId}

/-- The rows of a table, their values by position, when an entry of the log is applied to it. -/
def redo (t : TableId) (m : IdMap (List Value)) : LogRecord → IdMap (List Value)
  | .insert _ u position values => if u = t then m.insert position values else m
  | .delete _ u position => if u = t then m.erase position else m
  | .statement _ _ | .commit _ _ | .checkpoint => m

/-- The rows of a table that a log leads to from the empty table. -/
def replay (t : TableId) (rs : List LogRecord) : IdMap (List Value) := rs.foldl (redo t) ∅

theorem redo_record : redo t (m.map Row.values) (k.record s) =
    (m.changeAll (onTable t [k])).map Row.values := by
  rw [onTable_singleton]
  by_cases ht : k.table = t
  · rw [if_pos ht]
    cases k with
    | insert row => exact (if_pos ht).trans IdMap.map_insert.symm
    | delete row => exact (if_pos ht).trans IdMap.map_erase.symm
  · rw [if_neg ht]
    cases k with
    | insert row => exact if_neg ht
    | delete row => exact if_neg ht

theorem foldl_redo_records : (ks.map (Change.record s)).foldl (redo t) (m.map Row.values) =
    (m.changeAll (onTable t ks)).map Row.values := by
  induction ks generalizing m with
  | nil => rfl
  | cons k ks ih =>
    rw [List.map_cons, List.foldl_cons, redo_record, ih, ← IdMap.changeAll_append, ← onTable_append]
    rfl

/-- A commit redoes its net changes. -/
theorem foldl_redo_block {k : Commit} : k.block.foldl (redo t) (m.map Row.values) =
    (m.changeAll (onTable t (net k.changes))).map Row.values := by
  unfold Commit.block
  split
  next hnone =>
    rw [hnone]
    rfl
  next =>
    rw [List.foldl_append, foldl_redo_records]
    rfl

theorem foldl_redo_blocks {ks : List Commit} :
    (ks.flatMap Commit.block).foldl (redo t) (m.map Row.values) =
      (m.changeAll (onTable t (ks.flatMap fun k => net k.changes))).map Row.values := by
  induction ks generalizing m with
  | nil => rfl
  | cons k ks ih =>
    rw [List.flatMap_cons, List.foldl_append, foldl_redo_block, ih, ← IdMap.changeAll_append,
      ← onTable_append, List.flatMap_cons]

/-- The blocks of the commits lead to the committed rows. -/
theorem replay_blocks {l : Ledger} :
    replay t (l.commits.flatMap Commit.block) = (l.rows t).map Row.values := by
  have hempty : (∅ : IdMap Row).map Row.values = ∅ := rfl
  unfold replay
  rw [← hempty, foldl_redo_blocks]
  rfl

end LogRecord

namespace Coordinator

variable {c : Coordinator} {l : Ledger} {t : TableId} {ss : List SessionId}

/-- Takes back what the sessions of a list have open. -/
def rollbackAll (c : Coordinator) (ss : List SessionId) : Coordinator := ss.foldl rollback c

theorem InStep.rollbackAll (h : c.InStep l) (hcoherent : c.locks.Coherent)
    (hothers : ∀ s, ¬s ∈ ss → (l.draft s).changes = []) :
    ∃ l', (c.rollbackAll ss).InStep l' ∧ l'.commits = l.commits ∧ ∀ s, (l'.draft s).changes = [] := by
  induction ss generalizing c l with
  | nil => exact ⟨l, h, rfl, fun s => hothers s List.not_mem_nil⟩
  | cons s ss ih =>
    have hspares : Spares (s + 1) c (c.rollback s) := spares_rollback (Nat.succ_ne_self s)
    refine ih (l := l.note s .empty none) (h.rollback hcoherent.toHoldersAgree)
      (hspares.coherent hcoherent) fun y hy => ?_
    rw [Ledger.draft_note]
    split
    next => rfl
    next hne =>
      refine hothers y fun hmem => ?_
      rcases List.mem_cons.mp hmem with rfl | hmem
      · exact hne rfl
      · exact hy hmem

/-- The rows that a table has when all its rows are visible, by position. -/
theorem entries_of_ofRows {storage : Storage} {m : IdMap Row} (hs : storage.Sound)
    (hcontents : storage.contents t = .ofRows m) :
    (m.map Row.values).entries = (storage.scan t).map fun row => (row.position, row.values) := by
  have hscan : (Contents.ofRows m).scan = m.values := (Contents.Evolved.start (m := m)).scan
  rw [Storage.scan_eq, hcontents, hscan]
  unfold IdMap.map IdMap.values
  rw [List.map_map]
  refine List.map_congr_left fun e he => ?_
  have hrow : storage.get? t e.1 = some e.2 := by
    rw [Storage.get?_eq, hcontents]
    exact IdMap.mem_entries.mp he
  show (e.1, e.2.values) = (e.2.position, e.2.values)
  rw [(hs.placed t e.1 e.2 hrow).2]

/-- With all open transactions rolled back, exactly the committed rows are visible. -/
theorem InStep.committed_rows (h : c.InStep l) (hcoherent : c.locks.Coherent)
    (hall : ∀ s, (c.tx s).isOpen = true → s ∈ ss) (t : TableId) :
    ((l.rows t).map Row.values).entries =
      ((c.rollbackAll ss).storage.scan t).map fun row => (row.position, row.values) := by
  have hothers (s : SessionId) (hs : ¬s ∈ ss) : (l.draft s).changes = [] :=
    h.changes_eq_nil (Bool.eq_false_iff.mpr fun hopen => hs (hall s hopen))
  obtain ⟨l', h', hcommits, hnone⟩ := h.rollbackAll hcoherent hothers
  have hrows : l'.rows t = l.rows t := by
    unfold Ledger.rows
    rw [hcommits]
  rw [← hrows]
  refine entries_of_ofRows h'.sound (h'.contents_of_nil fun y => ?_)
  rw [hnone]
  rfl

end Coordinator

def Event.isRollback : Event → Bool
  | .rolledBack _ => true
  | .access _ | .committed _ _ => false

namespace Database

variable {db db' : Database} {l l' : Ledger} {e : Option Event}

/-- No rollback leaves anything in the log. -/
def RollsBackCleanly (db : Database) : List Move → Prop
  | [] => True
  | m :: rest => (∀ e ∈ db.observe m, e.isRollback = true →
      (db.perform m).coordinator.journal.entries = db.coordinator.journal.entries) ∧
    (db.perform m).RollsBackCleanly rest

instance instDecidableRollsBackCleanly (db : Database) : (moves : List Move) →
    Decidable (db.RollsBackCleanly moves)
  | [] => inferInstanceAs (Decidable True)
  | m :: rest =>
    have := instDecidableRollsBackCleanly (db.perform m) rest
    inferInstanceAs (Decidable (_ ∧ (db.perform m).RollsBackCleanly rest))

theorem Follows.entries (hf : db.Follows l e db' l')
    (hclean : ∀ event ∈ e, event.isRollback = true →
      db'.coordinator.journal.entries = db.coordinator.journal.entries)
    (hentries : db.coordinator.journal.entries = l.commits.flatMap Commit.block) :
    db'.coordinator.journal.entries = l'.commits.flatMap Commit.block := by
  have hlogged := hf.logged
  rw [hf.commits, List.flatMap_append, ← hentries]
  have hnone : db.coordinator.journal.entries = db.coordinator.journal.entries ++ [] :=
    (List.append_nil _).symm
  cases e with
  | none => exact hlogged.trans hnone
  | some event =>
    cases event with
    | access a => exact hlogged.trans hnone
    | committed s now =>
      rw [Ledger.commitsOf, List.flatMap_singleton]
      exact hlogged
    | rolledBack s => exact (hclean _ rfl rfl).trans hnone

/-- If rollbacks leave nothing, the log consists of the blocks of the commits. -/
theorem Faithful.entries {moves : List Move} (hf : db.Faithful l) (hm : db.RunsInside moves)
    (hclean : db.RollsBackCleanly moves)
    (hentries : db.coordinator.journal.entries = l.commits.flatMap Commit.block) :
    (db.run moves).coordinator.journal.entries =
      (db.ledger l moves).commits.flatMap Commit.block := by
  induction moves generalizing db l with
  | nil => exact hentries
  | cons m rest ih =>
    obtain ⟨hinside, hnext, hrest⟩ := hm
    obtain ⟨hfirst, hclean⟩ := hclean
    have hfollows := hf.perform hinside hnext
    exact ih hfollows.faithful hrest hclean (hfollows.entries hfirst hentries)

/-- What is rolled back leaves nothing in a log that does not fail. -/
theorem Faithful.rollsBackCleanly {moves : List Move} (hf : db.Faithful l)
    (hm : db.RunsInside moves) (hobeys : ∀ n call, db.coordinator.journal.faults n call = none) :
    db.RollsBackCleanly moves := by
  induction moves generalizing db l with
  | nil => trivial
  | cons m rest ih =>
    obtain ⟨hinside, hnext, hrest⟩ := hm
    have hfollows := hf.perform hinside hnext
    refine ⟨fun event hevent hrollback => ?_, ih hfollows.faithful hrest ?_⟩
    · have hlogged := hfollows.logged
      rw [Option.mem_def.mp hevent] at hlogged
      cases event with
      | rolledBack s =>
        obtain ⟨left, -, hentries, hnone⟩ := hlogged
        rw [hentries, hnone hobeys, List.append_nil]
      | access a => cases hrollback
      | committed s now => cases hrollback
    · rw [hfollows.faults]
      exact hobeys

/-- The log of a new database that does not fail consists of the blocks of the commits: the inserts
and deletes of a transaction and its commit after them. Redoing it gives the rows that are visible
when all open transactions are rolled back. -/
theorem log_replays {settings : Settings} {moves : List Move}
    (hopen : openWith? settings .empty = .ok db) (hinside : db.RunsInside moves) :
    (db.run moves).coordinator.journal.entries =
      (db.ledger .empty moves).commits.flatMap Commit.block ∧
    (∀ ss : List SessionId, (∀ s, ((db.run moves).coordinator.tx s).isOpen = true → s ∈ ss) →
      ∀ t, (LogRecord.replay t (db.run moves).coordinator.journal.entries).entries =
        (((db.run moves).coordinator.rollbackAll ss).storage.scan t).map
          fun row => (row.position, row.values)) ∧
    ((∀ s, ((db.run moves).coordinator.tx s).isOpen = false) →
      ∀ t, (LogRecord.replay t (db.run moves).coordinator.journal.entries).entries =
        ((db.run moves).coordinator.storage.scan t).map fun row => (row.position, row.values)) := by
  have hstart := faithful_openWith hopen
  have hdb := openWith?_eq hopen
  have hjournal : db.coordinator.journal = .empty := by rw [hdb]
  have hclean : db.RollsBackCleanly moves := by
    refine hstart.rollsBackCleanly hinside fun n call => ?_
    rw [hjournal]
    rfl
  have hentries := hstart.entries hinside hclean (by rw [hjournal]; rfl)
  have hfaithful := hstart.run hinside
  have hreplay (ss : List SessionId)
      (hall : ∀ s, ((db.run moves).coordinator.tx s).isOpen = true → s ∈ ss) (t : TableId) :
      (LogRecord.replay t (db.run moves).coordinator.journal.entries).entries =
        (((db.run moves).coordinator.rollbackAll ss).storage.scan t).map
          fun row => (row.position, row.values) := by
    rw [hentries, LogRecord.replay_blocks]
    exact hfaithful.inStep.committed_rows hfaithful.coherent hall t
  refine ⟨hentries, hreplay, fun hnone => hreplay [] fun s hopen => ?_⟩
  rw [hnone] at hopen
  cases hopen

/-- Session 1 commits two rows, and session 2 has deleted one of them and inserted another. -/
def insertThenChange : List Move :=
  [.createTable "t" false, .connect, .connect,
    .call 1 (.execute ⟨.write [1], fun _ => .insert 1 [] fun _ => .insert 1 [] fun _ => .done ⟨2, []⟩⟩)] ++
  List.replicate 9 (.advance 1) ++
  [.call 2 (.execute ⟨.write [1], fun _ => .delete 1 1 fun _ => .insert 1 [] fun _ => .done ⟨2, []⟩⟩)] ++
  List.replicate 5 (.advance 2)

theorem log_replays_insertThenChange : ∃ db, openWith? .default .empty = .ok db ∧
    db.RunsInside insertThenChange ∧
    ((db.run insertThenChange).coordinator.storage.scan 1).map Row.position = [2, 3] ∧
    (∀ s, ((db.run insertThenChange).coordinator.tx s).isOpen = true → s ∈ [2]) ∧
    (((db.run insertThenChange).coordinator.rollbackAll [2]).storage.scan 1).map
      (fun row => (row.position, row.values)) = [(1, []), (2, [])] := by
  obtain ⟨db, hopen⟩ : ∃ db, openWith? .default .empty = .ok db := ⟨_, rfl⟩
  have hdb := openWith?_eq hopen
  have hinside : db.RunsInside insertThenChange := by
    rw [hdb]
    decide
  have hnext : (db.run insertThenChange).coordinator.nextSession = 3 := by
    rw [hdb]
    decide
  have hold : ∀ s < 3, ((db.run insertThenChange).coordinator.tx s).isOpen = true → s ∈ [2] := by
    rw [hdb]
    decide
  have hall (s : SessionId) (hs : ((db.run insertThenChange).coordinator.tx s).isOpen = true) :
      s ∈ [2] := by
    rcases Nat.lt_or_ge s 3 with hlt | hge
    · exact hold s hlt hs
    · have hunknown := ((faithful_openWith hopen).run hinside).unknown s (hnext ▸ hge)
      rw [hunknown.2] at hs
      cases hs
  have hscan : ((db.run insertThenChange).coordinator.storage.scan 1).map Row.position = [2, 3] := by
    rw [hdb]
    decide
  have hlog : (LogRecord.replay 1 (db.run insertThenChange).coordinator.journal.entries).entries =
      [(1, []), (2, [])] := by
    rw [hdb]
    decide
  obtain ⟨-, hreplay, -⟩ := log_replays hopen hinside
  exact ⟨db, hopen, hinside, hscan, hall, (hreplay [2] hall 1).symm.trans hlog⟩

end Database

end LockingDb
