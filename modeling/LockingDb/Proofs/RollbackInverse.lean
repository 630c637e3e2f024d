import LockingDb.Proofs.DatabaseLedger

namespace LockingDb

open Coordinator Session Change

/-- The changes of open transactions come from accesses that the history shows. -/
def Ledger.Witnessed (l : Ledger) (h : List Event) : Prop :=
  ∀ y, ∀ k ∈ (l.draft y).changes, ∃ (i : Nat) (kind : AccessKind), kind.isWrite = true ∧
    Live h i ⟨y, k.table, kind⟩

namespace Coordinator

variable {c : Coordinator} {s : SessionId} {a : Access}

theorem rollbackEvent?_ne_access : c.rollbackEvent? s ≠ some (.access a) := by
  unfold rollbackEvent?
  split <;> nofun

theorem commitEvent?_ne_access : c.commitEvent? s ≠ some (.access a) := by
  have hcommits := c.commit_commits s
  generalize c.commitEvent? s = e, (c.commit s).2 = c' at hcommits
  cases hcommits with
  | refused habort => nofun
  | failed habort hlog => exact rollbackEvent?_ne_access
  | done habort hlog => split <;> nofun

end Coordinator

namespace Session

variable {s y : SessionId} {c : Coordinator} {x : Session} {d : Draft} {t : TableId}
  {kind : AccessKind}

theorem access?_of_write {body : StatementBody} (ha : x.access? s c body = some ⟨y, t, kind⟩)
    (hkind : kind.isWrite = true) : y = s ∧ t ∈ x.statement.request.writes := by
  have hwrite {p : Prop} [Decidable p] {u : TableId} {a : AccessKind}
      (ha : (if p then some (⟨s, u, a⟩ : Access) else none) = some ⟨y, t, kind⟩) :
      p ∧ y = s ∧ u = t ∧ a = kind := by
    split at ha
    next hp =>
      cases ha
      exact ⟨hp, rfl, rfl, rfl⟩
    next => cases ha
  cases body with
  | insert u values next =>
    obtain ⟨hwritable, rfl, rfl, -⟩ := hwrite ha
    exact ⟨rfl, mem_writes_of_writable hwritable⟩
  | delete u position next =>
    obtain ⟨hwritable, rfl, rfl, -⟩ := hwrite ha
    exact ⟨rfl, mem_writes_of_writable hwritable⟩
  | scan u next =>
    obtain ⟨-, -, -, rfl⟩ := hwrite ha
    cases hkind
  | deleteWhere u test next =>
    obtain ⟨-, -, -, rfl⟩ := hwrite ha
    cases hkind
  | _ => cases ha

/-- Who changes a table has a transaction open, and the table for itself. -/
theorem Engaged.of_write (hx : x.Engaged s c d) (he : x.observe s c = some (.access ⟨y, t, kind⟩))
    (hkind : kind.isWrite = true) :
    y = s ∧ (c.tx s).isOpen = true ∧ c.locks.mode? s t = some .exclusive := by
  have hatWork := hx.atWork
  unfold AtWork at hatWork
  unfold observe at he
  split at he
  next body hactivity =>
    simp only [hactivity] at hatWork
    obtain ⟨a, haccess, heq⟩ := Option.map_eq_some_iff.mp he
    cases heq
    obtain ⟨rfl, ht⟩ := access?_of_write haccess hkind
    exact ⟨rfl, hatWork.isOpen, hatWork.written ht⟩
  next u row rows count next hactivity =>
    simp only [hactivity] at hatWork
    obtain ⟨hb, ht, -⟩ := hatWork
    cases he
    exact ⟨rfl, hb.isOpen, hb.written ht⟩
  next => exact absurd he commitEvent?_ne_access
  next => exact absurd he rollbackEvent?_ne_access
  next => cases he

end Session

namespace Database

variable {db db' : Database} {l l' : Ledger} {s y : SessionId} {e : Option Event} {t : TableId}
  {h : List Event} {m : IdMap Row} {kind : AccessKind}

theorem callEvent?_ne_access {k : SessionCall} {a : Access} :
    db.callEvent? s k ≠ some (.access a) := by
  intro he
  obtain ⟨x, -, he⟩ := Option.bind_eq_some_iff.mp he
  split at he
  next =>
    unfold Session.callEvent? at he
    split at he
    next =>
      split at he
      next => cases he
      next => exact rollbackEvent?_ne_access he
    next => cases he
  next => cases he

theorem Follows.witnessed (hf : db.Follows l e db' l') (hw : l.Witnessed h) :
    l'.Witnessed (h ++ e.toList) := by
  intro y k hk
  rcases hf.written y k hk with hold | ⟨kind, hkind, rfl⟩
  · obtain ⟨i, kind, hkind, hlive⟩ := hw y k hold
    cases e with
    | none =>
      rw [Option.toList_none, List.append_nil]
      exact ⟨i, kind, hkind, hlive⟩
    | some event =>
      refine ⟨i, kind, hkind, hlive.concat (Bool.eq_false_iff.mpr fun hends => ?_)⟩
      rw [hf.ended event rfl y hends] at hk
      cases hk
  · exact ⟨h.length, kind, hkind, live_last⟩

theorem Faithful.witnessed {moves : List Move} (hf : db.Faithful l) (hw : l.Witnessed h)
    (hm : db.RunsInside moves) : (db.ledger l moves).Witnessed (h ++ db.history moves) := by
  induction moves generalizing db l h with
  | nil =>
    rw [history, List.append_nil]
    exact hw
  | cons m rest ih =>
    obtain ⟨hinside, hnext, hrest⟩ := hm
    have hfollows := hf.perform hinside hnext
    have hafter := ih hfollows.faithful (hfollows.witnessed hw) hrest
    rw [List.append_assoc] at hafter
    exact hafter

/-- A transaction is open that has a table for itself, of which the rows in the map are committed. -/
structure Owns (db : Database) (l : Ledger) (s : SessionId) (t : TableId) (m : IdMap Row) : Prop where
  faithful : db.Faithful l
  isOpen : (db.coordinator.tx s).isOpen = true
  mode : db.coordinator.locks.mode? s t = some .exclusive
  rows : l.rows t = m

/-- Nobody else has changes on the table. -/
theorem Owns.alone (ho : db.Owns l s t m) (hy : y ≠ s) : onTable t (l.draft y).changes = [] :=
  ho.faithful.inStep.alone ho.faithful.coherent.toHoldersAgree (isSome_of_exclusive ho.mode) hy

theorem Owns.step (ho : db.Owns l s t m) (hf : db.Follows l e db' l')
    (hgoes : ∀ event ∈ e, event.ends s = false) : db'.Owns l' s t m := by
  have hup := hf.upholds s ho.isOpen hgoes
  refine ⟨hf.faithful, hup.isOpen ho.isOpen, hup.written t ho.mode, ?_⟩
  rcases hf.rows t with hsame | ⟨y, now, rfl, hsome⟩
  · exact hsame.trans ho.rows
  · -- It is not this session that commits, and another one has nothing to commit on the table.
    have hother : (Event.committed y now).ends s = false := hgoes _ rfl
    have hy : y ≠ s := of_decide_eq_false hother
    exact absurd (ho.alone hy) hsome

theorem Owns.run {moves : List Move} (ho : db.Owns l s t m) (hm : db.RunsInside moves)
    (hgoes : ∀ event ∈ db.history moves, event.ends s = false) :
    (db.run moves).Owns (db.ledger l moves) s t m := by
  induction moves generalizing db l with
  | nil => exact ho
  | cons move rest ih =>
    obtain ⟨hinside, hnext, hrest⟩ := hm
    have hstep := ho.step (ho.faithful.perform hinside hnext) fun event hevent =>
      hgoes event (List.mem_append_left _ (Option.mem_toList.mpr hevent))
    exact ih hstep hrest fun event hevent => hgoes event (List.mem_append_right _ hevent)

/-- The table is where the changes of the transaction lead from the committed rows. -/
theorem Owns.evolved (ho : db.Owns l s t m) :
    Contents.Evolved m (onTable t (l.draft s).changes) (db.coordinator.storage.contents t) := by
  have hevolved := ho.faithful.inStep.evolved_of_held ho.faithful.coherent.toHoldersAgree
    (isSome_of_exclusive ho.mode)
  rwa [ho.rows] at hevolved

/-- Before the transaction has changed the table, it is as committed. -/
theorem Owns.contents (ho : db.Owns l s t m) (hnone : onTable t (l.draft s).changes = []) :
    db.coordinator.storage.contents t = .ofRows m := by
  have hevolved := ho.evolved
  rw [hnone] at hevolved
  exact Contents.evolved_nil.mp hevolved

/-- After the transaction is rolled back, the table is as committed. -/
theorem Owns.rolledBack (ho : db.Owns l s t m) (hf : db.Follows l (some (.rolledBack s)) db' l') :
    db'.coordinator.storage.contents t = .ofRows m := by
  have hrows : l'.rows t = m := by
    rcases hf.rows t with hsame | ⟨y, now, heq, -⟩
    · exact hsame.trans ho.rows
    · cases heq
  have hnone (y : SessionId) : onTable t (l'.draft y).changes = [] := by
    by_cases hy : y = s
    · have hended : (l'.draft s).changes = [] := hf.ended _ rfl s (by simp [Event.ends])
      rw [hy, hended]
      rfl
    · refine onTable_eq_nil.mpr fun k hk => ?_
      rcases hf.written y k hk with hold | ⟨kind, -, heq⟩
      · exact onTable_eq_nil.mp (ho.alone hy) k hold
      · cases heq
  rw [hf.faithful.inStep.contents_of_nil hnone, hrows]

theorem Faithful.owns_of_write (hf : db.Faithful l) {write : Move}
    (he : db.observe write = some (.access ⟨s, t, kind⟩)) (hkind : kind.isWrite = true) :
    db.Owns l s t (l.rows t) := by
  cases write with
  | advance y =>
    obtain ⟨x, hs, he⟩ := Option.bind_eq_some_iff.mp he
    obtain ⟨rfl, hopen, hmode⟩ := (hf.engaged y x hs).of_write he hkind
    exact ⟨hf, hopen, hmode, rfl⟩
  | call y k => exact absurd he callEvent?_ne_access
  | drop y => exact absurd he callEvent?_ne_access
  | _ => cases he

/-- When a transaction is rolled back, however that comes about, every table that it has written has
the visible and the allocated rows that it had before the first write. -/
theorem rollback_restores {settings : Settings} {journal : Journal} {before during : List Move}
    {write last : Move} (hopen : openWith? settings journal = .ok db)
    (hinside : db.RunsInside (before ++ write :: during ++ [last]))
    (hwrite : (db.run before).observe write = some (.access ⟨s, t, kind⟩))
    (hkind : kind.isWrite = true)
    (hfirst : ∀ i earlier, Live (db.history before) i ⟨s, t, earlier⟩ → earlier.isWrite = false)
    (hgoes : ∀ e ∈ (db.run (before ++ [write])).history during, e.ends s = false)
    (hlast : (db.run (before ++ write :: during)).observe last = some (.rolledBack s)) :
    (db.run (before ++ write :: during ++ [last])).coordinator.storage.scan t =
        (db.run before).coordinator.storage.scan t ∧
      ∀ p, (db.run (before ++ write :: during ++ [last])).coordinator.storage.get? t p =
        (db.run before).coordinator.storage.get? t p := by
  have hstart := faithful_openWith hopen
  obtain ⟨hrun, hend, hnext, -⟩ := runsInside_append.mp hinside
  obtain ⟨hbefore, hinto, hwritten, hduring⟩ := runsInside_append.mp hrun
  have hfaithful := hstart.run hbefore
  have hwitnessed : (db.ledger .empty before).Witnessed (db.history before) :=
    hstart.witnessed (h := []) nofun hbefore
  have howns := hfaithful.owns_of_write hwrite hkind
  have hnone : onTable t ((db.ledger .empty before).draft s).changes = [] := by
    refine onTable_eq_nil.mpr fun k hk ht => ?_
    obtain ⟨i, earlier, hearlier, hlive⟩ := hwitnessed s k hk
    rw [ht] at hlive
    rw [hfirst i earlier hlive] at hearlier
    cases hearlier
  have hstep := hfaithful.perform hinto hwritten
  rw [hwrite] at hstep
  have hmiddle : db.run (before ++ [write]) = (db.run before).perform write := run_append
  have hlate : db.run (before ++ write :: during) = ((db.run before).perform write).run during :=
    run_append
  have hafter : db.run (before ++ write :: during ++ [last]) =
      (((db.run before).perform write).run during).perform last := by
    rw [run_append, hlate]
    rfl
  rw [hmiddle] at hgoes
  rw [hlate] at hnext hlast
  have hheld := (howns.step hstep (by rintro event ⟨⟩; rfl)).run hduring hgoes
  have hfollows := hheld.faithful.perform hend hnext
  rw [hlast] at hfollows
  have hsame := (hheld.rolledBack hfollows).trans (howns.contents hnone).symm
  rw [← hafter] at hsame
  exact ⟨by rw [Storage.scan_eq, Storage.scan_eq, hsame],
    fun p => by rw [Storage.get?_eq, Storage.get?_eq, hsame]⟩

/-- Session 1 commits two rows. It deletes the first one, sets a savepoint, inserts a row and deletes
the second one, goes back to the savepoint, and is asked to roll back. -/
def twoRows : List Move :=
  [.createTable "t" false, .connect,
    .call 1 (.execute ⟨.write [1], fun _ => .insert 1 [] fun _ => .insert 1 [] fun _ => .done ⟨2, []⟩⟩)] ++
  List.replicate 9 (.advance 1) ++
  [.call 1 (.setAutocommit false),
    .call 1 (.execute ⟨.write [1], fun _ => .delete 1 1 fun _ => .done ⟨1, []⟩⟩)] ++
  List.replicate 3 (.advance 1)

def changesAndRollback : List Move :=
  List.replicate 3 (.advance 1) ++ [.call 1 (.savepoint "a"),
    .call 1 (.execute ⟨.write [1], fun _ => .insert 1 [] fun _ => .delete 1 2 fun _ => .done ⟨2, []⟩⟩)] ++
  List.replicate 8 (.advance 1) ++ [.call 1 (.rollbackTo "a"), .call 1 .rollback]

theorem rollback_restores_changesAndRollback : ∃ db, openWith? .default .empty = .ok db ∧
    db.RunsInside (twoRows ++ .advance 1 :: changesAndRollback ++ [.advance 1]) ∧
    (db.run twoRows).observe (.advance 1) = some (.access ⟨1, 1, .delete⟩) ∧
    (db.run (twoRows ++ .advance 1 :: changesAndRollback)).observe (.advance 1) =
      some (.rolledBack 1) ∧
    (db.run (twoRows ++ .advance 1 :: changesAndRollback ++ [.advance 1])).coordinator.storage.scan 1 =
      (db.run twoRows).coordinator.storage.scan 1 := by
  obtain ⟨db, hopen⟩ : ∃ db, openWith? .default .empty = .ok db := ⟨_, rfl⟩
  have hdb := openWith?_eq hopen
  have hinside : db.RunsInside (twoRows ++ .advance 1 :: changesAndRollback ++ [.advance 1]) := by
    rw [hdb]
    decide
  have hwrite : (db.run twoRows).observe (.advance 1) = some (.access ⟨1, 1, .delete⟩) := by
    rw [hdb]
    decide
  have hhistory : db.history twoRows = [.access ⟨1, 1, .insert⟩, .access ⟨1, 1, .insert⟩,
      .committed 1 2] := by
    rw [hdb]
    decide
  have hfirst (i : Nat) (earlier : AccessKind) (hlive : Live (db.history twoRows) i ⟨1, 1, earlier⟩) :
      earlier.isWrite = false := by
    rw [hhistory] at hlive
    obtain ⟨haccess, hopen⟩ := hlive
    have hends (hi : i < 2) : EndsBetween [.access ⟨1, 1, .insert⟩, .access ⟨1, 1, .insert⟩,
        .committed 1 2] 1 i 3 := ⟨2, .committed 1 2, hi, by decide, rfl, rfl⟩
    match i with
    | 0 => exact absurd (hends (by decide)) hopen
    | 1 => exact absurd (hends (by decide)) hopen
    | 2 => cases haccess
    | n + 3 => cases haccess
  have hgoes : ∀ e ∈ (db.run (twoRows ++ [.advance 1])).history changesAndRollback,
      e.ends 1 = false := by
    rw [hdb]
    decide
  have hlast : (db.run (twoRows ++ .advance 1 :: changesAndRollback)).observe (.advance 1) =
      some (.rolledBack 1) := by
    rw [hdb]
    decide
  obtain ⟨hscan, -⟩ := rollback_restores hopen hinside hwrite rfl hfirst hgoes hlast
  exact ⟨db, hopen, hinside, hwrite, hlast, hscan⟩

end Database

end LockingDb
