import LockingDb.Proofs.FailedCommit
import LockingDb.Proofs.FaultyRuns

namespace LockingDb

open Coordinator RowAction

namespace Journal

variable {j : Journal} {calls : List LogCall}

/-- A log that does not fail takes all records. -/
theorem writeAll_of_sound (h : ∀ n call, j.faults n call = none)
    (calls : List LogCall) : (j.writeAll calls).1 = .ok () ∧
      (j.writeAll calls).2.records = j.records ++ calls.filterMap LogCall.record? := by
  induction calls generalizing j with
  | nil => exact ⟨rfl, (List.append_nil _).symm⟩
  | cons call rest ih =>
    have hwrite : j.write call = (.ok (), { j with
        calls := j.calls + 1, records := j.records ++ call.record?.toList }) := by
      unfold write
      rw [h]
    obtain ⟨hok, hrecords⟩ := ih (j := { j with
      calls := j.calls + 1, records := j.records ++ call.record?.toList }) h
    rw [writeAll, hwrite]
    refine ⟨hok, hrecords.trans ?_⟩
    rw [List.filterMap_cons, List.append_assoc]
    cases call.record? <;> rfl

end Journal

namespace Tracked

variable {as : List RowAction} {s : Storage} {t : TableId} {p : RowPosition}

/-- The calls that take a log back are for the places of its actions. -/
theorem spared_undoAll (h : Tracked as s) (hs : s.Sturdy) {now : Timestamp}
    (hnone : ∀ a ∈ as, ¬a.IsAt t p) : s.Spared (Coordinator.undoAll now as.reverse s) t p := by
  intro n k hrefuses hp
  have hcalls := h.calls_undoAll hs now
  have hmade := hrefuses.made
  rw [hcalls, List.reverse_append, List.getElem?_append_right (by simpa using hrefuses.since)] at hmade
  obtain ⟨a, ha, hcall⟩ := List.mem_map.mp (List.mem_reverse.mp (List.mem_of_getElem? hmade))
  obtain ⟨row, hrow, -⟩ := h.row? ha
  unfold undoCall at hcall
  rw [hrow, Option.getD_some] at hcall
  obtain ⟨hstore, hk⟩ := Prod.mk.inj hcall
  refine hnone a ha ⟨hstore, ?_⟩
  rw [← hp, ← hk]
  exact (hs.found hrow).2.symm

end Tracked

/-- What a transaction has accessed that is over is not live any more. -/
theorem not_live_of_ends {h : List Event} {e : Event} {a : Access} {i : Nat}
    (hends : e.ends a.session = true) : ¬Live (h ++ [e]) i a := by
  intro hlive
  rcases live_concat hlive with ⟨-, hgoes⟩ | rfl
  · rw [hends] at hgoes
    cases hgoes
  · cases hends

namespace Coordinator

variable {c c' : Coordinator} {s y : SessionId} {t : TableId} {p : RowPosition} {r : LockRequest}

/-- The transaction of a session is over: nothing of it is left, the session owns no row, holds no lock
and does not wait, one transaction less is open, and who waits still has to or has all that it asked
for. -/
structure Released (s : SessionId) (c c' : Coordinator) : Prop where
  unowned : ∀ row, c'.owners.owner? row ≠ some s
  unlocked : ∀ t, c'.locks.mode? s t = none
  waits : c'.locks.isWaiting s = false
  isOpen : (c'.tx s).isOpen = false
  actions : (c'.tx s).actions = []
  savepoints : (c'.tx s).savepoints = []
  openCount : c'.openCount + 1 = c.openCount
  waiters : ∀ y r, y ≠ s → c.locks.awaited? y = some r →
    (c'.locks.awaited? y = some r ∧ (c'.locks.blockers y).isEmpty = false) ∨
    (c'.locks.awaited? y = none ∧ c'.locks.holdsAll y r = true ∧
      (y ∈ c.registered → (c'.tx y).signals.latch = (c.tx y).signals.latch - 1))

theorem Freed.released (h : c'.Freed s) (hbooks : Books s c c') (hcounted : c.Counted)
    (hopen : (c.tx s).isOpen = true) (hsavepoints : (c'.tx s).savepoints = [])
    (hspares : ∀ y, y ≠ s → Spares y c c') (hsettled : c.locks.Settled)
    (hsettled' : c'.locks.Settled) : c.Released s c' := by
  refine ⟨h.owned, h.unlocked, h.waits, h.isOpen, h.actions, hsavepoints, ?_, fun y r hy hr => ?_⟩
  · have htally := hbooks.tallies fun hopen => hcounted.pos hopen
    rw [hopen, h.isOpen, Bool.toNat_true, Bool.toNat_false] at htally
    exact htally
  · exact (hspares y hy).waiter hsettled hsettled' hr

theorem released_rollback (hsettled : c.locks.Settled) (hbooked : c.Booked s) (hcounted : c.Counted)
    (hopen : (c.tx s).isOpen = true) : c.Released s (c.rollback s) := by
  obtain ⟨hends, hbooks⟩ := rollback_freed (s := s) hsettled.toCoherent
  exact (hends hbooked).released hbooks hcounted hopen savepoints_rollback
    (fun y hy => spares_rollback hy) hsettled (steady_rollback.settled hsettled)

theorem released_commit (hsettled : c.locks.Settled) (hbooked : c.Booked s) (hcounted : c.Counted)
    (hopen : (c.tx s).isOpen = true) (habort : c.abortRequested s = false) :
    c.Released s (c.commit s).2 := by
  obtain ⟨hends, hbooks⟩ := commit_books (s := s) hsettled.toCoherent
  exact (hends hbooked habort).released hbooks hcounted hopen (savepoints_commit habort)
    (fun y hy => spares_commit hy) hsettled (steady_commit.settled hsettled)

/-- A commit that has been written down makes the rows final and ends the transaction, whatever the
stores answer. -/
theorem commit_of_logged {journal : Journal} (habort : c.abortRequested s = false)
    (hlog : persist s c.tick.1 (c.tx s).actions c.storage c.journal = (.ok (), journal)) :
    (c.commit s).1 = (match (finalizeAll c.tick.1 (c.tx s).actions c.storage).1 with
      | none => .ok true
      | some f => .error (.fatalStore ("transaction committed at " ++ toString c.tick.1 ++
          " but a row was not finalized: " ++ f.message))) ∧
    (c.commit s).2.journal = journal ∧
    (c.commit s).2.storage = (finalizeAll c.tick.1 (c.tx s).actions c.storage).2 := by
  have hlogged : persist s c.tick.1 (c.tick.2.tx s).actions c.tick.2.storage c.tick.2.journal =
      (.ok (), journal) := hlog
  have hsame : finalizeAll c.tick.1 (c.tick.2.tx s).actions c.tick.2.storage =
      finalizeAll c.tick.1 (c.tx s).actions c.storage := rfl
  have hdata (c₁ : Coordinator) (rows : List RowId) (now : Timestamp) :
      ((c₁.endTx s rows).closeTx s now).data = c₁.data := endTx_data
  unfold commit
  rw [if_neg (by rw [habort]; exact Bool.false_ne_true)]
  dsimp only
  rw [hlogged]
  dsimp only
  rw [hsame]
  generalize finalizeAll c.tick.1 (c.tx s).actions c.storage = finalized
  obtain ⟨failed, storage⟩ := finalized
  cases failed with
  | none => exact ⟨rfl, journal_of_data (hdata _ _ c.tick.1), congrArg Prod.fst (hdata _ _ c.tick.1)⟩
  | some f => exact ⟨rfl, journal_of_data (hdata _ _ c.tick.1), congrArg Prod.fst (hdata _ _ c.tick.1)⟩

end Coordinator

namespace Database

variable {db : Database} {s : SessionId} {moves : List Move} {c : Coordinator}

/-- Whichever of the calls fail by which an open transaction is taken back, one call is made for each
action of its log, over all tables the last action first, and nothing keeps the session: its
transaction is over, and those who waited for its locks get them. Unless a store has failed in the
transaction before, each place of the tables that it has written is as before the first write if no
call for the place has failed, and no other place changes. -/
theorem rollback_always_finishes {settings : Settings} {journal : Journal}
    (hopen : openWith? settings journal = .ok db) (hruns : db.RunsWithFaults moves)
    (hclean : db.CleanSince s moves) (hc : c = (db.run moves).coordinator)
    (htx : (c.tx s).isOpen = true) :
    (∀ a ∈ (c.tx s).actions, ∃ row, a.row? c.storage = some row ∧ row.id = a.row) ∧
    (c.rollback s).storage.calls = (c.tx s).actions.map (undoCall c.storage) ++ c.storage.calls ∧
    (∀ a ∈ (c.tx s).actions, ∃ before write during, moves = before ++ write :: during ∧
      db.FirstWrite s a.store before write during) ∧
    (∀ t before write during, moves = before ++ write :: during →
      db.FirstWrite s t before write during → ∀ p, c.storage.Spared (c.rollback s).storage t p →
        (c.rollback s).storage.spot t p = (db.run before).coordinator.storage.spot t p) ∧
    (∀ t p, (∀ a ∈ (c.tx s).actions, ¬a.IsAt t p) →
      (c.rollback s).storage.spot t p = c.storage.spot t p) ∧
    c.Released s (c.rollback s) := by
  have hfresh := kept_openWith hopen
  have hnone : (db.coordinator.tx s).actions = [] := by
    rw [openWith?_eq hopen]
    rfl
  have hkept := hfresh.run hruns
  have hattested : Attested (c.tx s).actions s (db.history moves) := by
    subst hc
    exact hfresh.attested hnone hruns
  have htracked : Tracked (c.tx s).actions c.storage := hc ▸ hkept.tracked s
  have hsturdy : c.storage.Sturdy := hc ▸ hkept.sturdy
  obtain ⟨now, hstorage⟩ := storage_rollback c s
  have hback (t : TableId) (p : RowPosition) (hspared : c.storage.Spared (c.rollback s).storage t p) :
      (c.rollback s).storage.spot t p = rewind (c.tx s).actions t p (c.storage.spot t p) := by
    rw [hstorage] at hspared ⊢
    rw [(hsturdy.undoAll now (c.tx s).actions.reverse).2 t p hspared, List.reverse_reverse]
  refine ⟨fun a ha => htracked.row? ha, ?_, fun a ha => ?_, ?_, fun t p hno => ?_, ?_⟩
  · rw [hstorage]
    exact htracked.calls_undoAll hsturdy now
  · obtain ⟨i, kind, hkind, hlive⟩ := hattested a ha
    exact exists_firstWrite hkind hlive
  · intro t before write during hmoves hfirst p hspared
    subst hmoves hc
    rw [hback t p hspared]
    exact ((hfirst.recalls hfresh hruns hnone hclean).spots p).symm
  · have hspared : c.storage.Spared (c.rollback s).storage t p := by
      rw [hstorage]
      exact htracked.spared_undoAll hsturdy hno
    rw [hback t p hspared, rewind_of_none hno]
  · subst hc
    have hstanding := hkept.standing
    exact released_rollback hstanding.settled (hstanding.booked s) hstanding.counted htx

/-- Session 1, that has deleted the first of its two rows, inserts a row and deletes the second one.
Session 2 waits to read the table. -/
def changesWaitedFor : List Move :=
  List.replicate 3 (.advance 1) ++
  [.call 1 (.execute ⟨.write [1], fun _ => .insert 1 [] fun _ => .delete 1 2 fun _ => .done ⟨2, []⟩⟩)] ++
  List.replicate 8 (.advance 1) ++
  [.connect, .call 2 (.execute ⟨.read [1], fun _ => .scan 1 fun _ => .done ⟨0, []⟩⟩), .advance 2,
    .advance 2]

/-- From now on the calls for a position of a table fail. -/
def refusing (db : Database) (t : TableId) (p : RowPosition) : Move :=
  .outside (db.coordinator.storage.refault t fun _ k =>
    if k.row.position = p then some (.io "no") else none) db.coordinator.journal

theorem RunsInside.refusing (h : db.RunsInside moves)
    (hnext : (db.run moves).coordinator.storage.nextRow ≠ 0) {t : TableId} {p : RowPosition} :
    db.RunsWithFaults (moves ++ [(db.run moves).refusing t p]) :=
  runsWithFaults_append.mpr ⟨h.runsWithFaults, Storage.refaulted_refault, hnext, trivial⟩

theorem rollback_always_finishes_changesWaitedFor : ∃ db moves c,
    openWith? .default .empty = .ok db ∧
    moves = twoRows ++ .advance 1 :: (changesWaitedFor ++
      [(db.run (twoRows ++ .advance 1 :: changesWaitedFor)).refusing 1 3]) ∧
    db.RunsWithFaults moves ∧ db.CleanSince 1 moves ∧ c = (db.run moves).coordinator ∧
    (c.tx 1).isOpen = true ∧
    (c.rollback 1).storage.calls = [(1, .rollback ⟨1, 1, 1, []⟩ .delete),
      (1, .rollback ⟨3, 3, 1, []⟩ .insert), (1, .rollback ⟨2, 2, 1, []⟩ .delete)] ++
        c.storage.calls ∧
    (c.rollback 1).storage.spot 1 1 = (db.run twoRows).coordinator.storage.spot 1 1 ∧
    (c.rollback 1).storage.spot 1 2 = (db.run twoRows).coordinator.storage.spot 1 2 ∧
    c.Released 1 (c.rollback 1) ∧ (c.rollback 1).locks.holdsAll 2 (.read [1]) = true := by
  obtain ⟨db, hopen⟩ : ∃ db, openWith? .default .empty = .ok db := ⟨_, rfl⟩
  have hdb := openWith?_eq hopen
  have hinside : db.RunsInside (twoRows ++ .advance 1 :: changesWaitedFor) := by
    rw [hdb]
    decide
  obtain ⟨refused, hrefused⟩ : ∃ m,
      m = (db.run (twoRows ++ .advance 1 :: changesWaitedFor)).refusing 1 3 := ⟨_, rfl⟩
  obtain ⟨moves, hmoves⟩ : ∃ moves, moves = twoRows ++ .advance 1 :: (changesWaitedFor ++ [refused]) :=
    ⟨_, rfl⟩
  have hsplit : moves = (twoRows ++ .advance 1 :: changesWaitedFor) ++ [refused] := by
    rw [hmoves, List.append_assoc]
    rfl
  have hruns : db.RunsWithFaults moves := by
    rw [hsplit, hrefused]
    exact hinside.refusing (by rw [hdb]; decide)
  have hclean : db.CleanSince 1 moves := by
    rw [hsplit]
    refine ((faithful_openWith hopen).cleanSince hinside).concat fun hfails => ?_
    rw [hrefused] at hfails
    cases hfails.1
  obtain ⟨c, hc⟩ : ∃ c, c = (db.run moves).coordinator := ⟨_, rfl⟩
  have hcoordinator : c = ((db.run (twoRows ++ .advance 1 :: changesWaitedFor)).perform
      refused).coordinator := by
    rw [hc, hsplit, run_append]
    rfl
  have htx : (c.tx 1).isOpen = true := by
    rw [hcoordinator, hrefused, hdb]
    decide
  have hfirst : db.FirstWrite 1 1 twoRows (.advance 1) (changesWaitedFor ++ [refused]) := by
    have hhistory : db.history twoRows =
        [.access ⟨1, 1, .insert⟩, .access ⟨1, 1, .insert⟩] ++ [.committed 1 2] := by
      rw [hdb]
      decide
    refine ⟨⟨.delete, rfl, ?_⟩, fun i earlier hlive => ?_, ?_⟩
    · rw [hdb]
      decide
    · rw [hhistory] at hlive
      exact absurd hlive (not_live_of_ends rfl)
    · have hduring : ∀ e ∈ (db.run (twoRows ++ [.advance 1])).history changesWaitedFor,
          e.ends 1 = false := by
        rw [hdb]
        decide
      intro e he
      rw [history_append, hrefused] at he
      rcases List.mem_append.mp he with he | he
      · exact hduring e he
      · cases he
  obtain ⟨-, hcalls, -, hplaces, -, hreleased⟩ :=
    rollback_always_finishes hopen hruns hclean hc htx
  have hundo : (c.tx 1).actions.map (undoCall c.storage) =
      [(1, .rollback ⟨1, 1, 1, []⟩ .delete), (1, .rollback ⟨3, 3, 1, []⟩ .insert),
        (1, .rollback ⟨2, 2, 1, []⟩ .delete)] := by
    rw [hcoordinator, hrefused, hdb]
    decide
  have hspared (p : RowPosition) (hp : p ≠ 3) : c.storage.Spared (c.rollback 1).storage 1 p := by
    rintro n k hrefuses rfl
    obtain ⟨f, hfault⟩ := Option.isSome_iff_exists.mp hrefuses.fault
    rw [hcoordinator, hrefused] at hfault
    have hfails := Storage.fault?_refault hfault
    rw [if_neg hp] at hfails
    cases hfails
  have hwaits : c.locks.awaited? 2 = some (.read [1]) := by
    rw [hcoordinator, hrefused, hdb]
    decide
  have hfree : (c.rollback 1).locks.awaited? 2 = none := by
    rw [hcoordinator, hrefused, hdb]
    decide
  have hserved : (c.rollback 1).locks.holdsAll 2 (.read [1]) = true := by
    rcases hreleased.waiters 2 (.read [1]) (by decide) hwaits with ⟨hstill, -⟩ | ⟨-, hall, -⟩
    · rw [hfree] at hstill
      cases hstill
    · exact hall
  refine ⟨db, moves, c, hopen, hrefused ▸ hmoves, hruns, hclean, hc, htx, hundo ▸ hcalls, ?_, ?_,
    hreleased, hserved⟩
  · exact hplaces 1 twoRows (.advance 1) _ hmoves hfirst 1 (hspared 1 (by decide))
  · exact hplaces 1 twoRows (.advance 1) _ hmoves hfirst 2 (hspared 2 (by decide))

/-- Whichever of the calls fail by which the rows of an open transaction are made final, its commit is
written down, one call is made for each action in the order of the log, no table shows other rows than
before, and nothing keeps the session. The first failure is answered. -/
theorem commit_survives_finalize_failures {settings : Settings} {journal : Journal}
    (hopen : openWith? settings journal = .ok db) (hruns : db.RunsWithFaults moves)
    (hc : c = (db.run moves).coordinator) (htx : (c.tx s).isOpen = true)
    (habort : c.abortRequested s = false) (hlog : ∀ n call, c.journal.faults n call = none) :
    (∀ a ∈ (c.tx s).actions, ∃ row, a.row? c.storage = some row ∧ row.id = a.row) ∧
    (c.commit s).2.journal.records =
      c.journal.records ++ (c.commitCalls s).filterMap LogCall.record? ∧
    ((c.tx s).actions ≠ [] →
      (c.commit s).2.journal.records.getLast? = some (.commit s c.tick.1)) ∧
    (c.commit s).2.storage.calls =
      ((c.tx s).actions.map (finalCall c.storage)).reverse ++ c.storage.calls ∧
    (∀ t, (c.commit s).2.storage.scan t = c.storage.scan t) ∧
    (c.commit s).1 = (match c.storage.firstFault? ((c.tx s).actions.map (finalCall c.storage)) with
      | none => .ok true
      | some f => .error (.fatalStore ("transaction committed at " ++ toString c.tick.1 ++
          " but a row was not finalized: " ++ f.message))) ∧
    c.Released s (c.commit s).2 := by
  have hkept := (kept_openWith hopen).run hruns
  have htracked : Tracked (c.tx s).actions c.storage := hc ▸ hkept.tracked s
  have hsturdy : c.storage.Sturdy := hc ▸ hkept.sturdy
  obtain ⟨hok, hrecords⟩ := Journal.writeAll_of_sound hlog (c.commitCalls s)
  rw [← persist_eq habort] at hok hrecords
  obtain ⟨hanswer, hjournal, hstorage⟩ := commit_of_logged habort (Prod.ext hok rfl)
  obtain ⟨-, hcalls, hscan, hfirst⟩ := htracked.finalizeAll hsturdy c.tick.1
  refine ⟨fun a ha => htracked.row? ha, ?_, fun hsome => ?_, ?_, fun t => ?_, ?_, ?_⟩
  · rw [hjournal, hrecords]
  · have hlast : (c.commitCalls s).filterMap LogCall.record? ≠ [] ∧
        ((c.commitCalls s).filterMap LogCall.record?).getLast? = some (.commit s c.tick.1) := by
      unfold commitCalls
      dsimp only
      rw [if_neg (by simpa [habort] using hsome), List.filterMap_append]
      exact ⟨by simp [LogCall.record?], by simp [LogCall.record?]⟩
    rw [hjournal, hrecords, List.getLast?_append_of_ne_nil _ hlast.1]
    exact hlast.2
  · rw [hstorage]
    exact hcalls
  · rw [hstorage]
    exact hscan t
  · rw [hanswer, hfirst]
  · subst hc
    have hstanding := hkept.standing
    exact released_commit hstanding.settled (hstanding.booked s) hstanding.counted htx habort

theorem commit_survives_finalize_failures_changesWaitedFor : ∃ db moves c,
    openWith? .default .empty = .ok db ∧
    moves = (twoRows ++ .advance 1 :: changesWaitedFor) ++
      [(db.run (twoRows ++ .advance 1 :: changesWaitedFor)).refusing 1 1] ∧
    db.RunsWithFaults moves ∧ c = (db.run moves).coordinator ∧ (c.tx 1).isOpen = true ∧
    c.abortRequested 1 = false ∧ (∀ n call, c.journal.faults n call = none) ∧
    (c.commit 1).2.storage.calls = [(1, .commit ⟨2, 2, 1, []⟩ .deleteFinal),
      (1, .commit ⟨3, 3, 1, []⟩ .none), (1, .commit ⟨1, 1, 1, []⟩ .deleteFinal)] ++
        c.storage.calls ∧
    (c.commit 1).1 = .error (.fatalStore
      "transaction committed at 5 but a row was not finalized: I/O error: no") ∧
    (c.commit 1).2.journal.records = c.journal.records ++
      [.delete 1 1 1, .insert 1 1 3 [], .delete 1 1 2, .commit 1 5] ∧
    c.Released 1 (c.commit 1).2 := by
  obtain ⟨db, hopen⟩ : ∃ db, openWith? .default .empty = .ok db := ⟨_, rfl⟩
  have hdb := openWith?_eq hopen
  have hinside : db.RunsInside (twoRows ++ .advance 1 :: changesWaitedFor) := by
    rw [hdb]
    decide
  obtain ⟨refused, hrefused⟩ : ∃ m,
      m = (db.run (twoRows ++ .advance 1 :: changesWaitedFor)).refusing 1 1 := ⟨_, rfl⟩
  obtain ⟨moves, hmoves⟩ : ∃ moves, moves = (twoRows ++ .advance 1 :: changesWaitedFor) ++ [refused] :=
    ⟨_, rfl⟩
  have hruns : db.RunsWithFaults moves := by
    rw [hmoves, hrefused]
    exact hinside.refusing (by rw [hdb]; decide)
  obtain ⟨c, hc⟩ : ∃ c, c = (db.run moves).coordinator := ⟨_, rfl⟩
  have hcoordinator : c = ((db.run (twoRows ++ .advance 1 :: changesWaitedFor)).perform
      refused).coordinator := by
    rw [hc, hmoves, run_append]
    rfl
  have htx : (c.tx 1).isOpen = true := by
    rw [hcoordinator, hrefused, hdb]
    decide
  have habort : c.abortRequested 1 = false := by
    rw [hcoordinator, hrefused, hdb]
    decide
  have hlog : c.journal.faults = fun _ _ => none := by
    rw [hcoordinator, hrefused, hdb]
    rfl
  have hobeys (n : Nat) (call : LogCall) : c.journal.faults n call = none := by rw [hlog]
  obtain ⟨-, hrecords, -, hcalls, -, hanswer, hreleased⟩ :=
    commit_survives_finalize_failures hopen hruns hc htx habort hobeys
  have hfinal : (c.tx 1).actions.map (finalCall c.storage) =
      [(1, .commit ⟨1, 1, 1, []⟩ .deleteFinal), (1, .commit ⟨3, 3, 1, []⟩ .none),
        (1, .commit ⟨2, 2, 1, []⟩ .deleteFinal)] := by
    rw [hcoordinator, hrefused, hdb]
    decide
  have hwritten : (c.commitCalls 1).filterMap LogCall.record? =
      [.delete 1 1 1, .insert 1 1 3 [], .delete 1 1 2, .commit 1 5] := by
    rw [hcoordinator, hrefused, hdb]
    decide
  have hfailed : c.storage.firstFault? ((c.tx 1).actions.map (finalCall c.storage)) =
      some (.io "no") := by
    rw [hcoordinator, hrefused, hdb]
    decide
  have htime : c.tick.1 = 5 := by
    rw [hcoordinator, hrefused, hdb]
    decide
  rw [hfinal] at hcalls
  rw [hfailed, htime] at hanswer
  exact ⟨db, moves, c, hopen, hrefused ▸ hmoves, hruns, hc, htx, habort, hobeys, hcalls, hanswer,
    hwritten ▸ hrecords, hreleased⟩

/-- Session 1 has begun a transaction with a statement that only reads. -/
def onlyRead : List Move :=
  [.createTable "t" false, .connect, .call 1 (.setAutocommit false),
    .call 1 (.execute ⟨.read [1], fun _ => .scan 1 fun _ => .done ⟨0, []⟩⟩)] ++
  List.replicate 7 (.advance 1)

/-- A transaction that has changed nothing is committed without a record. -/
theorem not_every_commit_recorded : ¬∀ (db : Database) (settings : Settings) (journal : Journal)
    (moves : List Move) (s : SessionId) (c : Coordinator), openWith? settings journal = .ok db →
    db.RunsWithFaults moves → db.CleanSince s moves → c = (db.run moves).coordinator →
    (c.tx s).isOpen = true → c.abortRequested s = false →
    (∀ n call, c.journal.faults n call = none) →
      .commit s c.tick.1 ∈ (c.commit s).2.journal.records := by
  intro hclaim
  obtain ⟨db, hopen⟩ : ∃ db, openWith? .default .empty = .ok db := ⟨_, rfl⟩
  have hdb := openWith?_eq hopen
  have hinside : db.RunsInside onlyRead := by
    rw [hdb]
    decide
  obtain ⟨c, hc⟩ : ∃ c, c = (db.run onlyRead).coordinator := ⟨_, rfl⟩
  have hopens : (c.tx 1).isOpen = true ∧ c.abortRequested 1 = false := by
    rw [hc, hdb]
    decide
  have hlog : c.journal.faults = fun _ _ => none := by
    rw [hc, hdb]
    rfl
  have hempty : (c.commit 1).2.journal.records = [] := by
    rw [hc, hdb]
    decide
  have hmember := hclaim db .default .empty onlyRead 1 c hopen hinside.runsWithFaults
    ((faithful_openWith hopen).cleanSince hinside) hc hopens.1 hopens.2 fun n call => by rw [hlog]
  rw [hempty] at hmember
  cases hmember

end Database

end LockingDb
