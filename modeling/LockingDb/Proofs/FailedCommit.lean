import LockingDb.Proofs.DatabaseStanding
import LockingDb.Proofs.FirstWrites
import LockingDb.Proofs.LogBatches

namespace LockingDb

open Coordinator

namespace Journal

variable {j : Journal} {calls : List LogCall} {call : LogCall} {k : Nat} {f : Failure}

/-- Calls are made on a log one after another, until one fails. -/
def writeAll (j : Journal) : List LogCall → Except Failure Unit × Journal
  | [] => (.ok (), j)
  | call :: rest =>
    match j.write call with
    | (.error f, j) => (.error f, j)
    | (.ok (), j) => j.writeAll rest

theorem writeAll_append {first last : List LogCall} : j.writeAll (first ++ last) =
    match j.writeAll first with
    | (.error f, j) => (.error f, j)
    | (.ok (), j) => j.writeAll last := by
  induction first generalizing j with
  | nil => rfl
  | cons call rest ih =>
    rw [List.cons_append, writeAll, writeAll]
    cases hwrite : j.write call with
    | mk answer j' =>
      cases answer with
      | error f => rfl
      | ok done => exact ih

theorem writeAll_singleton : j.writeAll [call] = j.write call := by
  rw [writeAll]
  split
  next h => exact h.symm
  next h => exact h.symm

/-- Of the calls to be made on a log, the one at place `k` is the first to fail. -/
structure StopsAt (j : Journal) (calls : List LogCall) (k : Nat) (f : Failure) : Prop where
  fails : ∃ call, calls[k]? = some call ∧ j.faults (j.calls + k) call = some f
  before : ∀ i < k, ∀ call, calls[i]? = some call → j.faults (j.calls + i) call = none

theorem StopsAt.tail (h : j.StopsAt (call :: calls) (k + 1) f) :
    (j.write call).1 = .ok () ∧ (j.write call).2.StopsAt calls k f ∧
      (j.write call).2.calls = j.calls + 1 := by
  have hpasses : j.faults j.calls call = none := h.before 0 (Nat.succ_pos k) call rfl
  obtain ⟨last, hlast, hfault⟩ := h.fails
  have hnumber (i : Nat) : j.calls + 1 + i = j.calls + (i + 1) := by omega
  unfold write
  rw [hpasses]
  refine ⟨rfl, ⟨⟨last, hlast, ?_⟩, fun i hi other hother => ?_⟩, rfl⟩
  · show j.faults (j.calls + 1 + k) last = some f
    rw [hnumber]
    exact hfault
  · show j.faults (j.calls + 1 + i) other = none
    rw [hnumber]
    exact h.before (i + 1) (Nat.succ_lt_succ hi) other hother

/-- No call is made after the one that fails. -/
theorem StopsAt.writeAll (h : j.StopsAt calls k f) :
    (j.writeAll calls).1 = .error f ∧ (j.writeAll calls).2.calls = j.calls + k + 1 := by
  induction calls generalizing j k with
  | nil =>
    obtain ⟨call, hcall, -⟩ := h.fails
    cases hcall
  | cons call rest ih =>
    rw [Journal.writeAll]
    cases k with
    | zero =>
      obtain ⟨first, hfirst, hfault⟩ := h.fails
      have hcall : call = first := Option.some.inj hfirst
      subst hcall
      have hwrite : j.write call = (.error f, { j with calls := j.calls + 1 }) := by
        unfold write
        rw [show j.faults j.calls call = some f from hfault]
      rw [hwrite]
      exact ⟨rfl, rfl⟩
    | succ k =>
      obtain ⟨hok, hrest, hcount⟩ := h.tail
      generalize j.write call = written at hok hrest hcount
      obtain ⟨answer, j'⟩ := written
      obtain rfl : answer = .ok () := hok
      obtain ⟨hanswer, hcalls⟩ := ih hrest
      refine ⟨hanswer, hcalls.trans ?_⟩
      rw [show j'.calls = j.calls + 1 from hcount]
      omega

end Journal

namespace Coordinator

variable {c c' : Coordinator} {s y : SessionId} {k : Nat} {f : Failure} {r : LockRequest}

/-- What is written down of an action: nothing, if its row is transient or gone. -/
def logCall? (s : SessionId) (transient : List RowId) (storage : Storage) (a : RowAction) :
    Option LogCall :=
  if transient.contains a.row then none else (a.row? storage).map (.action s a.type)

/-- The calls on the log by which the transaction of a session is committed. -/
def commitCalls (c : Coordinator) (s : SessionId) : List LogCall :=
  let actions := (c.tx s).actions
  if c.abortRequested s || actions.isEmpty then []
  else
    let transient := (actions.filter (·.type = .insertThenDelete)).map RowAction.row
    actions.filterMap (logCall? s transient c.storage) ++ [.commit s c.tick.1]

theorem persistActions_eq {transient : List RowId} {storage : Storage} {as : List RowAction}
    {j : Journal} : persistActions s transient storage as j =
      j.writeAll (as.filterMap (logCall? s transient storage)) := by
  induction as generalizing j with
  | nil => rfl
  | cons a rest ih =>
    unfold persistActions
    rw [List.filterMap_cons, logCall?]
    split
    next => exact ih
    next =>
      cases hrow : a.row? storage with
      | none => exact ih
      | some row =>
        rw [Option.map_some, Journal.writeAll]
        dsimp only
        cases j.write (.action s a.type row) with
        | mk answer j' =>
          cases answer with
          | error f => rfl
          | ok done => exact ih

theorem persist_eq (habort : c.abortRequested s = false) {j : Journal} :
    persist s c.tick.1 (c.tx s).actions c.storage j = j.writeAll (c.commitCalls s) := by
  unfold persist commitCalls
  dsimp only
  rw [habort, Bool.false_or]
  split
  next => rfl
  next =>
    rw [Journal.writeAll_append, ← persistActions_eq]
    generalize persistActions s _ c.storage (c.tx s).actions j = written
    obtain ⟨answer, j'⟩ := written
    cases answer with
    | error f => rfl
    | ok done => exact Journal.writeAll_singleton.symm

/-- A commit that fails in the log has made its calls up to the one that fails, and is taken back. -/
theorem commit_of_stopsAt (h : c.journal.StopsAt (c.commitCalls s) k f) :
    c.abortRequested s = false ∧ (c.tx s).actions ≠ [] ∧ ∃ journal : Journal,
      journal.calls = c.journal.calls + k + 1 ∧
      c.commit s = (.error (.fatalStore f.message), { c.tick.2 with journal }.rollback s) := by
  have hsome : ¬(c.abortRequested s || (c.tx s).actions.isEmpty) = true := by
    intro hnone
    obtain ⟨call, hcall, -⟩ := h.fails
    unfold commitCalls at hcall
    dsimp only at hcall
    rw [if_pos hnone] at hcall
    cases hcall
  obtain ⟨habort, hactions⟩ : c.abortRequested s = false ∧ (c.tx s).actions ≠ [] := by
    simpa using hsome
  obtain ⟨hanswer, hcount⟩ := h.writeAll
  rw [← persist_eq habort] at hanswer hcount
  obtain ⟨journal, hlog⟩ : ∃ journal,
      persist s c.tick.1 (c.tx s).actions c.storage c.journal = (.error f, journal) :=
    ⟨_, Prod.ext hanswer rfl⟩
  rw [hlog] at hcount
  have hlogged : persist s c.tick.1 (c.tick.2.tx s).actions c.tick.2.storage c.tick.2.journal =
      (.error f, journal) := hlog
  refine ⟨habort, hactions, journal, hcount, ?_⟩
  unfold commit
  rw [if_neg (by rw [habort]; exact Bool.false_ne_true)]
  dsimp only
  rw [hlogged]

/-- What is left of a transaction that is taken back: nothing is made final, its session keeps
nothing, one transaction less is open, and who waits still has to or has all that it asked for. -/
structure TakenBack (s : SessionId) (c c' : Coordinator) : Prop where
  unfinished : c.storage.Adds (fun k => ∃ row type, k.2 = .rollback row type) c'.storage
  unowned : ∀ row, c'.owners.owner? row ≠ some s
  unlocked : ∀ t, c'.locks.mode? s t = none
  isOpen : (c'.tx s).isOpen = false
  actions : (c'.tx s).actions = []
  savepoints : (c'.tx s).savepoints = []
  openCount : c'.openCount + 1 = c.openCount
  waiters : ∀ y r, y ≠ s → c.locks.awaited? y = some r →
    (c'.locks.awaited? y = some r ∧ (c'.locks.blockers y).isEmpty = false) ∨
    (c'.locks.awaited? y = none ∧ c'.locks.holdsAll y r = true ∧
      (y ∈ c.registered → (c'.tx y).signals.latch = (c.tx y).signals.latch - 1))

/-- A waiter is left behind somebody, or it gets all that it asked for and is woken. -/
theorem Spares.waiter (hspares : Spares y c c') (h : c.locks.Settled) (h' : c'.locks.Settled)
    (hr : c.locks.awaited? y = some r) :
    (c'.locks.awaited? y = some r ∧ (c'.locks.blockers y).isEmpty = false) ∨
    (c'.locks.awaited? y = none ∧ c'.locks.holdsAll y r = true ∧
      (y ∈ c.registered → (c'.tx y).signals.latch = (c.tx y).signals.latch - 1)) := by
  have hcoherent := h.toCoherent
  obtain ⟨n, w, hq, rfl⟩ := LockTable.awaited?_eq_some.mp hr
  rcases hspares.served hcoherent n w hq with hstill | hall
  · obtain ⟨z, hz⟩ := h'.allBlocked y n w hstill
    exact Or.inl ⟨LockTable.awaited?_eq_some.mpr ⟨n, w, hstill, rfl⟩,
      Bool.eq_false_iff.mpr fun hempty => IdSet.isEmpty_iff.mp hempty z hz⟩
  · have hout (m : Nat) (v : Waiter) : ¬c'.locks.Queued y m v := by
      intro hv
      obtain ⟨-, rfl⟩ := hq.unique (hspares.queued hcoherent m v hv)
      have hmore := h'.unserved y m w hv
      rw [hall] at hmore
      cases hmore
    have hwaits : c.locks.isWaiting y = true := hcoherent.isWaiting_iff.mpr ⟨n, w, hq⟩
    have hleft : c'.locks.isWaiting y = false := h'.isWaiting_eq_false.mpr hout
    refine Or.inr ⟨Option.eq_none_iff_forall_not_mem.mpr fun q hr => ?_, hall, fun hy => ?_⟩
    · obtain ⟨m, v, hv, -⟩ := LockTable.awaited?_eq_some.mp hr
      exact hout m v hv
    · have hwakes := hspares.wakes hcoherent hy
      unfold Wakes at hwakes
      rw [hwakes, if_pos ⟨hwaits, hleft⟩]

/-- If the log fails during a commit, everything is taken back. -/
theorem takenBack_of_stopsAt (hsettled : c.locks.Settled) (hbooked : c.Booked s)
    (hcounted : c.Counted) (h : c.journal.StopsAt (c.commitCalls s) k f) :
    c.TakenBack s (c.commit s).2 := by
  obtain ⟨habort, hactions, journal, -, hcommit⟩ := commit_of_stopsAt h
  obtain ⟨hends, hbooks⟩ := commit_books (s := s) hsettled.toCoherent
  have hfreed := hends hbooked habort
  have hopen := hbooked.isOpen hactions
  have hlast : LocksLast s (fun k => ∃ row type, k.2 = .rollback row type)
      { c.tick.2 with journal } ({ c.tick.2 with journal }.rollback s) :=
    rollback_last fun a _ row type => ⟨row, type, rfl⟩
  have hadds := hlast.adds
  have hbefore : ({ c.tick.2 with journal } : Coordinator).storage = c.storage := rfl
  have hafter : (c.commit s).2 = { c.tick.2 with journal }.rollback s := by rw [hcommit]
  refine ⟨?_, hfreed.owned, hfreed.unlocked, hfreed.isOpen, hfreed.actions, ?_, ?_, fun y r hy hr => ?_⟩
  · rw [hafter, ← hbefore]
    exact hadds
  · rw [hafter]
    exact savepoints_rollback
  · have htally := hbooks.tallies fun hopen => hcounted.pos hopen
    rw [hopen, hfreed.isOpen, Bool.toNat_true, Bool.toNat_false] at htally
    exact htally
  · exact (spares_commit hy).waiter hsettled (steady_commit.settled hsettled) hr

end Coordinator

namespace Database

variable {db : Database} {l : Ledger} {s : SessionId} {t : TableId} {m : IdMap Row}
  {moves : List Move} {c : Coordinator} {k : Nat} {f : Failure}

/-- When the transaction is taken back, a table that it owns is as committed. -/
theorem Owns.contents_of_takenBack (ho : db.Owns l s t m) (h : c.InStep (l.note s .empty none)) :
    c.storage.contents t = .ofRows m := by
  have hrows : (l.note s .empty none).rows t = m := ho.rows
  have hnone (y : SessionId) : Change.onTable t ((l.note s .empty none).draft y).changes = [] := by
    by_cases hy : y = s
    · rw [hy, Ledger.draft_note_self]
      rfl
    · rw [Ledger.draft_note_of_ne hy]
      exact ho.alone hy
  rw [h.contents_of_nil hnone, hrows]

/-- A failed commit leaves the tables that the transaction owns as committed. -/
theorem Owns.contents_of_stopsAt (ho : db.Owns l s t m)
    (h : db.coordinator.journal.StopsAt (db.coordinator.commitCalls s) k f) :
    (db.coordinator.commit s).2.storage.contents t = .ofRows m := by
  obtain ⟨-, -, journal, -, hcommit⟩ := commit_of_stopsAt h
  have hagree := ho.faithful.coherent.toHoldersAgree
  have hstarted : ({ db.coordinator.tick.2 with journal } : Coordinator).InStep l :=
    ho.faithful.inStep.of_eq rfl (fun _ => rfl) rfl (Nat.le_of_lt db.coordinator.clock.lt_tick)
  have hrolled := hstarted.rollback (s := s) hagree
  rw [hcommit]
  exact ho.contents_of_takenBack hrolled

/-- Whichever call on the log a commit fails at, it makes no other one and answers the failure of the
log, nothing of the transaction is left, and every table that it has written, among them those of its
log, is as before its first write. -/
theorem failed_commit_takes_back {settings : Settings} {journal : Journal}
    (hopen : openWith? settings journal = .ok db) (hinside : db.RunsInside moves)
    (hc : c = (db.run moves).coordinator) (hstops : c.journal.StopsAt (c.commitCalls s) k f) :
    (c.commit s).1 = .error (.fatalStore f.message) ∧
    (c.commit s).2.journal.calls = c.journal.calls + k + 1 ∧ c.TakenBack s (c.commit s).2 ∧
    (∀ a ∈ (c.tx s).actions, ∃ before write during, moves = before ++ write :: during ∧
      db.FirstWrite s a.store before write during) ∧
    ∀ t before write during, moves = before ++ write :: during →
      db.FirstWrite s t before write during →
        (c.commit s).2.storage.scan t = (db.run before).coordinator.storage.scan t ∧
        ∀ p, (c.commit s).2.storage.get? t p = (db.run before).coordinator.storage.get? t p := by
  have hstart : db.Standing := by
    rw [openWith?_eq hopen]
    exact standing_fresh settings journal
  have hstanding := hstart.run moves
  have hfaithful := faithful_openWith hopen
  obtain ⟨-, -, journal', hcalls, hcommit⟩ := commit_of_stopsAt hstops
  refine ⟨by rw [hcommit], ?_, ?_, fun a ha => ?_, ?_⟩
  · rw [hcommit, rollback_journal]
    exact hcalls
  · subst hc
    exact takenBack_of_stopsAt hstanding.settled (hstanding.booked s) hstanding.counted hstops
  · subst hc
    have hwitnessed : (db.ledger .empty moves).Witnessed (db.history moves) :=
      hfaithful.witnessed (h := []) nofun hinside
    have hcarries := (hfaithful.run hinside).inStep.carries s
    obtain ⟨k, hk, hnotes⟩ := exists_change_of_mem hcarries.logged.notes ha
    obtain ⟨i, kind, hkind, hlive⟩ := hwitnessed s k hk
    rw [hnotes.store]
    exact exists_firstWrite hkind hlive
  · intro t before write during hmoves hfirst
    subst hmoves hc
    obtain ⟨l, m, howns, hbefore⟩ := hfirst.owns hfaithful hinside
    have hsame := (howns.contents_of_stopsAt hstops).trans hbefore.symm
    exact ⟨by rw [Storage.scan_eq, Storage.scan_eq, hsame],
      fun p => by rw [Storage.get?_eq, Storage.get?_eq, hsame]⟩

/-- Session 1 is about to insert a row. -/
def aboutToInsert : List Move :=
  [.createTable "t" false, .connect, .connect, .call 1 (.setAutocommit false),
    .call 1 (.execute ⟨.write [1], fun _ => .insert 1 [] fun _ => .done ⟨1, []⟩⟩)] ++
  List.replicate 3 (.advance 1)

/-- Session 1 has inserted its row, session 2 waits to read the table, and session 1 is told to
commit. -/
def waitedForToCommit : List Move :=
  List.replicate 3 (.advance 1) ++
  [.call 2 (.execute ⟨.read [1], fun _ => .scan 1 fun _ => .done ⟨0, []⟩⟩), .advance 2, .advance 2,
    .call 1 .commit]

theorem failed_commit_takes_back_waitedForToCommit : ∃ db c,
    openWith? .default ⟨[], 0, failsAt 1⟩ = .ok db ∧
    c = (db.run (aboutToInsert ++ .advance 1 :: waitedForToCommit)).coordinator ∧
    c.journal.StopsAt (c.commitCalls 1) 1 (.io "log commit failed") ∧
    (c.commit 1).1 = .error (.fatalStore (Failure.io "log commit failed").message) ∧
    c.TakenBack 1 (c.commit 1).2 ∧ (c.commit 1).2.locks.holdsAll 2 (.read [1]) = true ∧
    (c.commit 1).2.storage.scan 1 = (db.run aboutToInsert).coordinator.storage.scan 1 := by
  obtain ⟨db, hopen⟩ : ∃ db, openWith? .default ⟨[], 0, failsAt 1⟩ = .ok db := ⟨_, rfl⟩
  have hdb := openWith?_eq hopen
  have hinside : db.RunsInside (aboutToInsert ++ .advance 1 :: waitedForToCommit) := by
    rw [hdb]
    decide
  obtain ⟨c, hc⟩ : ∃ c, c = (db.run (aboutToInsert ++ .advance 1 :: waitedForToCommit)).coordinator :=
    ⟨_, rfl⟩
  have hcalls : c.commitCalls 1 = [.action 1 .insert ⟨1, 1, 1, []⟩, .commit 1 2] ∧
      c.journal.calls = 0 := by
    rw [hc, hdb]
    decide
  have hfaults : c.journal.faults = failsAt 1 := by
    rw [hc, hdb]
    rfl
  have hstops : c.journal.StopsAt (c.commitCalls 1) 1 (.io "log commit failed") := by
    rw [hcalls.1]
    refine ⟨⟨.commit 1 2, rfl, ?_⟩, fun i hi call hcall => ?_⟩
    · rw [hfaults, hcalls.2]
      rfl
    · obtain rfl : i = 0 := by omega
      rw [hfaults, hcalls.2]
      rfl
  have hfirst : db.FirstWrite 1 1 aboutToInsert (.advance 1) waitedForToCommit := by
    have hhistory : db.history aboutToInsert = [] := by
      rw [hdb]
      decide
    refine ⟨⟨.insert, rfl, ?_⟩, fun i earlier hlive => ?_, ?_⟩
    · rw [hdb]
      decide
    · rw [hhistory] at hlive
      cases hlive.1
    · rw [hdb]
      decide
  obtain ⟨hanswer, -, htaken, -, htables⟩ := failed_commit_takes_back hopen hinside hc hstops
  have hwaits : c.locks.awaited? 2 = some (.read [1]) := by
    rw [hc, hdb]
    decide
  have hfree : (c.commit 1).2.locks.awaited? 2 = none := by
    rw [hc, hdb]
    decide
  have hserved : (c.commit 1).2.locks.holdsAll 2 (.read [1]) = true := by
    rcases htaken.waiters 2 (.read [1]) (by decide) hwaits with ⟨hstill, -⟩ | ⟨-, hall, -⟩
    · rw [hfree] at hstill
      cases hstill
    · exact hall
  obtain ⟨hscan, -⟩ := htables 1 aboutToInsert (.advance 1) waitedForToCommit rfl hfirst
  exact ⟨db, c, hopen, hc, hstops, hanswer, htaken, hserved, hscan⟩

end Database

end LockingDb
