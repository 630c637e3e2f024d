import LockingDb.Proofs.LogReplay

namespace LockingDb

open Change

/-- A commit in the log with the inserts and deletes that are taken for its own. -/
structure Batch where
  session : SessionId
  time : Timestamp
  records : List LogRecord
  deriving DecidableEq

/-- The batch that a commit should have. -/
def Commit.batch (k : Commit) : Batch :=
  ⟨k.session, k.time, (net k.changes).map (Change.record k.session)⟩

/-- A log that has been read to some point: the entries that wait for the next commit of their
session, and the batches so far. -/
structure LogReading where
  waiting : IdMap (List LogRecord)
  batches : List Batch

namespace LogReading

def start : LogReading := ⟨∅, []⟩

def ofSession (g : LogReading) (s : SessionId) : List LogRecord := (g.waiting.get? s).getD []

def wait (g : LogReading) (s : SessionId) (r : LogRecord) : LogReading :=
  { g with waiting := g.waiting.insert s (g.ofSession s ++ [r]) }

def read (g : LogReading) (r : LogRecord) : LogReading :=
  match r with
  | .insert s _ _ _ | .delete s _ _ => g.wait s r
  | .commit s now => ⟨g.waiting.erase s, g.batches ++ [⟨s, now, g.ofSession s⟩]⟩
  | .statement _ _ | .checkpoint => g

/-- Each insert and delete of a log goes to the next commit of its session. -/
def ofLog (rs : List LogRecord) : LogReading := rs.foldl read start

variable {g : LogReading} {s y : SessionId} {now : Timestamp} {k : Change} {ks : List Change}
  {r : LogRecord}

theorem ofSession_wait : (g.wait s r).ofSession y =
    if y = s then g.ofSession s ++ [r] else g.ofSession y := by
  unfold ofSession wait
  rw [IdMap.get?_insert]
  split <;> rfl

theorem read_record : g.read (k.record s) = g.wait s (k.record s) := by
  cases k <;> rfl

theorem ofSession_commit : (g.read (.commit s now)).ofSession y =
    if y = s then [] else g.ofSession y := by
  unfold read ofSession
  rw [IdMap.get?_erase]
  split <;> rfl

/-- Inserts and deletes of a session wait behind its older ones. -/
theorem foldl_read_records (ks : List Change) :
    ((ks.map (Change.record s)).foldl read g).batches = g.batches ∧
      ∀ y, ((ks.map (Change.record s)).foldl read g).ofSession y =
        g.ofSession y ++ if y = s then ks.map (Change.record s) else [] := by
  induction ks generalizing g with
  | nil => exact ⟨rfl, fun y => by rw [List.map_nil, ite_self, List.append_nil]; rfl⟩
  | cons k ks ih =>
    obtain ⟨hbatches, hwaiting⟩ := ih (g := g.wait s (k.record s))
    rw [List.map_cons, List.foldl_cons, read_record]
    refine ⟨hbatches, fun y => ?_⟩
    rw [hwaiting, ofSession_wait]
    split
    next hy => rw [hy, List.append_assoc, List.singleton_append]
    next => rfl

theorem foldl_read_block {k : Commit} (hsome : k.changes ≠ []) :
    (k.block.foldl read g).batches = g.batches ++
        [⟨k.session, k.time, g.ofSession k.session ++ k.batch.records⟩] ∧
      ∀ y, (k.block.foldl read g).ofSession y =
        if y = k.session then [] else g.ofSession y := by
  obtain ⟨hbatches, hwaiting⟩ := foldl_read_records (g := g) (s := k.session) (net k.changes)
  unfold Commit.block
  rw [if_neg hsome, List.foldl_append, List.foldl_cons, List.foldl_nil]
  refine ⟨?_, fun y => ?_⟩
  · show _ ++ [_] = _
    rw [hbatches, hwaiting, if_pos rfl]
    rfl
  · rw [ofSession_commit, hwaiting]
    split
    next => rfl
    next => exact List.append_nil _

end LogReading

/-- The commits that leave something in the log. -/
def Ledger.written (l : Ledger) : List Commit := l.commits.filter (·.changes ≠ [])

/-- What is taken back by an event, with the session that has done it. -/
def Ledger.undoneBy (l : Ledger) : Option Event → List (SessionId × List Change)
  | some (.rolledBack s) => [(s, (l.draft s).changes)]
  | _ => []

/-- The changes that are taken back by the rollbacks of a run. -/
def Database.undone (db : Database) (l : Ledger) : List Move → List (SessionId × List Change)
  | [] => []
  | m :: rest => l.undoneBy (db.observe m) ++ (db.perform m).undone (db.record l m) rest

/-- An entry of the log that a transaction of the session may have left that was rolled back. -/
def LeftBehind (us : List (SessionId × List Change)) (s : SessionId) (r : LogRecord) : Prop :=
  ∃ ks, (s, ks) ∈ us ∧ r ∈ (net ks).map (Change.record s)

/-- The batch of a commit ends with the changes of its transaction, and what stands before was left
behind. -/
structure Batch.EndsWith (us : List (SessionId × List Change)) (k : Commit) (b : Batch) : Prop where
  session : b.session = k.session
  time : b.time = k.time
  records : ∃ left, b.records = left ++ k.batch.records ∧ ∀ r ∈ left, LeftBehind us k.session r

namespace LogReading

variable {g : LogReading} {s : SessionId} {k : Commit} {ks : List Commit}
  {us us' : List (SessionId × List Change)}

/-- What is read of a log fits the commits and rollbacks so far. -/
structure Fits (g : LogReading) (ks : List Commit) (us : List (SessionId × List Change)) : Prop where
  batches : List.Forall₂ (Batch.EndsWith us) ks g.batches
  waiting : ∀ s, ∀ r ∈ g.ofSession s, LeftBehind us s r

theorem Fits.mono (h : g.Fits ks us) (hsub : us ⊆ us') : g.Fits ks us' := by
  have hmore {s : SessionId} {r : LogRecord} (hr : LeftBehind us s r) : LeftBehind us' s r := by
    obtain ⟨js, hjs, hr⟩ := hr
    exact ⟨js, hsub hjs, hr⟩
  refine ⟨h.batches.imp fun k b hb => ⟨hb.session, hb.time, ?_⟩, fun s r hr => hmore (h.waiting s r hr)⟩
  obtain ⟨left, heq, hleft⟩ := hb.records
  exact ⟨left, heq, fun r hr => hmore (hleft r hr)⟩

theorem Fits.commit (h : g.Fits ks us) (hsome : k.changes ≠ []) :
    (k.block.foldl read g).Fits (ks ++ [k]) us := by
  obtain ⟨hbatches, hwaiting⟩ := foldl_read_block (g := g) hsome
  refine ⟨?_, fun y r hr => ?_⟩
  · rw [hbatches]
    exact List.rel_append h.batches
      (.cons ⟨rfl, rfl, g.ofSession k.session, rfl, h.waiting k.session⟩ .nil)
  · rw [hwaiting] at hr
    split at hr
    next => cases hr
    next => exact h.waiting y r hr

theorem Fits.rollback {js : List Change} {left : List LogRecord} (h : g.Fits ks us)
    (hleft : left <+: (net js).map (Change.record s)) :
    (left.foldl read g).Fits ks (us ++ [(s, js)]) := by
  have hmore := h.mono (List.subset_append_left us [(s, js)])
  have htake : left = ((net js).take left.length).map (Change.record s) := by
    rw [List.map_take]
    exact List.prefix_iff_eq_take.mp hleft
  obtain ⟨hbatches, hwaiting⟩ := foldl_read_records (g := g) (s := s) ((net js).take left.length)
  rw [← htake] at hbatches hwaiting
  refine ⟨hbatches ▸ hmore.batches, fun y r hr => ?_⟩
  rw [hwaiting] at hr
  rcases List.mem_append.mp hr with hold | hnew
  · exact hmore.waiting y r hold
  · split at hnew
    next hy =>
      subst hy
      exact ⟨js, List.mem_append_right us (List.mem_singleton_self _), hleft.subset hnew⟩
    next => cases hnew

/-- The batches of blocks are those of the commits, and nothing is left to wait. -/
theorem ofLog_blocks (ks : List Commit) :
    (ofLog (ks.flatMap Commit.block)).batches = (ks.filter (·.changes ≠ [])).map Commit.batch ∧
      ∀ y, (ofLog (ks.flatMap Commit.block)).ofSession y = [] := by
  induction ks using List.reverseRecOn with
  | nil => exact ⟨rfl, fun _ => rfl⟩
  | append_singleton ks k ih =>
    obtain ⟨hbatches, hwaiting⟩ := ih
    rw [List.flatMap_append, List.flatMap_singleton, ofLog, List.foldl_append, ← ofLog]
    by_cases hnone : k.changes = []
    · have hblock : k.block = [] := if_pos hnone
      rw [hblock, List.filter_append, List.filter_cons_of_neg (by simpa using hnone), List.filter_nil,
        List.append_nil]
      exact ⟨hbatches, hwaiting⟩
    · obtain ⟨hlast, hrest⟩ := foldl_read_block (g := ofLog (ks.flatMap Commit.block)) hnone
      refine ⟨?_, fun y => ?_⟩
      · rw [hlast, hbatches, hwaiting, List.filter_append,
          List.filter_cons_of_pos (by simpa using hnone), List.filter_nil, List.map_append]
        rfl
      · rw [hrest, hwaiting, ite_self]

end LogReading

/-- Nothing is lost with the commits that leave nothing in the log. -/
theorem flatMap_records (ks : List Commit) :
    ((ks.filter (·.changes ≠ [])).map Commit.batch).flatMap Batch.records =
      ks.flatMap fun k => k.batch.records := by
  induction ks with
  | nil => rfl
  | cons k ks ih =>
    by_cases hnone : k.changes = []
    · have hrecords : k.batch.records = [] := by
        unfold Commit.batch
        rw [hnone]
        rfl
      rw [List.filter_cons_of_neg (by simpa using hnone), List.flatMap_cons, hrecords, ih]
      rfl
    · rw [List.filter_cons_of_pos (by simpa using hnone), List.map_cons, List.flatMap_cons,
        List.flatMap_cons, ih]

/-- The batches of the commits redo the committed rows. -/
theorem Ledger.replay_batches {l : Ledger} {t : TableId} :
    LogRecord.replay t ((l.written.map Commit.batch).flatMap Batch.records) =
      (l.rows t).map Row.values := by
  have hfold (m : IdMap Row) (ks : List Commit) :
      (ks.flatMap fun k => k.batch.records).foldl (LogRecord.redo t) (m.map Row.values) =
        (m.changeAll (onTable t (ks.flatMap fun k => net k.changes))).map Row.values := by
    induction ks generalizing m with
    | nil => rfl
    | cons k ks ih =>
      rw [List.flatMap_cons, List.foldl_append, Commit.batch, LogRecord.foldl_redo_records, ih,
        ← IdMap.changeAll_append, ← onTable_append, List.flatMap_cons]
  have hempty : (∅ : IdMap Row).map Row.values = ∅ := rfl
  unfold LogRecord.replay written
  rw [flatMap_records, ← hempty, hfold]
  rfl

namespace Database

variable {db db' : Database} {l l' : Ledger} {e : Option Event} {us : List (SessionId × List Change)}

theorem Follows.fits (hf : db.Follows l e db' l')
    (h : (LogReading.ofLog db.coordinator.journal.entries).Fits l.written us) :
    (LogReading.ofLog db'.coordinator.journal.entries).Fits l'.written (us ++ l.undoneBy e) := by
  have hlogged := hf.logged
  have hwritten : l'.written = l.written ++ (l.commitsOf e).filter (·.changes ≠ []) := by
    unfold Ledger.written
    rw [hf.commits, List.filter_append]
  have hsame (hentries : db'.coordinator.journal.entries = db.coordinator.journal.entries)
      (hnone : l'.written = l.written) : (LogReading.ofLog db'.coordinator.journal.entries).Fits
        l'.written (us ++ []) := by
    rw [hentries, hnone, List.append_nil]
    exact h
  cases e with
  | none => exact hsame hlogged (hwritten.trans (List.append_nil _))
  | some event =>
    cases event with
    | access a => exact hsame hlogged (hwritten.trans (List.append_nil _))
    | committed s now =>
      by_cases hnone : (l.draft s).changes = []
      · have hblock : Commit.block ⟨s, now, (l.draft s).changes⟩ = [] := if_pos hnone
        refine hsame (hlogged.trans ?_) (hwritten.trans ?_)
        · rw [hblock, List.append_nil]
        · simp [Ledger.commitsOf, hnone]
      · have hcommit := h.commit (k := ⟨s, now, (l.draft s).changes⟩) hnone
        have hlast : l'.written = l.written ++ [⟨s, now, (l.draft s).changes⟩] := by
          rw [hwritten]
          simp [Ledger.commitsOf, hnone]
        rw [hlogged, hlast, LogReading.ofLog, List.foldl_append]
        show LogReading.Fits _ _ (us ++ [])
        rw [List.append_nil]
        exact hcommit
    | rolledBack s =>
      obtain ⟨left, hleft, hentries, -⟩ := hlogged
      have hlast : l'.written = l.written := hwritten.trans (List.append_nil _)
      rw [hentries, hlast, LogReading.ofLog, List.foldl_append]
      exact h.rollback hleft

theorem Faithful.fits {moves : List Move} (hf : db.Faithful l) (hm : db.RunsInside moves)
    (h : (LogReading.ofLog db.coordinator.journal.entries).Fits l.written us) :
    (LogReading.ofLog (db.run moves).coordinator.journal.entries).Fits (db.ledger l moves).written
      (us ++ db.undone l moves) := by
  induction moves generalizing db l us with
  | nil => rwa [undone, List.append_nil]
  | cons m rest ih =>
    obtain ⟨hinside, hnext, hrest⟩ := hm
    have hfollows := hf.perform hinside hnext
    have hafter := ih hfollows.faithful hrest (hfollows.fits h)
    rw [List.append_assoc] at hafter
    exact hafter

/-- However the log fails, a commit in it stands for the changes of its transaction, and else only for
what the same session has left behind by rollbacks. If no rollback leaves anything, the commits stand
for exactly their own changes, and to redo these gives the rows that are visible when all open
transactions are rolled back. -/
theorem batches_end_with_commits {settings : Settings} {faults : Nat → LogCall → Option Failure}
    {moves : List Move} (hopen : openWith? settings ⟨[], 0, faults⟩ = .ok db)
    (hinside : db.RunsInside moves) :
    List.Forall₂ (Batch.EndsWith (db.undone .empty moves)) (db.ledger .empty moves).written
        (LogReading.ofLog (db.run moves).coordinator.journal.entries).batches ∧
      (db.RollsBackCleanly moves →
        (LogReading.ofLog (db.run moves).coordinator.journal.entries).batches =
            (db.ledger .empty moves).written.map Commit.batch ∧
          ∀ ss : List SessionId,
            (∀ s, ((db.run moves).coordinator.tx s).isOpen = true → s ∈ ss) → ∀ t,
              (LogRecord.replay t ((LogReading.ofLog
                (db.run moves).coordinator.journal.entries).batches.flatMap Batch.records)).entries =
                  (((db.run moves).coordinator.rollbackAll ss).storage.scan t).map
                    fun row => (row.position, row.values)) := by
  have hstart := faithful_openWith hopen
  have hdb := openWith?_eq hopen
  have hempty : db.coordinator.journal.entries = [] := by
    rw [hdb]
    rfl
  have hfits : (LogReading.ofLog db.coordinator.journal.entries).Fits Ledger.empty.written [] := by
    rw [hempty]
    exact ⟨.nil, nofun⟩
  refine ⟨(hstart.fits hinside hfits).batches, fun hclean => ?_⟩
  have hentries := hstart.entries hinside hclean hempty
  have hbatches : (LogReading.ofLog (db.run moves).coordinator.journal.entries).batches =
      (db.ledger .empty moves).written.map Commit.batch := by
    rw [hentries]
    exact (LogReading.ofLog_blocks _).1
  refine ⟨hbatches, fun ss hall t => ?_⟩
  have hfaithful := hstart.run hinside
  rw [hbatches, Ledger.replay_batches]
  exact hfaithful.inStep.committed_rows hfaithful.coherent hall t

/-- The call of the given number fails, and no other one. -/
def failsAt (n : Nat) : Nat → LogCall → Option Failure := fun m call =>
  if m = n then some (.io ("log " ++ call.name ++ " failed")) else none

/-- Session 1 inserts a row, and then another one in a transaction of its own. -/
def insertTwice : List Move :=
  [.createTable "t" false, .connect,
    .call 1 (.execute ⟨.write [1], fun _ => .insert 1 [] fun _ => .done ⟨1, []⟩⟩)] ++
  List.replicate 8 (.advance 1) ++
  [.call 1 (.execute ⟨.write [1], fun _ => .insert 1 [] fun _ => .done ⟨1, []⟩⟩)] ++
  List.replicate 8 (.advance 1)

/-- The first commit fails before it has written anything. -/
theorem batches_end_with_commits_insertTwice : ∃ db,
    openWith? .default ⟨[], 0, failsAt 0⟩ = .ok db ∧ db.RunsInside insertTwice ∧
    db.RollsBackCleanly insertTwice ∧ db.undone .empty insertTwice = [(1, [.insert ⟨1, 1, 1, []⟩])] ∧
    (LogReading.ofLog (db.run insertTwice).coordinator.journal.entries).batches =
      [⟨1, 5, [.insert 1 1 2 []]⟩] := by
  obtain ⟨db, hopen⟩ : ∃ db, openWith? .default ⟨[], 0, failsAt 0⟩ = .ok db := ⟨_, rfl⟩
  have hdb := openWith?_eq hopen
  have hinside : db.RunsInside insertTwice := by
    rw [hdb]
    decide
  have hclean : db.RollsBackCleanly insertTwice := by
    rw [hdb]
    decide
  have hundone : db.undone .empty insertTwice = [(1, [.insert ⟨1, 1, 1, []⟩])] := by
    rw [hdb]
    decide
  have hwritten : (db.ledger .empty insertTwice).written.map Commit.batch =
      [⟨1, 5, [.insert 1 1 2 []]⟩] := by
    rw [hdb]
    decide
  obtain ⟨-, hexact⟩ := batches_end_with_commits hopen hinside
  exact ⟨db, hopen, hinside, hclean, hundone, (hexact hclean).1.trans hwritten⟩

/-- The first commit fails after it has written its insert, which the second one then stands for. -/
theorem failed_commit_is_redone : ¬∀ (db : Database) (faults : Nat → LogCall → Option Failure)
    (moves : List Move), openWith? .default ⟨[], 0, faults⟩ = .ok db → db.RunsInside moves →
      (LogReading.ofLog (db.run moves).coordinator.journal.entries).batches =
        (db.ledger .empty moves).written.map Commit.batch := by
  intro h
  obtain ⟨db, hopen⟩ : ∃ db, openWith? .default ⟨[], 0, failsAt 1⟩ = .ok db := ⟨_, rfl⟩
  have hdb := openWith?_eq hopen
  have hinside : db.RunsInside insertTwice := by
    rw [hdb]
    decide
  have hbatches : (LogReading.ofLog (db.run insertTwice).coordinator.journal.entries).batches =
      [⟨1, 5, [.insert 1 1 1 [], .insert 1 1 2 []]⟩] := by
    rw [hdb]
    decide
  have hwritten : (db.ledger .empty insertTwice).written.map Commit.batch =
      [⟨1, 5, [.insert 1 1 2 []]⟩] := by
    rw [hdb]
    decide
  have hsame := h db (failsAt 1) insertTwice hopen hinside
  rw [hbatches, hwritten] at hsame
  cases hsame

end Database

end LockingDb
