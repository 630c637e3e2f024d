import LockingDb.Proofs.SessionLedger

namespace LockingDb

open Coordinator Change

namespace Coordinator

variable {c c' : Coordinator} {s : SessionId} {r : LockRequest} {l : Ledger} {d : Draft}
  {t : TableId} {k : Change}

theorem Writes.busy (hw : Writes s c l d c') (hb : c.Busy s r (l.draft s))
    (hd : d = l.draft s ∨ ∃ k, d = (l.draft s).add k) : c'.Busy s r d := by
  have hsame : c'.Busy s r (l.draft s) :=
    hb.of_same (fun ho => hw.isOpen.trans ho) (hw.locks ▸ .refl s c.locks) hw.statementStart
  rcases hd with rfl | ⟨k, rfl⟩
  · exact hsame
  · exact ⟨hsame.isOpen, hsame.holdsAll, hsame.inStatement.add rfl⟩

theorem Writes.marked (hw : Writes s c l d c') (hm : (l.draft s).Marked (c.tx s))
    (hd : d = l.draft s ∨ ∃ k, d = (l.draft s).add k) : d.Marked (c'.tx s) := by
  have hsame : (l.draft s).Marked (c'.tx s) := hm.of_savepoints hw.savepoints
  rcases hd with rfl | ⟨k, rfl⟩
  · exact hsame
  · exact hsame.add

theorem writable_of_insertInto {values : List Value} {position : RowPosition}
    (h : (c.insertInto s r t values).1 = .ok position) : (c.writable r t).isOk = true := by
  unfold Coordinator.insertInto at h
  split at h
  next => cases h
  next hwritable =>
    rw [hwritable]
    rfl

theorem writable_of_deleteAt {position : RowPosition} (h : (c.deleteAt s r t position).1 = .ok ()) :
    (c.writable r t).isOk = true := by
  unfold Coordinator.deleteAt at h
  split at h
  next => cases h
  next hwritable =>
    rw [hwritable]
    rfl

theorem mem_scan_of_deletable {test : Row → Bool} {rows : List Row} {row : Row}
    (h : c.deletable s r t test = .ok rows) (hrow : row ∈ rows) : row ∈ c.storage.scan t := by
  unfold deletable at h
  split at h
  next => cases h
  next =>
    dsimp only at h
    split at h
    next => cases h
    next =>
      cases h
      exact (List.mem_filter.mp hrow).1

theorem get?_recordDelete {row : Row} {p : RowPosition} :
    (c.recordDelete s t row).2.storage.get? t p = c.storage.get? t p := by
  have hcall : (c.storage.call t (.delete row)).2.get? t p = c.storage.get? t p :=
    Storage.get?_call_delete
  unfold Coordinator.recordDelete
  split
  next => rfl
  next =>
    generalize c.storage.call t (.delete row) = called at hcall
    obtain ⟨answer, storage⟩ := called
    cases answer <;> exact hcall

end Coordinator

namespace Session

variable {s y : SessionId} {c c' : Coordinator} {x x' : Session} {e : Option Event} {l : Ledger}
  {d : Draft} {t : TableId}

theorem engaged_of_open (hclosed : x.closed = false) (hmarked : d.Marked (c.tx s))
    (hatWork : x.AtWork s c d) : x.Engaged s c d := by
  refine ⟨fun hc => ?_, fun _ => hmarked, hatWork⟩
  rw [hclosed] at hc
  cases hc

theorem Engaged.open (h : x.Engaged s c d) (hactive : x.activity ≠ .idle) : x.closed = false :=
  Bool.eq_false_iff.mpr fun hc => hactive (h.resting hc)

theorem goesOn_map {a : Option Access} : GoesOn (a.map .access) := by
  intro event hevent
  obtain ⟨a, -, rfl⟩ := Option.map_eq_some_iff.mp hevent
  exact ⟨a, rfl⟩

section Body

variable (h : c.InStep l) (hagree : c.locks.HoldersAgree) (hclosed : x.closed = false)
  (hmarked : (l.draft s).Marked (c.tx s)) (hb : c.Busy s x.statement.request (l.draft s))

include h hagree hclosed hmarked hb

theorem insert_tracks {values : List Value} {next : Except Failure RowPosition → StatementBody}
    (hactivity : x.activity = .running (.insert t values next))
    (hnext : (x.runBody s c (.insert t values next)).2.storage.nextRow ≠ 0) :
    Tracks s c l ((x.access? s c (.insert t values next)).map .access)
      (x.runBody s c (.insert t values next)).1 (x.runBody s c (.insert t values next)).2
      (x.redraft s c (l.draft s)) := by
  have hw := h.insertInto hagree (fun _ ht => hb.written ht) hb.isOpen hnext
  have hothers (y : SessionId) (hy : y ≠ s) :
      Spares y c (c.insertInto s x.statement.request t values).2 := spares_insertInto hy
  have hproceeds : Proceeds s c (c.insertInto s x.statement.request t values).2 :=
    proceeds_insertInto
  have hcovered := hproceeds.covered
  have hwritable (position : RowPosition) :
      (c.insertInto s x.statement.request t values).1 = .ok position →
        (c.writable x.statement.request t).isOk = true := writable_of_insertInto
  simp only [redraft, hactivity, access?, runBody]
  generalize c.insertInto s x.statement.request t values = inserted at hw hothers hcovered hwritable
  obtain ⟨answer, c₁⟩ := inserted
  have hengaged (d : Draft) (hw : Writes s c l d c₁)
      (hd : d = l.draft s ∨ ∃ k, d = (l.draft s).add k) :
      (x.become (.running (next answer))).Engaged s c₁ d :=
    engaged_of_open hclosed (hw.marked hmarked hd) (hw.busy hb hd)
  cases answer with
  | error f => exact tracks_writes hothers hcovered hw goesOn_map (Or.inl rfl) (hengaged _ hw (Or.inl rfl))
  | ok position =>
    refine tracks_writes hothers hcovered hw goesOn_map (Or.inr ⟨_, rfl, .insert, rfl, ?_⟩)
      (hengaged _ hw (Or.inr ⟨_, rfl⟩))
    rw [hwritable position rfl]
    rfl

theorem delete_tracks {position : RowPosition} {next : Except Failure Unit → StatementBody}
    (hactivity : x.activity = .running (.delete t position next)) :
    Tracks s c l ((x.access? s c (.delete t position next)).map .access)
      (x.runBody s c (.delete t position next)).1 (x.runBody s c (.delete t position next)).2
      (x.redraft s c (l.draft s)) := by
  have hw : Writes s c l _ (c.deleteAt s x.statement.request t position).2 :=
    h.deleteAt hagree (fun _ ht => hb.written ht) hb.isOpen
  have hothers (y : SessionId) (hy : y ≠ s) :
      Spares y c (c.deleteAt s x.statement.request t position).2 := spares_deleteAt hy
  have hproceeds : Proceeds s c (c.deleteAt s x.statement.request t position).2 := proceeds_deleteAt
  have hcovered := hproceeds.covered
  have hwritable : (c.deleteAt s x.statement.request t position).1 = .ok () →
      (c.writable x.statement.request t).isOk = true := writable_of_deleteAt
  have htable (row : Row) (hrow : c.storage.get? t position = some row) : row.table = t :=
    (h.sound.placed t position row hrow).1
  simp only [redraft, hactivity, access?, runBody]
  generalize c.deleteAt s x.statement.request t position = deleted at hw hothers hcovered hwritable
  generalize c.storage.get? t position = found at hw htable
  obtain ⟨answer, c₁⟩ := deleted
  have hengaged (d : Draft) (hw : Writes s c l d c₁)
      (hd : d = l.draft s ∨ ∃ k, d = (l.draft s).add k) :
      (x.become (.running (next answer))).Engaged s c₁ d :=
    engaged_of_open hclosed (hw.marked hmarked hd) (hw.busy hb hd)
  cases found with
  | none =>
    exact tracks_writes hothers hcovered hw goesOn_map (Or.inl rfl) (hengaged _ hw (Or.inl rfl))
  | some row =>
    cases answer with
    | error f =>
      exact tracks_writes hothers hcovered hw goesOn_map (Or.inl rfl) (hengaged _ hw (Or.inl rfl))
    | ok done =>
      refine tracks_writes hothers hcovered hw goesOn_map (Or.inr ⟨_, rfl, .delete, rfl, ?_⟩)
        (hengaged _ hw (Or.inr ⟨_, rfl⟩))
      rw [hwritable rfl]
      show some _ = some (Event.access ⟨s, row.table, .delete⟩)
      rw [htable row rfl]

/-- A step of a body. -/
theorem runBody_tracks {body : StatementBody} (hactivity : x.activity = .running body)
    (hnext : (x.runBody s c body).2.storage.nextRow ≠ 0) :
    Tracks s c l ((x.access? s c body).map .access) (x.runBody s c body).1 (x.runBody s c body).2
      (x.redraft s c (l.draft s)) := by
  have hstay (activity : Activity) (hatWork : (x.become activity).AtWork s c (l.draft s))
      {a : Option Access} : Tracks s c l (a.map .access) (x.become activity) c (l.draft s) :=
    tracks_stay h hagree goesOn_map rfl (engaged_of_open hclosed hmarked hatWork)
  have hsignal (f : Signals → Signals) (next : StatementBody)
      (hproceeds : Proceeds s c (c.signal s f)) {a : Option Access} :
      Tracks s c l (a.map .access) (x.become (.running next)) (c.signal s f) (l.draft s) := by
    have hq : Quiet s c (c.signal s f) := quiet_signal
    have hstart : ((c.signal s f).tx s).statementStart = (c.tx s).statementStart := by
      rw [tx_signal_self]
    refine tracks_quiet h hagree (fun y hy => spares_signal hy) hproceeds.covered hq goesOn_map rfl ?_
    refine engaged_of_open hclosed (hmarked.of_savepoints (savepoints_of_work hq.work)) ?_
    exact hb.of_same hq.isOpen (.refl s c.locks) hstart
  cases body with
  | insert t values next => exact insert_tracks h hagree hclosed hmarked hb hactivity hnext
  | delete t position next => exact delete_tracks h hagree hclosed hmarked hb hactivity
  | done result =>
    simp only [redraft, hactivity]
    exact hstay (.finishing result) hb.inStatement
  | fail error =>
    simp only [redraft, hactivity]
    exact hstay (.failing error) hb.inStatement
  | sessionId next =>
    simp only [redraft, hactivity]
    exact hstay (.running (next s)) hb
  | requestRedo next =>
    simp only [redraft, hactivity]
    exact hsignal .requestRedo next proceeds_requestRedo
  | raiseAbort next =>
    simp only [redraft, hactivity]
    exact hsignal .raiseAbort next proceeds_raiseAbort
  | scan t next =>
    simp only [redraft, hactivity]
    exact hstay (.running _) hb
  | deleteWhere t test next =>
    simp only [redraft, hactivity, runBody]
    split
    next => exact hstay (.running _) hb
    next rows hrows =>
      -- The rows to be deleted have been found by a scan.
      have hwritable := mem_writes_of_writable (writable_of_deletable hrows)
      refine hstay (.deleting t rows 0 next) ⟨hb, hwritable, fun row hrow => ?_⟩
      exact h.sound.get?_of_mem_scan (mem_scan_of_deletable hrows hrow)

end Body

section Steps

variable (h : c.InStep l) (hagree : c.locks.HoldersAgree) (hx : x.Engaged s c (l.draft s))

include h hagree hx

theorem deleting_tracks {row : Row} {rows : List Row} {count : Nat}
    {next : Except Failure Nat → StatementBody}
    (hactivity : x.activity = .deleting t (row :: rows) count next) :
    Tracks s c l (x.observe s c) (x.step s c).1 (x.step s c).2 (x.redraft s c (l.draft s)) := by
  have hclosed := hx.open (by rw [hactivity]; nofun)
  have hmarked := hx.marked hclosed
  have hatWork := hx.atWork
  simp only [AtWork, hactivity] at hatWork
  obtain ⟨hb, ht, hfound⟩ := hatWork
  have hrow := hfound row List.mem_cons_self
  have htable : row.table = t := (h.sound.placed t row.position row hrow).1
  have hw := h.recordDelete hagree (hb.written ht) hb.isOpen hrow
  have hothers (y : SessionId) (hy : y ≠ s) : Spares y c (c.recordDelete s t row).2 :=
    spares_recordDelete hy
  have hproceeds : Proceeds s c (c.recordDelete s t row).2 := proceeds_recordDelete
  have hcovered := hproceeds.covered
  have hleft (p : RowPosition) : (c.recordDelete s t row).2.storage.get? t p = c.storage.get? t p :=
    get?_recordDelete
  simp only [redraft, step, observe, hactivity]
  generalize c.recordDelete s t row = deleted at hw hothers hcovered hleft
  obtain ⟨answer, c₁⟩ := deleted
  cases answer with
  | error f =>
    have hatWork : (x.become (.running (next (.error f)))).AtWork s c₁ (l.draft s) :=
      hw.busy hb (Or.inl rfl)
    exact tracks_writes hothers hcovered hw goesOn_access (Or.inl rfl)
      (engaged_of_open hclosed (hw.marked hmarked (Or.inl rfl)) hatWork)
  | ok done =>
    have hatWork : (x.become (.deleting t rows (count + 1) next)).AtWork s c₁
        ((l.draft s).add (.delete row)) := by
      refine ⟨hw.busy hb (Or.inr ⟨_, rfl⟩), ht, fun other hother => ?_⟩
      exact (hleft _).trans (hfound other (List.mem_cons_of_mem row hother))
    refine tracks_writes hothers hcovered hw goesOn_access (Or.inr ⟨_, rfl, .delete, rfl, ?_⟩)
      (engaged_of_open hclosed (hw.marked hmarked (Or.inr ⟨_, rfl⟩)) hatWork)
    show some (Event.access ⟨s, t, .delete⟩) = some (Event.access ⟨s, row.table, .delete⟩)
    rw [htable]

theorem acquiring_tracks (hcovered : c.Covered s) (hactivity : x.activity = .acquiring) :
    Tracks s c l (x.observe s c) (x.step s c).1 (x.step s c).2 (x.redraft s c (l.draft s)) := by
  have hclosed := hx.open (by rw [hactivity]; nofun)
  have hmarked := hx.marked hclosed
  have hlength := (h.carries s).logged.length_eq
  have hb := beginStatement_begins c s x.statement.request
  have hothers (y : SessionId) (hy : y ≠ s) :
      Spares y c (c.beginStatement s x.statement.request).2 := spares_beginStatement hy
  simp only [redraft, step, observe, hactivity]
  generalize c.beginStatement s x.statement.request = begun at hb hothers
  obtain ⟨answer, c₁⟩ := begun
  have hquiet := hb.quiet
  have htracks (x' : Session) (hclosed' : x'.closed = false) (hatWork : x'.AtWork s c₁ (l.draft s)) :
      Tracks s c l none x' c₁ (l.draft s) :=
    tracks_quiet h hagree hothers hb.covered hquiet goesOn_none rfl
      (engaged_of_open hclosed' (hmarked.of_savepoints (savepoints_of_work hquiet.work)) hatWork)
  split
  next heq =>
    cases heq
    exact htracks (x.become .resuming) hclosed
      ⟨hb.holdsAll hcovered, hb.statementStart.trans hlength⟩
  next heq =>
    cases heq
    exact htracks (x.become .waiting) hclosed trivial
  next heq =>
    cases heq
    exact htracks x.giveUp hclosed trivial
  next heq =>
    cases heq
    refine htracks _ hclosed ?_
    trivial

theorem resuming_tracks (hactivity : x.activity = .resuming) :
    Tracks s c l (x.observe s c) (x.step s c).1 (x.step s c).2 (x.redraft s c (l.draft s)) := by
  have hclosed := hx.open (by rw [hactivity]; nofun)
  have hmarked := (hx.marked hclosed).beginStatement
  have hatWork := hx.atWork
  simp only [AtWork, hactivity] at hatWork
  obtain ⟨hall, hstart⟩ := hatWork
  have hopen : (c.resumeStatement s).1 = .ok () → ((c.resumeStatement s).2.tx s).isOpen = true :=
    isOpen_resumeStatement
  have hquiet : Quiet s c (c.resumeStatement s).2 := quiet_resumeStatement
  have hproceeds : Proceeds s c (c.resumeStatement s).2 := proceeds_resumeStatement
  have hothers (y : SessionId) (hy : y ≠ s) : Spares y c (c.resumeStatement s).2 :=
    spares_resumeStatement hy
  obtain ⟨hlocks, hsame⟩ : (c.resumeStatement s).2.locks = c.locks ∧
    ((c.resumeStatement s).2.tx s).statementStart = (c.tx s).statementStart := resumeStatement_same
  simp only [redraft, step, observe, hactivity]
  generalize c.resumeStatement s = resumed at hopen hquiet hproceeds hothers hlocks hsame
  obtain ⟨answer, c₁⟩ := resumed
  have htracks (x' : Session) (hclosed' : x'.closed = false)
      (hatWork : x'.AtWork s c₁ (l.draft s).beginStatement) :
      Tracks s c l none x' c₁ (l.draft s).beginStatement :=
    tracks_quiet h hagree hothers hproceeds.covered hquiet goesOn_none rfl
      (engaged_of_open hclosed' (hmarked.of_savepoints (savepoints_of_work hquiet.work)) hatWork)
  split
  next =>
    exact tracks_stay h hagree goesOn_none rfl
      (engaged_of_open (x := x.giveUp) hclosed hmarked trivial)
  next =>
    cases answer with
    | error f => exact htracks (x.become (.rollingBack (.error f))) hclosed trivial
    | ok done =>
      refine htracks ({ x with runs := x.runs + 1 }.become (.running _)) hclosed ?_
      exact ⟨hopen rfl, hlocks ▸ hall, hmarked.inStatement (hsame.trans hstart)⟩

/-- The changes of a statement are taken back, and the session goes on. -/
theorem undoStatement_tracks {c₁ : Coordinator} (hin : (l.draft s).InStatement (c.tx s))
    (hclosed : x.closed = false) (hquiet : Quiet s c c₁) (hlocks : c₁.locks = c.locks)
    (hsame : (c₁.tx s).statementStart = (c.tx s).statementStart)
    (hothers : ∀ y, y ≠ s → Spares y c c₁) (hcovered : c.Covered s → c₁.Covered s)
    (activity : Activity)
    (hatWork : (x.become activity).AtWork s (c₁.rollbackStatement s) (l.draft s).undoStatement) :
    Tracks s c l none (x.become activity) (c₁.rollbackStatement s) (l.draft s).undoStatement := by
  have hstarted := h.quiet hagree hothers hquiet
  have hundone := hstarted.rollbackStatement (s := s) (d := (l.draft s).undoStatement)
    (hlocks ▸ hagree) hin.started (hsame.trans hin.start)
  obtain ⟨hentries, hfaults⟩ := journal_rollbackStatement (c := c₁) (s := s)
  have hmarks : ((c₁.rollbackStatement s).tx s).savepoints = (c.tx s).savepoints :=
    savepoints_rollbackStatement.trans (savepoints_of_work hquiet.work)
  refine tracks_of_inStep (fun y hy => (hothers y hy).trans (spares_rollbackStatement hy))
    (fun hc => proceeds_rollbackStatement.covered (hcovered hc)) hundone
    (hquiet.toUpholds.trans upholds_rollbackStatement) (hfaults.trans hquiet.faults)
    (hentries.trans hquiet.entries) goesOn_none hin.started.subset
    (engaged_of_open hclosed ?_ hatWork)
  exact ((hx.marked hclosed).undoStatement hin).of_savepoints hmarks

theorem finishing_tracks {result : StatementResult} (hactivity : x.activity = .finishing result) :
    Tracks s c l (x.observe s c) (x.step s c).1 (x.step s c).2 (x.redraft s c (l.draft s)) := by
  have hclosed := hx.open (by rw [hactivity]; nofun)
  have hatWork := hx.atWork
  simp only [AtWork, hactivity] at hatWork
  have htaken : Quiet s c (c.signal s fun _ => (c.tx s).signals.takeRedo.2) := quiet_signal
  have hproceeds : Proceeds s c (c.signal s fun _ => (c.tx s).signals.takeRedo.2) :=
    proceeds_updateTx ⟨rfl, id, rfl, id⟩
  simp only [redraft, step, observe, hactivity]
  by_cases hredo : (c.tx s).signals.redo = true
  · have htake : (c.tx s).signals.takeRedo.1 = true := hredo
    rw [if_pos hredo, if_pos htake]
    refine undoStatement_tracks h hagree hx hatWork hclosed htaken rfl ?_
      (fun y hy => spares_signal hy) hproceeds.covered .entering trivial
    rw [tx_signal_self]
  · have htake : ¬(c.tx s).signals.takeRedo.1 = true := hredo
    rw [if_neg hredo, if_neg htake]
    have hquiet := htaken.trans quiet_completeStatement
    refine tracks_quiet h hagree (fun y hy => (spares_signal hy).trans (spares_completeStatement hy))
      (hproceeds.trans proceeds_completeStatement).covered hquiet goesOn_none rfl ?_
    exact engaged_of_open hclosed ((hx.marked hclosed).of_savepoints (savepoints_of_work hquiet.work))
      trivial

theorem committing_tracks {autocommit : Bool} {answer : Answer}
    (hactivity : x.activity = .committing autocommit answer) :
    Tracks s c l (x.observe s c) (x.step s c).1 (x.step s c).2 (x.redraft s c (l.draft s)) := by
  have hclosed := hx.open (by rw [hactivity]; nofun)
  have hmarked : (if c.abortRequested s then l.draft s else .empty : Draft).Marked
      ((c.commit s).2.tx s) := by
    by_cases habort : c.abortRequested s = true
    · have hrefused : (c.commit s).2 = c := by
        unfold Coordinator.commit
        rw [if_pos habort]
      rw [if_pos habort, hrefused]
      exact hx.marked hclosed
    · rw [if_neg habort]
      exact Draft.marked_empty (savepoints_commit (Bool.eq_false_iff.mpr habort))
  have htracks (x' : Session) (hclosed' : x'.closed = false)
      (hatWork : ∀ c' d, x'.AtWork s c' d) : Tracks s c l (c.commitEvent? s) x' (c.commit s).2
        (if c.abortRequested s then l.draft s else .empty) :=
    tracks_commit h hagree rfl (engaged_of_open hclosed' hmarked (hatWork _ _))
  simp only [redraft, step, observe, hactivity]
  generalize c.commit s = committed at htracks
  obtain ⟨result, c₁⟩ := committed
  split
  next heq =>
    cases heq
    refine htracks _ hclosed fun _ _ => ?_
    trivial
  next heq =>
    cases heq
    exact htracks x.giveUp hclosed fun _ _ => trivial
  next heq =>
    cases heq
    refine htracks _ hclosed fun _ _ => ?_
    trivial

theorem step_tracks (hcovered : c.Covered s) (hnext : (x.step s c).2.storage.nextRow ≠ 0) :
    Tracks s c l (x.observe s c) (x.step s c).1 (x.step s c).2 (x.redraft s c (l.draft s)) := by
  have hatWork := hx.atWork
  unfold AtWork at hatWork
  have hstay (hclosed : x.closed = false) (activity : Activity)
      (hdone : (x.become activity).AtWork s c (l.draft s)) :
      Tracks s c l none (x.become activity) c (l.draft s) :=
    tracks_stay h hagree goesOn_none rfl (engaged_of_open hclosed (hx.marked hclosed) hdone)
  have hfinish (hclosed : x.closed = false) (reply : Reply) :
      Tracks s c l none (x.finish reply) c (l.draft s) :=
    tracks_stay h hagree goesOn_none rfl
      (engaged_of_open (x := x.finish reply) hclosed (hx.marked hclosed) trivial)
  cases hactivity : x.activity with
  | idle =>
    simp only [redraft, step, observe, hactivity]
    exact tracks_stay h hagree goesOn_none rfl hx
  | entering =>
    have hclosed := hx.open (by simp [hactivity])
    simp only [redraft, step, observe, hactivity]
    split
    next => exact hstay hclosed (.rollingBack _) trivial
    next => exact hstay hclosed .acquiring trivial
  | acquiring => exact acquiring_tracks h hagree hx hcovered hactivity
  | waiting =>
    have hclosed := hx.open (by simp [hactivity])
    simp only [redraft, step, observe, hactivity]
    split
    next => exact hstay hclosed .acquiring trivial
    next => exact hstay hclosed (.rollingBack _) trivial
    next => exact hstay hclosed .timedOut trivial
    next => exact tracks_stay h hagree goesOn_none rfl hx
  | timedOut =>
    have hclosed := hx.open (by simp [hactivity])
    have hquiet : Quiet s c (c.cancelWait s) := quiet_cancelWait
    simp only [redraft, step, observe, hactivity]
    refine tracks_quiet h hagree (fun y hy => spares_cancelWait hy) proceeds_cancelWait.covered hquiet
      goesOn_none rfl (engaged_of_open hclosed ?_ trivial)
    exact (hx.marked hclosed).of_savepoints (savepoints_of_work hquiet.work)
  | resuming => exact resuming_tracks h hagree hx hactivity
  | running body =>
    have hclosed := hx.open (by simp [hactivity])
    simp only [hactivity] at hatWork
    simp only [step, hactivity] at hnext
    simp only [step, observe, hactivity]
    exact runBody_tracks h hagree hclosed (hx.marked hclosed) hatWork hactivity hnext
  | deleting t rows count next =>
    have hclosed := hx.open (by simp [hactivity])
    simp only [hactivity] at hatWork
    cases rows with
    | nil =>
      simp only [redraft, step, observe, hactivity]
      exact hstay hclosed (.running _) hatWork.1
    | cons row rows => exact deleting_tracks h hagree hx hactivity
  | failing error =>
    have hclosed := hx.open (by simp [hactivity])
    simp only [hactivity] at hatWork
    simp only [redraft, step, observe, hactivity]
    exact undoStatement_tracks h hagree hx hatWork hclosed (.refl s c) rfl rfl
      (fun _ _ => spares_of_eq rfl rfl rfl) id (.failed error) trivial
  | failed error =>
    have hclosed := hx.open (by simp [hactivity])
    simp only [redraft, step, observe, hactivity]
    split
    next => exact hstay hclosed (.rollingBack _) trivial
    next =>
      split
      next => exact hstay hclosed (.rollingBack _) trivial
      next => exact hfinish hclosed _
  | finishing result => exact finishing_tracks h hagree hx hactivity
  | finished result =>
    have hclosed := hx.open (by simp [hactivity])
    simp only [redraft, step, observe, hactivity]
    split
    next => exact hstay hclosed (.rollingBack _) trivial
    next =>
      split
      next => exact hstay hclosed (.committing _ _) trivial
      next => exact hfinish hclosed _
  | committing autocommit answer => exact committing_tracks h hagree hx hactivity
  | rollingBack reply =>
    have hclosed := hx.open (by simp [hactivity])
    simp only [redraft, step, observe, hactivity]
    exact tracks_end (fun y hy => spares_rollback hy) steady_rollback.covered (h.rollback hagree)
      rollback_journal (engaged_of_open (x := x.finish reply) hclosed
        (Draft.marked_empty savepoints_rollback) trivial)

end Steps

end Session

end LockingDb
