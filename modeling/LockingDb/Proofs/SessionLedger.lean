import LockingDb.Proofs.DraftMarks
import LockingDb.Proofs.LedgerCommit

namespace LockingDb

namespace Coordinator

variable {c c' : Coordinator} {s y : SessionId} {t : TableId} {r : LockRequest} {d : Draft}

/-- The body of a statement runs: the session has a transaction, the locks of the statement, and
has noted where its changes start. -/
structure Busy (c : Coordinator) (s : SessionId) (r : LockRequest) (d : Draft) : Prop where
  isOpen : (c.tx s).isOpen = true
  holdsAll : c.locks.holdsAll s r = true
  inStatement : d.InStatement (c.tx s)

theorem Busy.written (h : c.Busy s r d) (ht : t ∈ r.writes) :
    c.locks.mode? s t = some .exclusive := (LockTable.holdsAll_iff.mp h.holdsAll).1 t ht

theorem Busy.held (h : c.Busy s r d) (hallowed : r.allowsRead t = true) :
    (c.locks.mode? s t).isSome = true := by
  rcases LockRequest.allowsRead_iff.mp hallowed with ht | ht
  · exact isSome_of_exclusive (h.written ht)
  · exact (LockTable.holdsAll_iff.mp h.holdsAll).2 t ht

theorem statementStart_of_unlatched {tx tx' : SessionTx} (h : tx'.unlatched = tx.unlatched) :
    tx'.statementStart = tx.statementStart := by
  have hsame : tx'.unlatched.statementStart = tx.unlatched.statementStart :=
    congrArg SessionTx.statementStart h
  exact hsame

theorem savepoints_of_work {tx tx' : SessionTx} (h : tx'.work = tx.work) :
    tx'.savepoints = tx.savepoints := congrArg (fun work => work.2.2) h

theorem Busy.of_same (h : c.Busy s r d) (hopen : (c.tx s).isOpen = true → (c'.tx s).isOpen = true)
    (hkeeps : LockTable.Keeps s c.locks c'.locks)
    (hstart : (c'.tx s).statementStart = (c.tx s).statementStart) : c'.Busy s r d :=
  ⟨hopen h.isOpen, hkeeps.holdsAll h.holdsAll, h.inStatement.of_start hstart⟩

theorem resumeStatement_same : (c.resumeStatement s).2.locks = c.locks ∧
    ((c.resumeStatement s).2.tx s).statementStart = (c.tx s).statementStart := by
  unfold resumeStatement
  split
  next => exact ⟨rfl, rfl⟩
  next =>
    dsimp only
    split
    next =>
      refine ⟨rfl, ?_⟩
      rw [tx_updateTx_self]
      rfl
    next =>
      unfold openTx
      refine ⟨rfl, ?_⟩
      rw [tx_updateTx_self]
      rfl

end Coordinator

open Coordinator Change

namespace Session

variable {s y : SessionId} {c c' : Coordinator} {x x' : Session} {e : Option Event} {l : Ledger}
  {d : Draft} {t : TableId}

/-- Where a session is in a statement, with its draft. -/
def AtWork (x : Session) (s : SessionId) (c : Coordinator) (d : Draft) : Prop :=
  match x.activity with
  | .resuming => c.locks.holdsAll s x.statement.request = true ∧
      (c.tx s).statementStart = d.changes.length
  | .running _ => c.Busy s x.statement.request d
  | .deleting t rows _ _ => c.Busy s x.statement.request d ∧ t ∈ x.statement.request.writes ∧
      ∀ row ∈ rows, c.storage.get? t row.position = some row
  | .failing _ | .finishing _ => d.InStatement (c.tx s)
  | _ => True

/-- A session knows of its draft where its statement started and where its savepoints are. -/
structure Engaged (x : Session) (s : SessionId) (c : Coordinator) (d : Draft) : Prop where
  resting : x.closed = true → x.activity = .idle
  marked : x.closed = false → d.Marked (c.tx s)
  atWork : x.AtWork s c d

theorem Engaged.of_same (h : x.Engaged y c d)
    (hopen : (c.tx y).isOpen = true → (c'.tx y).isOpen = true)
    (hkeeps : LockTable.Keeps y c.locks c'.locks)
    (hstart : (c'.tx y).statementStart = (c.tx y).statementStart)
    (hsavepoints : (c'.tx y).savepoints = (c.tx y).savepoints)
    (hrows : ∀ t, c.locks.mode? y t = some .exclusive →
      c'.storage.contents t = c.storage.contents t) : x.Engaged y c' d := by
  have hbusy {r : LockRequest} (hb : c.Busy y r d) : c'.Busy y r d := hb.of_same hopen hkeeps hstart
  refine ⟨h.resting, fun hclosed => (h.marked hclosed).of_savepoints hsavepoints, ?_⟩
  have hatWork := h.atWork
  unfold AtWork at hatWork ⊢
  split at hatWork
  next => exact ⟨hkeeps.holdsAll hatWork.1, hstart.trans hatWork.2⟩
  next => exact hbusy hatWork
  next =>
    obtain ⟨hb, ht, hfound⟩ := hatWork
    refine ⟨hbusy hb, ht, fun row hrow => ?_⟩
    rw [Storage.get?_eq, hrows _ (hb.written ht), ← Storage.get?_eq]
    exact hfound row hrow
  next => exact hatWork.of_start hstart
  next => exact hatWork.of_start hstart
  next => trivial

theorem Engaged.of_spares (h : x.Engaged y c d) (hspares : Spares y c c')
    (hrows : ∀ t, c.locks.mode? y t = some .exclusive →
      c'.storage.contents t = c.storage.contents t) : x.Engaged y c' d :=
  h.of_same hspares.upholds.isOpen hspares.keeps (statementStart_of_unlatched hspares.tx)
    (savepoints_of_work (SessionTx.work_of_unlatched hspares.tx)) hrows

/-- A move of a session with its draft: others are left alone, the ledger stays right, and changes
come from accesses to the tables. -/
structure Tracks (s : SessionId) (c : Coordinator) (l : Ledger) (e : Option Event) (x' : Session)
    (c' : Coordinator) (d : Draft) : Prop where
  others : ∀ y, y ≠ s → Spares y c c'
  covered : c.Covered s → c'.Covered s
  inStep : c'.InStep (l.note s d e)
  engaged : x'.Engaged s c' d
  faults : c'.journal.faults = c.journal.faults
  logged : l.Logged c.journal c'.journal e
  upholds : (c.tx s).isOpen = true → (∀ event ∈ e, event.ends s = false) → Upholds s c c'
  written : ∀ k ∈ d.changes, k ∈ (l.draft s).changes ∨
    ∃ kind : AccessKind, kind.isWrite = true ∧ e = some (.access ⟨s, k.table, kind⟩)
  ended : ∀ event ∈ e, ∀ y, event.ends y = true → y = s ∧ d.changes = []

/-- No transaction ends by the event. -/
def GoesOn (e : Option Event) : Prop := ∀ event ∈ e, ∃ a, event = .access a

theorem goesOn_none : GoesOn none := nofun

theorem goesOn_access {a : Access} : GoesOn (some (.access a)) := by
  rintro event ⟨⟩
  exact ⟨a, rfl⟩

theorem note_of_goesOn (he : GoesOn e) : l.note s d e = l.note s d none := by
  cases e with
  | none => rfl
  | some event =>
    obtain ⟨a, rfl⟩ := he event rfl
    rfl

theorem logged_of_goesOn (he : GoesOn e) (hentries : c'.journal.entries = c.journal.entries) :
    l.Logged c.journal c'.journal e := by
  cases e with
  | none => exact hentries
  | some event =>
    obtain ⟨a, rfl⟩ := he event rfl
    exact hentries

theorem GoesOn.ended {p : SessionId → Prop} (he : GoesOn e) :
    ∀ event ∈ e, ∀ y, event.ends y = true → p y := by
  intro event hevent y hends
  obtain ⟨a, rfl⟩ := he event hevent
  cases hends

/-- A step with which no transaction ends, and that makes no new change. -/
theorem tracks_of_inStep (hothers : ∀ y, y ≠ s → Spares y c c')
    (hcovered : c.Covered s → c'.Covered s) (hinStep : c'.InStep (l.note s d none))
    (hup : Upholds s c c') (hfaults : c'.journal.faults = c.journal.faults)
    (hentries : c'.journal.entries = c.journal.entries) (he : GoesOn e)
    (hfewer : d.changes ⊆ (l.draft s).changes) (hengaged : x'.Engaged s c' d) :
    Tracks s c l e x' c' d where
  others := hothers
  covered := hcovered
  inStep := by
    rw [note_of_goesOn he]
    exact hinStep
  engaged := hengaged
  faults := hfaults
  logged := logged_of_goesOn he hentries
  upholds _ _ := hup
  written _ hk := Or.inl (hfewer hk)
  ended := he.ended

theorem tracks_quiet (h : c.InStep l) (hagree : c.locks.HoldersAgree)
    (hothers : ∀ y, y ≠ s → Spares y c c') (hcovered : c.Covered s → c'.Covered s)
    (hq : Quiet s c c') (he : GoesOn e) (hd : d.changes = (l.draft s).changes)
    (hengaged : x'.Engaged s c' d) : Tracks s c l e x' c' d :=
  tracks_of_inStep hothers hcovered ((h.quiet hagree hothers hq).redraft hd) hq.toUpholds hq.faults
    hq.entries he (fun _ hk => hd ▸ hk) hengaged

/-- A step that leaves everything to the next one. -/
theorem tracks_stay (h : c.InStep l) (hagree : c.locks.HoldersAgree) (he : GoesOn e)
    (hd : d.changes = (l.draft s).changes) (hengaged : x'.Engaged s c d) : Tracks s c l e x' c d :=
  tracks_quiet h hagree (fun _ _ => spares_of_eq rfl rfl rfl) id (.refl s c) he hd hengaged

/-- A step that works on a row. -/
theorem tracks_writes (hothers : ∀ y, y ≠ s → Spares y c c')
    (hcovered : c.Covered s → c'.Covered s) (hw : Writes s c l d c') (he : GoesOn e)
    (hd : d = l.draft s ∨ ∃ k, d = (l.draft s).add k ∧ ∃ kind : AccessKind, kind.isWrite = true ∧
      e = some (.access ⟨s, k.table, kind⟩))
    (hengaged : x'.Engaged s c' d) : Tracks s c l e x' c' d where
  others := hothers
  covered := hcovered
  inStep := by
    rw [note_of_goesOn he]
    exact hw.inStep
  engaged := hengaged
  faults := by rw [hw.journal]
  logged := logged_of_goesOn he (by rw [hw.journal])
  upholds _ _ := ⟨fun ho => hw.isOpen.trans ho, fun _ => hw.locks ▸ id⟩
  written k hk := by
    rcases hd with rfl | ⟨j, rfl, hwrite⟩
    · exact Or.inl hk
    · rcases List.mem_append.mp hk with hold | hnew
      · exact Or.inl hold
      · rw [List.mem_singleton.mp hnew]
        exact Or.inr hwrite
  ended := he.ended

/-- A step with which the transaction is rolled back, if it is open. -/
theorem tracks_end (hothers : ∀ y, y ≠ s → Spares y c c') (hcovered : c.Covered s → c'.Covered s)
    (hinStep : c'.InStep (l.note s .empty none)) (hjournal : c'.journal = c.journal)
    (hengaged : x'.Engaged s c' .empty) : Tracks s c l (c.rollbackEvent? s) x' c' .empty where
  others := hothers
  covered := hcovered
  inStep := by
    rw [note_rollbackEvent?]
    exact hinStep
  engaged := hengaged
  faults := by rw [hjournal]
  logged := by
    unfold rollbackEvent?
    rw [hjournal]
    split
    next => exact ⟨[], List.nil_prefix, (List.append_nil _).symm, fun _ => rfl⟩
    next => rfl
  upholds hopen hgoes := by
    have hend := hgoes (.rolledBack s)
    unfold rollbackEvent? at hend
    rw [if_pos hopen] at hend
    exact absurd (hend rfl) (by simp [Event.ends])
  written := nofun
  ended event hevent y hends := by
    refine ⟨?_, rfl⟩
    unfold rollbackEvent? at hevent
    split at hevent
    next =>
      cases hevent
      exact (of_decide_eq_true hends).symm
    next => cases hevent

theorem tracks_commit (h : c.InStep l) (hagree : c.locks.HoldersAgree)
    (hd : d = if c.abortRequested s then l.draft s else .empty)
    (hengaged : x'.Engaged s (c.commit s).2 d) :
    Tracks s c l (c.commitEvent? s) x' (c.commit s).2 d := by
  obtain ⟨hinStep, hfaults, hlogged⟩ := h.commit hagree hd
  have hcommits := c.commit_commits s
  refine ⟨fun y hy => spares_commit hy, steady_commit.covered, hinStep, hengaged, hfaults, hlogged,
    fun hopen hgoes => ?_, fun k hk => ?_, fun event hevent y hends => ?_⟩
  · generalize c.commitEvent? s = e, (c.commit s).2 = c' at hcommits hgoes
    cases hcommits with
    | refused habort => exact .refl s c
    | failed habort hlog =>
      have hend := hgoes (.rolledBack s) (by simp [rollbackEvent?, hopen])
      exact absurd hend (by simp [Event.ends])
    | done habort hlog =>
      have hend := hgoes (.committed s c.tick.1) (by simp [hopen])
      exact absurd hend (by simp [Event.ends])
  · rw [hd] at hk
    split at hk
    next => exact Or.inl hk
    next => cases hk
  · generalize c.commitEvent? s = e, (c.commit s).2 = c' at hcommits hevent
    cases hcommits with
    | refused habort => cases hevent
    | failed habort hlog =>
      unfold rollbackEvent? at hevent
      split at hevent
      next =>
        cases hevent
        rw [hd, if_neg (by rw [habort]; exact Bool.false_ne_true)]
        exact ⟨(of_decide_eq_true hends).symm, rfl⟩
      next => cases hevent
    | done habort hlog =>
      split at hevent
      next =>
        cases hevent
        rw [hd, if_neg (by rw [habort]; exact Bool.false_ne_true)]
        exact ⟨(of_decide_eq_true hends).symm, rfl⟩
      next => cases hevent

end Session

end LockingDb
