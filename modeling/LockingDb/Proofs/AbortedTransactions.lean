import LockingDb.Proofs.FirstWrites
import LockingDb.Proofs.LogTurns
import LockingDb.Proofs.ProvisionalCalls
import LockingDb.Proofs.TransactionTerms

namespace LockingDb

open Coordinator Session

/-- Whether a transaction is open, and whether it was told to give up. -/
def SessionTx.fate (tx : SessionTx) : Bool × Bool := (tx.isOpen, tx.signals.abort)

theorem SessionTx.fate_of_terms {tx tx' : SessionTx} (h : tx'.terms = tx.terms) :
    tx'.fate = tx.fate :=
  congrArg (fun t : TxTerms => (t.isOpen, t.abort)) h

namespace Coordinator

variable {c c' : Coordinator} {s y : SessionId} {r : LockRequest} {t : TableId} {now : Timestamp}

/-- The transaction of the session is open, and was told to give up. -/
structure Doomed (c : Coordinator) (s : SessionId) : Prop where
  isOpen : (c.tx s).isOpen = true
  abort : c.abortRequested s = true

theorem Doomed.of_fate (h : c.Doomed s) (heq : (c'.tx s).fate = (c.tx s).fate) : c'.Doomed s :=
  ⟨(congrArg Prod.fst heq).trans h.isOpen, (congrArg Prod.snd heq).trans h.abort⟩

theorem Doomed.of_terms (h : c.Doomed s) (heq : (c'.tx s).terms = (c.tx s).terms) : c'.Doomed s :=
  h.of_fate (SessionTx.fate_of_terms heq)

theorem fate_setTx {tx : SessionTx} (h : tx.fate = (c.tx s).fate) :
    ((c.setTx s tx).tx s).fate = (c.tx s).fate := by
  rw [tx_setTx_self]
  exact h

theorem Spares.doomed (hspares : Spares s c c') (h : c.Doomed s) : c'.Doomed s :=
  h.of_terms (SessionTx.terms_of_unlatched hspares.tx)

theorem Doomed.raiseAbort (hopen : (c.tx s).isOpen = true) : (c.signal s .raiseAbort).Doomed s := by
  refine ⟨?_, ?_⟩
  · rw [tx_signal_self]
    exact hopen
  · rw [abortRequested, tx_signal_self]
    rfl

/-- A request for locks finds the order to give up. -/
theorem Doomed.beginStatement (h : c.Doomed s) :
    (c.beginStatement s r).1 = .error .serializationFailure ∧ (c.beginStatement s r).2.Doomed s := by
  have hbegins := c.beginStatement_begins s r
  generalize (c.beginStatement s r).1 = answer, (c.beginStatement s r).2 = c' at hbegins
  have hno {p : Prop} (hnot : c.abortRequested s = false) : p := by
    rw [h.abort] at hnot
    cases hnot
  cases hbegins with
  | aborted habort => exact ⟨rfl, h.of_fate (fate_setTx rfl)⟩
  | again hnot => exact hno hnot
  | granted hnot => exact hno hnot
  | waits hnot => exact hno hnot
  | refused hnot => exact hno hnot

theorem Doomed.beginTransaction (h : c.Doomed s) : (c.beginTransaction s).Doomed s := by
  unfold Coordinator.beginTransaction
  rw [if_pos h.isOpen]
  exact h

theorem Doomed.prepare (h : c.Doomed s) : c.prepare s = (false, c) := by
  unfold Coordinator.prepare
  rw [if_pos h.abort]

theorem Doomed.rollbackEvent? (h : c.Doomed s) : c.rollbackEvent? s = some (.rolledBack s) :=
  if_pos h.isOpen

end Coordinator

namespace Session

variable {c c' : Coordinator} {s : SessionId} {x : Session}

theorem doomed_runBody (h : c.Doomed s) (body : StatementBody) : (x.runBody s c body).2.Doomed s := by
  cases body with
  | requestRedo next => exact h.of_fate (fate_setTx rfl)
  | raiseAbort next => exact .raiseAbort h.isOpen
  | insert t values next => exact h.of_terms terms_insertInto
  | delete t position next => exact h.of_terms terms_deleteAt
  | deleteWhere t test next =>
    dsimp only [runBody]
    split <;> exact h
  | _ => exact h

/-- A transaction that was told to give up goes on until it is rolled back, and the order stands. -/
theorem doomed_step (h : c.Doomed s) :
    (x.step s c).2.Doomed s ∨ x.observe s c = some (.rolledBack s) := by
  unfold step
  cases hactivity : x.activity with
  | rollingBack reply =>
    right
    simp only [observe, hactivity]
    exact h.rollbackEvent?
  | acquiring =>
    left
    have hbegun := h.beginStatement (r := x.statement.request)
    generalize c.beginStatement s x.statement.request = begun at hbegun
    obtain ⟨answer, c₁⟩ := begun
    obtain ⟨rfl, hdoomed⟩ := hbegun
    exact hdoomed
  | waiting =>
    left
    dsimp only
    split <;> exact h
  | timedOut => exact .inl (h.of_terms terms_cancelWait)
  | running body => exact .inl (doomed_runBody h body)
  | deleting t rows count next =>
    left
    cases rows with
    | nil => exact h
    | cons row rows =>
      have hdeleted : (c.recordDelete s t row).2.Doomed s := h.of_terms terms_recordDelete
      dsimp only
      generalize c.recordDelete s t row = deleted at hdeleted
      obtain ⟨answer, c₁⟩ := deleted
      cases answer <;> exact hdeleted
  | failing error => exact .inl (h.of_terms terms_rollbackStatement)
  | finishing result =>
    left
    have htaken : (c.signal s fun _ => (c.tx s).signals.takeRedo.2).Doomed s :=
      h.of_fate (fate_setTx rfl)
    dsimp only
    split
    next => exact htaken.of_terms terms_rollbackStatement
    next => exact htaken.of_terms terms_completeStatement
  | committing autocommit answer =>
    left
    dsimp only
    rw [commit_of_abort h.abort]
    exact h
  | idle => exact .inl h
  | _ =>
    left
    dsimp only
    rw [if_pos h.abort]
    exact h

theorem doomed_callOpen (h : c.Doomed s) (hclosed : x.closed = false) (k : SessionCall) :
    (x.callOpen s c k).2.Doomed s ∨ x.callEvent? s c k = some (.rolledBack s) := by
  have hnoted {c₁ : Coordinator} (h₁ : c₁.Doomed s) (sql : String) : (c₁.noteStatement s sql).Doomed s :=
    h₁.of_fate rfl
  have hset {tx : SessionTx} (htx : tx.fate = (c.tx s).fate) : (c.setTx s tx).Doomed s :=
    h.of_fate (fate_setTx htx)
  cases k with
  | close =>
    right
    simp only [callEvent?, hclosed, Bool.false_eq_true, if_false]
    exact h.rollbackEvent?
  | begin => exact .inl h.beginTransaction
  | prepare =>
    left
    dsimp only [callOpen]
    rw [h.prepare]
    exact h
  | rollback =>
    left
    dsimp only [callOpen]
    split
    next => exact hnoted h _
    next => exact h
  | savepoint name =>
    left
    have hsaved : (c.updateTx s (·.setSavepoint name)).Doomed s := hset rfl
    exact hnoted hsaved _
  | rollbackTo name =>
    left
    have hundone : (c.rollbackToSavepoint s name).2.Doomed s := h.of_terms terms_rollbackToSavepoint
    dsimp only [callOpen]
    generalize c.rollbackToSavepoint s name = undone at hundone
    obtain ⟨answer, c₁⟩ := undone
    cases answer with
    | error f => exact hundone
    | ok done => exact hnoted hundone _
  | rollbackToFirst =>
    left
    have hundone : (c.rollbackToIndex s 0).2.Doomed s := h.of_terms terms_rollbackToIndex
    dsimp only [callOpen]
    generalize c.rollbackToIndex s 0 = undone at hundone
    obtain ⟨answer, c₁⟩ := undone
    cases answer with
    | error f => exact hundone
    | ok done => exact hnoted hundone _
  | release name =>
    left
    dsimp only [callOpen]
    split
    next => exact h
    next => exact hset rfl
  | setAutocommit on =>
    left
    dsimp only [callOpen]
    split <;> exact h
  | setIsolation level =>
    left
    dsimp only [callOpen, SessionTx.setIsolation]
    rw [if_pos h.isOpen]
    exact h
  | setReadOnly on =>
    left
    dsimp only [callOpen, SessionTx.setReadOnly]
    rw [if_pos h.isOpen]
    exact h
  | setIsolationDefault level => exact .inl (hset rfl)
  | setReadOnlyDefault on => exact .inl (hset rfl)
  | execute statement =>
    left
    dsimp only [callOpen]
    split <;> exact h
  | _ => exact .inl h

theorem doomed_call (h : c.Doomed s) (k : SessionCall) :
    (x.call s c k).2.Doomed s ∨ x.callEvent? s c k = some (.rolledBack s) := by
  by_cases hclosed : x.closed = true
  · obtain ⟨timeout, reply, hcall⟩ := call_of_closed (s := s) (c := c) hclosed k
    rw [hcall]
    exact .inl h
  · have hopen := Bool.eq_false_iff.mpr hclosed
    have hstarted := doomed_callOpen (x := { x with reply := none, runs := 0 }) h hopen k
    rw [call_of_open hopen]
    refine hstarted.imp_right fun hevent => ?_
    cases k <;> exact hevent

end Session

namespace Database

variable {db : Database} {s y : SessionId} {m : Move} {e : Option Event} {c' : Coordinator}
  {during : List Move}

/-- What a move can do to a transaction that was told to give up: nothing of it is made final, and
it goes on in the same way or is rolled back. -/
structure GivesUp (db : Database) (s : SessionId) (m : Move) : Prop where
  goesOn : (db.perform m).coordinator.Doomed s ∨ db.observe m = some (.rolledBack s)
  uncommitted : ∀ now, db.observe m ≠ some (.committed s now)
  commits : (db.perform m).coordinator.journal.commitsOf s = db.coordinator.journal.commitsOf s
  unfinal : ∃ made, (db.perform m).coordinator.storage.calls =
      made ++ db.coordinator.storage.calls ∧
    ∀ k ∈ made, ∀ a ∈ (db.coordinator.tx s).actions, k.1 = a.store → k.2.isFinal = false

/-- Who commits was not told to give up. -/
theorem abortRequested_of_committed (h : db.Does m y e c') {now : Timestamp}
    (he : e = some (.committed s now)) : db.coordinator.abortRequested y = false := by
  have hrolled {c : Coordinator} : c.rollbackEvent? y ≠ some (.committed s now) := by
    unfold Coordinator.rollbackEvent?
    split <;> nofun
  refine Bool.eq_false_iff.mpr fun habort => ?_
  cases h with
  | nothing => cases he
  | @step x hx =>
    unfold Session.observe at he
    split at he
    next =>
      obtain ⟨a, -, ha⟩ := Option.map_eq_some_iff.mp he
      cases ha
    next => cases he
    next =>
      rw [Coordinator.commitEvent?, if_pos habort] at he
      cases he
    next => exact hrolled he
    next => cases he
  | @call x hx hidle k hk =>
    cases k with
    | close =>
      dsimp only [Session.callEvent?] at he
      split at he
      next => cases he
      next => exact hrolled he
    | _ => cases he

/-- A step of a session that was told to give up makes nothing final. -/
theorem provisional_of_doomed (hd : db.coordinator.Doomed s) (h : db.Does m s e c') :
    Provisional db.coordinator c' := by
  cases h with
  | nothing => exact .refl _
  | @step x hx =>
    by_cases hcommits : ∃ autocommit answer, x.activity = .committing autocommit answer
    · obtain ⟨autocommit, answer, hactivity⟩ := hcommits
      simp only [Session.step, hactivity, commit_of_abort hd.abort]
      exact .refl _
    · exact provisional_step fun autocommit answer hactivity =>
        hcommits ⟨autocommit, answer, hactivity⟩
  | call hx hidle hk => exact provisional_call _

theorem goesOn_of_doomed (hd : db.coordinator.Doomed s) (h : db.Does m s e c') :
    c'.Doomed s ∨ e = some (.rolledBack s) := by
  cases h with
  | nothing => exact .inl hd
  | step hx => exact doomed_step hd
  | call hx hidle hk => exact doomed_call hd _

/-- A move of a session that was itself told to give up. -/
theorem givesUp_own (hd : db.coordinator.Doomed s) (hm : m.mover? = some s) : db.GivesUp s m := by
  have hdoes := does_of_mover db hm
  have hprovisional := provisional_of_doomed hd hdoes
  obtain ⟨made, hmade, hfinal⟩ := hprovisional.calls.calls
  refine ⟨goesOn_of_doomed hd hdoes, fun now hnow => ?_,
    Journal.commitsOf_congr hprovisional.entries, made, hmade, fun k hk _ _ _ => hfinal k hk⟩
  have habort := abortRequested_of_committed hdoes hnow
  rw [hd.abort] at habort
  cases habort

/-- The tables of a transaction are out of reach for the others, who write down only what they
commit themselves. -/
theorem Standing.givesUp_other (h : db.Standing) (hd : db.coordinator.Doomed s)
    (hm : m.mover? = some y) (hy : y ≠ s) : db.GivesUp s m := by
  have hdoes := does_of_mover db hm
  have hspares := h.spares_other hm hy.symm
  have hlog : (db.perform m).coordinator.journal.commitsOf s =
      db.coordinator.journal.commitsOf s := by
    generalize db.observe m = e, (db.perform m).coordinator = c' at hdoes
    cases hdoes with
    | nothing => rfl
    | step hx => exact commitsOf_step hy
    | call hx hidle hk => exact Journal.commitsOf_congr (provisional_call _).entries
  obtain ⟨made, hmade, hguarded⟩ := (h.last hm).adds.calls
  have hother (now : Timestamp) : db.observe m ≠ some (.committed s now) := by
    intro hnow
    have hends : (Event.committed s now).ends s = true := decide_eq_true rfl
    have hmover := observe_ends hnow hends
    rw [hm] at hmover
    exact hy (Option.some.inj hmover)
  refine ⟨.inl (hspares.doomed hd), hother, hlog, made, hmade, fun k hk a ha hstore => ?_⟩
  have hours : db.coordinator.locks.mode? s k.1 = some .exclusive :=
    hstore ▸ (h.booked s).written a ha
  have halone := h.settled.toHoldersAgree.writer_alone k.1 s y hours hy
  rw [show db.coordinator.locks.mode? y k.1 = some .exclusive from hguarded k hk] at halone
  cases halone

/-- No move makes anything of a transaction final that was told to give up. -/
theorem Standing.givesUp (h : db.Standing) (hd : db.coordinator.Doomed s)
    (hinside : m.isInside = true) : db.GivesUp s m := by
  cases hm : m.mover? with
  | some y =>
    by_cases hy : y = s
    · exact givesUp_own hd (hy ▸ hm)
    · exact h.givesUp_other hd hm hy
  | none =>
    have hmade : ∃ made, (db.perform m).coordinator.storage.calls =
          made ++ db.coordinator.storage.calls ∧
        ∀ k ∈ made, ∀ a ∈ (db.coordinator.tx s).actions, k.1 = a.store → k.2.isFinal = false :=
      ⟨[], calls_of_no_mover hm hinside, nofun⟩
    cases m with
    | createTable name watched => exact ⟨.inl ⟨hd.isOpen, hd.abort⟩, nofun, rfl, hmade⟩
    | checkpoint =>
      have hlog : (db.coordinator.journal.write .checkpoint).2.commitsOf s =
          db.coordinator.journal.commitsOf s := Journal.commitsOf_write fun r hr => by
        cases hr
        rfl
      exact ⟨.inl ⟨hd.isOpen, hd.abort⟩, nofun, hlog, hmade⟩
    | connect =>
      have hne : s ≠ db.coordinator.nextSession := by
        rintro rfl
        have hclosed := (h.gone _ h.nobody).2
        rw [hd.isOpen] at hclosed
        cases hclosed
      have htx : db.connect.2.coordinator.tx s = db.coordinator.tx s := tx_setTx_of_ne hne
      exact ⟨.inl (hd.of_fate (congrArg SessionTx.fate htx)), nofun, rfl, hmade⟩
    | expire y =>
      have hsame : (db.expire y).coordinator = db.coordinator := coordinator_expire
      refine ⟨.inl ?_, nofun, ?_, hmade⟩
      · exact hsame ▸ hd
      · exact congrArg (fun c : Coordinator => c.journal.commitsOf s) hsame
    | raiseAbort y =>
      refine ⟨.inl ?_, nofun, rfl, hmade⟩
      by_cases hy : s = y
      · exact hy ▸ .raiseAbort hd.isOpen
      · exact hd.of_fate (congrArg SessionTx.fate (tx_setTx_of_ne hy))
    | outside storage journal => cases hinside
    | _ => cases hm

/-- As long as it is not rolled back, a transaction that was told to give up stays open and told,
and nothing of it is written down as committed. -/
theorem Standing.givesUp_run (h : db.Standing) (hd : db.coordinator.Doomed s)
    (hinside : ∀ m ∈ during, m.isInside = true) (hgoes : ∀ e ∈ db.history during, e ≠ .rolledBack s) :
    (db.run during).coordinator.Doomed s ∧ (∀ now, .committed s now ∉ db.history during) ∧
      (db.run during).coordinator.journal.commitsOf s = db.coordinator.journal.commitsOf s := by
  induction during generalizing db with
  | nil => exact ⟨hd, fun _ => List.not_mem_nil, rfl⟩
  | cons m rest ih =>
    have hgives := h.givesUp hd (hinside m List.mem_cons_self)
    have hdoomed := hgives.goesOn.resolve_right fun hrolled =>
      hgoes _ (List.mem_append_left _ (Option.mem_toList.mpr hrolled)) rfl
    obtain ⟨hleft, hnone, hlog⟩ := ih (h.perform m) hdoomed
      (fun k hk => hinside k (List.mem_cons_of_mem m hk))
      fun e he => hgoes e (List.mem_append_right _ he)
    refine ⟨hleft, fun now hmem => ?_, hlog.trans hgives.commits⟩
    rcases List.mem_append.mp hmem with hmem | hmem
    · exact hgives.uncommitted now (Option.mem_toList.mp hmem)
    · exact hnone now hmem

/-- A transaction that was told to give up never commits. From then on, as long as it is not rolled
back, it is open and the order stands, no commit of it is seen or written to the log, and whatever
happens next makes none of its actions final, and leaves it open with the order standing or rolls it
back. -/
theorem doomed_never_commits {settings : Settings} {journal : Journal}
    (hopen : openWith? settings journal = .ok db) (before : List Move) (s : SessionId) :
    (((db.run before).coordinator.tx s).isOpen = true →
      (db.run (before ++ [.raiseAbort s])).coordinator.Doomed s) ∧
    ((db.run before).coordinator.Doomed s →
      ∀ during, (∀ m ∈ during, m.isInside = true) →
        (∀ e ∈ (db.run before).history during, e ≠ .rolledBack s) →
      (db.run (before ++ during)).coordinator.Doomed s ∧
      (∀ now, .committed s now ∉ (db.run before).history during) ∧
      (db.run (before ++ during)).coordinator.journal.commitsOf s =
        (db.run before).coordinator.journal.commitsOf s ∧
      ∀ m, m.isInside = true → (db.run (before ++ during)).GivesUp s m) := by
  have hstanding : (db.run before).Standing := by
    rw [openWith?_eq hopen]
    exact (standing_fresh settings journal).run before
  refine ⟨fun htx => ?_, fun hd during hinside hgoes => ?_⟩
  · rw [run_append]
    exact .raiseAbort htx
  · obtain ⟨hdoomed, hnone, hlog⟩ := hstanding.givesUp_run hd hinside hgoes
    rw [run_append]
    exact ⟨hdoomed, hnone, hlog, fun m hm => (hstanding.run during).givesUp hdoomed hm⟩

/-- Session 1 has inserted a row and is told to give up. -/
def insertAndGiveUp : List Move := insertAndStay ++ [.raiseAbort 1]

/-- It asks for its commit, which is refused. -/
def askForCommit : List Move := [.call 1 .commit, .advance 1]

theorem doomed_never_commits_commitRefused : ∃ db, openWith? .default .empty = .ok db ∧
    (db.run (insertAndGiveUp ++ askForCommit)).coordinator.Doomed 1 ∧
    (db.run (insertAndGiveUp ++ askForCommit)).GivesUp 1 (.advance 1) ∧
    (db.run (insertAndGiveUp ++ askForCommit)).observe (.advance 1) = some (.rolledBack 1) := by
  obtain ⟨db, hopen⟩ : ∃ db, openWith? .default .empty = .ok db := ⟨_, rfl⟩
  have hdb := openWith?_eq hopen
  have htx : ((db.run insertAndStay).coordinator.tx 1).isOpen = true := by
    rw [hdb]
    decide
  have hgoes : ∀ e ∈ (db.run insertAndGiveUp).history askForCommit, e ≠ .rolledBack 1 := by
    rw [hdb]
    decide
  have hrolled : (db.run (insertAndGiveUp ++ askForCommit)).observe (.advance 1) =
      some (.rolledBack 1) := by
    rw [hdb]
    decide
  have hdoomed : (db.run insertAndGiveUp).coordinator.Doomed 1 :=
    (doomed_never_commits hopen insertAndStay 1).1 htx
  obtain ⟨hleft, -, -, hnext⟩ := (doomed_never_commits hopen insertAndGiveUp 1).2 hdoomed
    askForCommit (by decide) hgoes
  exact ⟨db, hopen, hleft, hnext (.advance 1) rfl, hrolled⟩

end Database

end LockingDb
