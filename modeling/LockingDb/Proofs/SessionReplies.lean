import LockingDb.Proofs.CallMoves
import LockingDb.Proofs.MildAnswers

namespace LockingDb

open Coordinator

/-- The next step of the session is a commit. -/
def Activity.commits : Activity → Bool
  | .committing _ _ => true
  | _ => false

namespace Session

variable {s : SessionId} {c c' : Coordinator} {x x' : Session} {known : Failure → Prop}

/-- If a session is going to tell of an ended transaction, then with a failure that is known. -/
def Tells (x : Session) (known : Failure → Prop) : Prop :=
  match x.activity with
  | .running body => body.Relays known
  | .deleting _ _ _ next => ∀ answer, (next answer).Relays fun f => known f ∨ answer = .error f
  | .failing error | .failed error => error.endsTransaction = true → known error
  | _ => True

theorem Tells.mono {more : Failure → Prop} (h : x.Tells known) (hmore : ∀ f, known f → more f) :
    x.Tells more := by
  unfold Tells at h ⊢
  split
  next body hactivity =>
    simp only [hactivity] at h
    exact h.mono fun f _ => hmore f
  next next hactivity =>
    simp only [hactivity] at h
    exact fun answer => (h answer).mono fun f _ hf => hf.imp_left (hmore f)
  next error hactivity =>
    simp only [hactivity] at h
    exact fun hends => hmore error (h hends)
  next error hactivity =>
    simp only [hactivity] at h
    exact fun hends => hmore error (h hends)
  next => trivial

theorem runBody_tells {body : StatementBody} (hbody : body.Relays known) :
    (x.runBody s c body).1.Tells fun f =>
      known f ∨ c.storage.FailsWith (x.runBody s c body).2.storage f := by
  have hmild {α : Type} {answer : Except Failure α} {next : Except Failure α → StatementBody}
      {more : Failure → Prop}
      (hnext : ∀ answer, (next answer).Relays fun f => known f ∨ answer = .error f)
      (hanswer : Mild more answer) : (next answer).Relays fun f => known f ∨ more f :=
    (hnext answer).answered hanswer
  cases body with
  | done result => trivial
  | fail error => exact fun hends => .inl (hbody hends)
  | sessionId next => exact (hbody s).mono fun f _ => .inl
  | requestRedo next => exact StatementBody.Relays.mono hbody fun f _ => .inl
  | raiseAbort next => exact StatementBody.Relays.mono hbody fun f _ => .inl
  | scan t next => exact hmild hbody mild_scanTable
  | insert t values next => exact hmild hbody mild_insertInto
  | delete t position next => exact hmild hbody mild_deleteAt
  | deleteWhere t test next =>
    have hanswer {known : Failure → Prop} :
        Mild known (c.deletable s x.statement.request t test) := mild_deletable
    dsimp only [runBody]
    split
    next f heq => exact hmild hbody (hanswer.passed heq)
    next => exact fun answer => (hbody answer).mono fun f _ hf => hf.imp_left .inl

/-- A session in autocommit mode, which it keeps when it commits. -/
def IsAuto (x : Session) : Prop :=
  x.autocommit = true ∧ match x.activity with
    | .committing on _ => on = true
    | _ => True

/-- What a step of a session leaves as it is. It tells of no ended transaction, unless a table has
told it so. -/
structure Persists (x : Session) (c : Coordinator) (after : Session × Coordinator) : Prop where
  tells : ∀ known, (∀ n, (x.statement.body n).Relays fun _ => False) → x.Tells known →
    after.1.Tells fun f => known f ∨ c.storage.FailsWith after.2.storage f
  statement : after.1.statement = x.statement
  auto : x.IsAuto → after.1.IsAuto

theorem persists_finish {reply : Reply} : x.Persists c (x.finish reply, c') :=
  ⟨fun _ _ _ => trivial, rfl, fun h => ⟨h.1, trivial⟩⟩

/-- The session goes on in its call, but not to a commit. -/
theorem persists_become {activity : Activity}
    (htells : ∀ known, (∀ n, (x.statement.body n).Relays fun _ => False) → x.Tells known →
      (x.become activity).Tells fun f => known f ∨ c.storage.FailsWith c'.storage f)
    (hno : activity.commits = false) : x.Persists c (x.become activity, c') := by
  refine ⟨htells, rfl, fun h => ⟨h.1, ?_⟩⟩
  cases activity with
  | committing on answer => cases hno
  | _ => trivial

theorem persists_quietly {activity : Activity}
    (htells : ∀ known, (x.become activity).Tells known) (hno : activity.commits = false) :
    x.Persists c (x.become activity, c') :=
  persists_become (fun _ _ _ => htells _) hno

theorem runBody_persists {body : StatementBody} (hactivity : x.activity = .running body) :
    x.Persists c (x.runBody s c body) := by
  refine ⟨fun known _ htells => ?_, ?_, fun hauto => ?_⟩
  · simp only [Tells, hactivity] at htells
    exact runBody_tells htells
  · cases body with
    | deleteWhere t test next =>
      dsimp only [runBody]
      split <;> rfl
    | _ => rfl
  · cases body with
    | deleteWhere t test next =>
      dsimp only [runBody]
      split <;> exact ⟨hauto.1, trivial⟩
    | _ => exact ⟨hauto.1, trivial⟩

theorem deleting_persists {t : TableId} {rows : List Row} {count : Nat}
    {next : Except Failure Nat → StatementBody} (hactivity : x.activity = .deleting t rows count next) :
    x.Persists c (x.step s c) := by
  have hnext {known : Failure → Prop} (h : x.Tells known) :
      ∀ answer, (next answer).Relays fun f => known f ∨ answer = .error f := by
    simp only [Tells, hactivity] at h
    exact h
  simp only [step, hactivity]
  cases rows with
  | nil => exact persists_become (fun _ _ h => (hnext h _).answered (mild_ok count)) rfl
  | cons row rows =>
    have hanswer : Mild (c.storage.FailsWith (c.recordDelete s t row).2.storage)
        (c.recordDelete s t row).1 := mild_recordDelete
    dsimp only
    generalize c.recordDelete s t row = deleted at hanswer
    obtain ⟨answer, c₁⟩ := deleted
    cases answer with
    | error f => exact persists_become (fun _ _ h => (hnext h _).answered (hanswer.passed rfl)) rfl
    | ok done =>
      refine persists_become (fun _ _ h answer => ?_) rfl
      exact (hnext h answer).mono fun f _ hf => hf.imp_left .inl

theorem step_persists : x.Persists c (x.step s c) := by
  have hstay {c' : Coordinator} : x.Persists c (x, c') :=
    ⟨fun _ _ h => h.mono fun _ => .inl, rfl, id⟩
  have hgiveUp {c' : Coordinator} : x.Persists c (x.giveUp, c') :=
    persists_quietly (fun _ => trivial) rfl
  cases hactivity : x.activity with
  | idle =>
    simp only [step, hactivity]
    exact hstay
  | entering =>
    simp only [step, hactivity]
    split
    next => exact hgiveUp
    next => exact persists_quietly (fun _ => trivial) rfl
  | acquiring =>
    simp only [step, hactivity]
    split
    next => exact persists_quietly (fun _ => trivial) rfl
    next => exact persists_quietly (fun _ => trivial) rfl
    next => exact hgiveUp
    next => exact persists_finish
  | waiting =>
    simp only [step, hactivity]
    split
    next => exact persists_quietly (fun _ => trivial) rfl
    next => exact hgiveUp
    next => exact persists_quietly (fun _ => trivial) rfl
    next => exact hstay
  | timedOut =>
    simp only [step, hactivity]
    exact persists_quietly (fun _ => trivial) rfl
  | resuming =>
    simp only [step, hactivity]
    split
    next => exact hgiveUp
    next =>
      split
      next => exact persists_quietly (fun _ => trivial) rfl
      next =>
        refine ⟨fun known hbody _ => ?_, rfl, fun h => ⟨h.1, trivial⟩⟩
        exact (hbody (x.runs + 1)).mono fun _ _ => False.elim
  | running body =>
    simp only [step, hactivity]
    exact runBody_persists hactivity
  | deleting t rows count next => exact deleting_persists hactivity
  | failing error =>
    simp only [step, hactivity]
    refine persists_become (fun known _ htells => ?_) rfl
    simp only [Tells, hactivity] at htells
    exact fun hends => .inl (htells hends)
  | failed error =>
    simp only [step, hactivity]
    split
    next => exact hgiveUp
    next =>
      split
      next => exact persists_quietly (fun _ => trivial) rfl
      next => exact persists_finish
  | finishing result =>
    simp only [step, hactivity]
    split <;> exact persists_quietly (fun _ => trivial) rfl
  | finished result =>
    simp only [step, hactivity]
    split
    next => exact hgiveUp
    next =>
      split
      next => exact ⟨fun _ _ _ => trivial, rfl, fun h => ⟨h.1, h.1⟩⟩
      next => exact persists_finish
  | committing on answer =>
    have hkept (h : x.IsAuto) : on = true := by
      have hon := h.2
      simp only [hactivity] at hon
      exact hon
    simp only [step, hactivity]
    split
    next => exact persists_finish
    next => exact hgiveUp
    next => exact ⟨fun _ _ _ => trivial, rfl, fun h => ⟨hkept h, trivial⟩⟩
  | rollingBack reply =>
    simp only [step, hactivity]
    exact persists_finish

/-- A statement that has failed leaves the mode as it is. -/
theorem autocommit_step_of_failed {error : Failure} (hactivity : x.activity = .failed error) :
    (x.step s c).1.autocommit = x.autocommit := by
  simp only [step, hactivity]
  split
  next => rfl
  next => split <;> rfl

/-- How a call returns: its transaction is over, or the session is not in autocommit mode and the
statement has failed or been executed. -/
theorem Ready.returns (h : x.Ready s c) (hbusy : x.activity ≠ .idle)
    (hidle : (x.step s c).1.activity = .idle) : ((x.step s c).2.tx s).isOpen = false ∨
      x.autocommit = false ∧ ((∃ error, x.activity = .failed error ∧
          (x.step s c).1.reply = some (.error error)) ∨
        ∃ answer, (x.step s c).1.reply = some (.ok answer)) := by
  have hcoherent := h.settled.toCoherent
  cases hactivity : x.activity with
  | idle => exact absurd hactivity hbusy
  | entering =>
    simp only [step, hactivity] at hidle
    split at hidle <;> cases hidle
  | acquiring =>
    have hb := beginStatement_begins c s x.statement.request
    simp only [step, hactivity] at hidle
    generalize c.beginStatement s x.statement.request = begun at hb hidle
    obtain ⟨answer, c₁⟩ := begun
    split at hidle
    next => cases hidle
    next => cases hidle
    next => cases hidle
    next hother heq =>
      cases heq
      exact absurd hb.refused_eq hother
  | waiting =>
    simp only [step, hactivity] at hidle
    split at hidle
    next => cases hidle
    next => cases hidle
    next => cases hidle
    next => exact absurd hidle hbusy
  | timedOut =>
    simp only [step, hactivity] at hidle
    cases hidle
  | resuming =>
    simp only [step, hactivity] at hidle
    split at hidle
    next => cases hidle
    next => split at hidle <;> cases hidle
  | running body =>
    simp only [step, hactivity] at hidle
    cases body with
    | deleteWhere t test next =>
      dsimp only [runBody] at hidle
      split at hidle <;> cases hidle
    | _ => cases hidle
  | deleting t rows count next =>
    simp only [step, hactivity] at hidle
    cases rows with
    | nil => cases hidle
    | cons row rows =>
      dsimp only at hidle
      split at hidle <;> cases hidle
  | failing error =>
    simp only [step, hactivity] at hidle
    cases hidle
  | failed error =>
    simp only [step, hactivity] at hidle ⊢
    split at hidle
    next => cases hidle
    next habort =>
      split at hidle
      next => cases hidle
      next hauto =>
        rw [if_neg habort, if_neg hauto]
        exact Or.inr ⟨Bool.eq_false_iff.mpr hauto, Or.inl ⟨error, rfl, rfl⟩⟩
  | finishing result =>
    simp only [step, hactivity] at hidle
    split at hidle <;> cases hidle
  | finished result =>
    simp only [step, hactivity] at hidle ⊢
    split at hidle
    next => cases hidle
    next habort =>
      split at hidle
      next => cases hidle
      next hauto =>
        rw [if_neg habort, if_neg hauto]
        exact Or.inr ⟨Bool.eq_false_iff.mpr hauto, Or.inr ⟨.result result, rfl⟩⟩
  | committing on answer =>
    refine Or.inl ?_
    obtain ⟨hfreed, -⟩ := commit_books (s := s) hcoherent
    have hover (hgoes : (c.commit s).1 ≠ .ok false) : ((c.commit s).2.tx s).isOpen = false := by
      refine (hfreed h.booked (Bool.eq_false_iff.mpr fun habort => hgoes ?_)).isOpen
      rw [commit_of_abort habort]
    simp only [step, hactivity] at hidle ⊢
    generalize c.commit s = committed at hidle hover
    obtain ⟨outcome, c₁⟩ := committed
    split at hidle
    next heq =>
      cases heq
      exact hover (by simp)
    next => cases hidle
    next heq =>
      cases heq
      exact hover (by simp)
  | rollingBack reply =>
    refine Or.inl ?_
    obtain ⟨hfreed, -⟩ := rollback_freed (s := s) hcoherent
    simp only [step, hactivity]
    exact (hfreed h.booked).isOpen

/-- What a call makes of a session. A reply that it gives at once tells of no ended transaction. -/
structure Starts (x : Session) (k : SessionCall) (x' : Session) : Prop where
  tells : ∀ known, x'.Tells known
  statement : x'.statement = x.statement ∨ k = .execute x'.statement
  replied : x'.activity = .idle → ∀ reply, x'.reply = some reply → Mild (fun _ => False) reply

variable {k : SessionCall}

theorem replied_finish {reply : Reply} (h : Mild (fun _ => False) reply)
    (_ : (x.finish reply).activity = .idle) (other : Reply) (hother : (x.finish reply).reply = some other) :
    Mild (fun _ => False) other := by
  cases hother
  exact h

theorem starts_finish {reply : Reply} (h : Mild (fun _ => False) reply) : x.Starts k (x.finish reply) :=
  ⟨fun _ => trivial, Or.inl rfl, replied_finish h⟩

theorem starts_busy (htells : ∀ known, x'.Tells known) (hbusy : x'.activity ≠ .idle)
    (hstatement : x'.statement = x.statement ∨ k = .execute x'.statement) : x.Starts k x' :=
  ⟨htells, hstatement, fun hidle => absurd hidle hbusy⟩

theorem settle_starts {outcome : Except Failure SessionTx} (h : Mild (fun _ => False) outcome) :
    x.Starts k (x.settle s c outcome).1 := by
  cases outcome with
  | error f => exact starts_finish (h.passed rfl)
  | ok tx => exact starts_finish (mild_ok _)

theorem undone_starts {undone : Except Failure Unit × Coordinator} {sql : String}
    (h : Mild (fun _ => False) undone.1) :
    x.Starts k (match undone with
      | (.error f, c) => (x.finish (.error f), c)
      | (.ok (), c) => (x.finish (.ok .done), c.noteStatement s sql)).1 := by
  obtain ⟨answer, c₁⟩ := undone
  cases answer with
  | error f => exact starts_finish (h.passed rfl)
  | ok done => exact starts_finish (mild_ok _)

theorem callOpen_starts (k : SessionCall) : x.Starts k (x.callOpen s c k).1 := by
  cases k with
  | begin => exact starts_finish (mild_ok _)
  | commit => exact starts_busy (fun _ => trivial) nofun (Or.inl rfl)
  | prepare =>
    dsimp only [callOpen]
    split
    next => exact starts_finish (mild_ok _)
    next => exact starts_busy (fun _ => trivial) nofun (Or.inl rfl)
  | rollback => exact starts_busy (fun _ => trivial) nofun (Or.inl rfl)
  | savepoint name => exact starts_finish (mild_ok _)
  | rollbackTo name => exact undone_starts mild_rollbackToSavepoint
  | rollbackToFirst => exact undone_starts mild_rollbackToIndex
  | release name =>
    dsimp only [callOpen]
    split
    next => exact starts_finish (mild_error rfl)
    next => exact starts_finish (mild_ok _)
  | setAutocommit on =>
    have hset : x.Starts (.setAutocommit on) (Session.finish { x with autocommit := on } (.ok .done)) :=
      ⟨fun _ => trivial, Or.inl rfl, replied_finish (mild_ok _)⟩
    dsimp only [callOpen]
    split
    next => exact starts_busy (fun _ => trivial) nofun (Or.inl rfl)
    next => exact hset
  | setIsolation level =>
    refine settle_starts ?_
    unfold SessionTx.setIsolation
    split
    next => exact mild_error rfl
    next => exact mild_ok _
  | setIsolationDefault level => exact starts_finish (mild_ok _)
  | setReadOnly on =>
    refine settle_starts ?_
    unfold SessionTx.setReadOnly
    split
    next => exact mild_error rfl
    next => exact mild_ok _
  | setReadOnlyDefault on => exact starts_finish (mild_ok _)
  | setLockWaitTimeout timeout =>
    exact ⟨fun _ => trivial, Or.inl rfl, replied_finish (mild_ok _)⟩
  | setControl mode =>
    have hanswer : Mild (fun _ => False) (setControl s c mode) := mild_setControl
    dsimp only [callOpen]
    cases hset : setControl s c mode with
    | error f => exact starts_finish (hanswer.passed hset)
    | ok done => exact starts_finish (mild_ok _)
  | execute statement =>
    dsimp only [callOpen]
    split
    next => exact starts_finish (mild_error rfl)
    next => exact starts_busy (fun _ => trivial) nofun (Or.inr rfl)
  | close =>
    have hleft : (x.close s c).1.statement = x.statement := by
      unfold close
      split <;> rfl
    exact ⟨fun _ => trivial, Or.inl hleft, replied_finish (mild_ok _)⟩

theorem call_starts (k : SessionCall) : x.Starts k (x.call s c k).1 := by
  have hopened (k : SessionCall) :
      x.Starts k (Session.callOpen { x with reply := none, runs := 0 } s c k).1 := by
    have hstarts : Session.Starts { x with reply := none, runs := 0 } k
      (Session.callOpen { x with reply := none, runs := 0 } s c k).1 := callOpen_starts k
    exact ⟨hstarts.tells, hstarts.statement, hstarts.replied⟩
  unfold call
  dsimp only
  split
  next =>
    split
    next => exact hopened _
    next => exact hopened _
    next => exact ⟨fun _ => trivial, Or.inl rfl, replied_finish (mild_error rfl)⟩
  next => exact hopened k

end Session

end LockingDb
