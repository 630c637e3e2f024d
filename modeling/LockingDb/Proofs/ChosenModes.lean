import LockingDb.Proofs.LogTurns
import LockingDb.Proofs.TransactionTerms

namespace LockingDb

open Coordinator Session

/-- What a session chooses for its transactions: the isolation level, or the access mode. -/
inductive Aspect where
  | level
  | access

def Aspect.Value : Aspect → Type
  | .level => IsolationLevel
  | .access => Bool

namespace SessionCall

/-- The call that chooses for the next transaction. -/
def choose : (a : Aspect) → a.Value → SessionCall
  | .level, level => .setIsolation level
  | .access, on => .setReadOnly on

/-- The call sets the level or the mode of the next transaction, or the default. -/
def sets (k : SessionCall) : Aspect → Bool
  | .level =>
    match k with
    | .setIsolation _ | .setIsolationDefault _ => true
    | _ => false
  | .access =>
    match k with
    | .setReadOnly _ | .setReadOnlyDefault _ => true
    | _ => false

end SessionCall

namespace Choices

/-- What holds for the open or the next transaction, and the default. -/
def about (c : Choices) : (a : Aspect) → a.Value × a.Value
  | .level => (c.isolation, c.isolationDefault)
  | .access => (c.readOnly, c.readOnlyDefault)

theorem about_restored (c : Choices) (a : Aspect) : c.restored.about a = ((c.about a).2, (c.about a).2) := by
  cases a <;> rfl

end Choices

/-- What the session has chosen, and its default. -/
def Coordinator.chosen (c : Coordinator) (s : SessionId) (a : Aspect) : a.Value × a.Value :=
  (c.tx s).choices.about a

namespace Coordinator

variable {c c' : Coordinator} {s : SessionId} {a : Aspect}

theorem chosen_of_choices (h : (c'.tx s).choices = (c.tx s).choices) : c'.chosen s a = c.chosen s a :=
  congrArg (·.about a) h

theorem chosen_setTx {tx : SessionTx} (h : tx.choices.about a = c.chosen s a) :
    (c.setTx s tx).chosen s a = c.chosen s a := by
  rw [chosen, tx_setTx_self]
  exact h

theorem Restores.chosen (h : Restores s c c') :
    c'.chosen s a = ((c.chosen s a).2, (c.chosen s a).2) := by
  have hrestored : c'.chosen s a = (c.tx s).choices.restored.about a := congrArg (·.about a) h.choices
  exact hrestored.trans (Choices.about_restored _ _)

end Coordinator

namespace Session

variable {c : Coordinator} {s : SessionId} {x : Session} {k : SessionCall} {a : Aspect}

theorem choices_runBody (body : StatementBody) :
    ((x.runBody s c body).2.tx s).choices = (c.tx s).choices := by
  cases body with
  | requestRedo next => exact choices_setTx rfl
  | raiseAbort next => exact choices_setTx rfl
  | insert t values next => exact SessionTx.choices_of_terms terms_insertInto
  | delete t position next => exact SessionTx.choices_of_terms terms_deleteAt
  | deleteWhere t test next =>
    dsimp only [runBody]
    split <;> rfl
  | _ => rfl

/-- A step that ends no transaction leaves the levels and modes of its session alone. -/
theorem choices_step (h : x.endsTx s c = false) :
    ((x.step s c).2.tx s).choices = (c.tx s).choices := by
  unfold step
  cases hactivity : x.activity with
  | idle => rfl
  | entering =>
    dsimp only
    split <;> rfl
  | acquiring =>
    have hbegun : ((c.beginStatement s x.statement.request).2.tx s).choices = (c.tx s).choices :=
      choices_beginStatement
    generalize c.beginStatement s x.statement.request = begun at hbegun
    obtain ⟨f | (_ | _), c₁⟩ := begun
    case error => cases f <;> exact hbegun
    all_goals exact hbegun
  | waiting =>
    dsimp only
    split <;> rfl
  | timedOut => exact SessionTx.choices_of_terms terms_cancelWait
  | resuming =>
    have hresumed : ((c.resumeStatement s).2.tx s).choices = (c.tx s).choices :=
      choices_resumeStatement
    dsimp only
    split
    next => rfl
    next =>
      generalize c.resumeStatement s = resumed at hresumed
      obtain ⟨answer, c₁⟩ := resumed
      cases answer <;> exact hresumed
  | running body => exact choices_runBody body
  | deleting t rows count next =>
    cases rows with
    | nil => rfl
    | cons row rows =>
      have hdeleted : ((c.recordDelete s t row).2.tx s).choices = (c.tx s).choices :=
        SessionTx.choices_of_terms terms_recordDelete
      dsimp only
      generalize c.recordDelete s t row = deleted at hdeleted
      obtain ⟨answer, c₁⟩ := deleted
      cases answer <;> exact hdeleted
  | failing error => exact SessionTx.choices_of_terms terms_rollbackStatement
  | failed error =>
    dsimp only
    split
    next => rfl
    next => split <;> rfl
  | finishing result =>
    have htaken : ((c.signal s fun _ => (c.tx s).signals.takeRedo.2).tx s).choices =
        (c.tx s).choices := choices_setTx rfl
    dsimp only
    split
    next => exact (SessionTx.choices_of_terms terms_rollbackStatement).trans htaken
    next => exact (SessionTx.choices_of_terms terms_completeStatement).trans htaken
  | finished result =>
    dsimp only
    split
    next => rfl
    next => split <;> rfl
  | committing autocommit answer =>
    have habort : c.abortRequested s = true := by simpa [endsTx, hactivity] using h
    dsimp only
    rw [commit_of_abort habort]
  | rollingBack reply => simp [endsTx, hactivity] at h

/-- The step of a commit or a rollback restores the defaults, whether it ends a transaction or finds
none. -/
theorem restores_step (h : x.endsTx s c = true) : Restores s c (x.step s c).2 := by
  unfold endsTx at h
  unfold step
  split at h
  next autocommit answer hactivity =>
    have hcommitted : Restores s c (c.commit s).2 := restores_commit (by simpa using h)
    rw [hactivity]
    generalize c.commit s = committed at hcommitted
    obtain ⟨f | (_ | _), c₁⟩ := committed <;> exact hcommitted
  next reply hactivity =>
    rw [hactivity]
    exact restores_rollback
  next => cases h

theorem chosen_settle {settled : Except Failure SessionTx}
    (h : ∀ tx, settled = .ok tx → tx.choices.about a = c.chosen s a) :
    (x.settle s c settled).2.chosen s a = c.chosen s a := by
  cases settled with
  | error f => rfl
  | ok tx => exact chosen_setTx (h tx rfl)

theorem chosen_unregister (hclosed : (c.tx s).isOpen = false)
    (hunlocked : (c.locks.locksOf s).isEmpty = true) : (c.unregister s).chosen s a = c.chosen s a := by
  have hleft : (c.withdraw s).chosen s a = c.chosen s a :=
    chosen_of_choices (SessionTx.choices_of_unlatched unlatched_withdraw)
  unfold unregister
  rw [hclosed, hunlocked]
  exact hleft

/-- A call on a session without a transaction changes what it has chosen only by setting it. -/
theorem chosen_callOpen (hclosed : (c.tx s).isOpen = false)
    (hunlocked : (c.locks.locksOf s).isEmpty = true) (hk : k.sets a = false) :
    (x.callOpen s c k).2.chosen s a = c.chosen s a := by
  cases k with
  | begin => exact chosen_of_choices choices_beginTransaction
  | prepare =>
    have hprepared : (c.prepare s).2.chosen s a = c.chosen s a := chosen_of_choices choices_prepare
    dsimp only [callOpen]
    generalize c.prepare s = prepared at hprepared
    obtain ⟨_ | _, c₁⟩ := prepared <;> exact hprepared
  | rollback =>
    dsimp only [callOpen]
    split <;> rfl
  | savepoint name =>
    have hsaved : (c.updateTx s (·.setSavepoint name)).chosen s a = c.chosen s a :=
      chosen_of_choices (choices_setTx rfl)
    exact hsaved
  | rollbackTo name =>
    have hundone : (c.rollbackToSavepoint s name).2.chosen s a = c.chosen s a :=
      chosen_of_choices (SessionTx.choices_of_terms terms_rollbackToSavepoint)
    dsimp only [callOpen]
    generalize c.rollbackToSavepoint s name = undone at hundone
    obtain ⟨answer, c₁⟩ := undone
    cases answer <;> exact hundone
  | rollbackToFirst =>
    have hundone : (c.rollbackToIndex s 0).2.chosen s a = c.chosen s a :=
      chosen_of_choices (SessionTx.choices_of_terms terms_rollbackToIndex)
    dsimp only [callOpen]
    generalize c.rollbackToIndex s 0 = undone at hundone
    obtain ⟨answer, c₁⟩ := undone
    cases answer <;> exact hundone
  | release name =>
    dsimp only [callOpen]
    split
    next => rfl
    next => exact chosen_of_choices (choices_setTx rfl)
  | setAutocommit on =>
    dsimp only [callOpen]
    split <;> rfl
  | setIsolation level =>
    cases a with
    | level => cases hk
    | access =>
      apply chosen_settle
      intro tx htx
      rw [SessionTx.setIsolation, hclosed] at htx
      cases htx
      rfl
  | setReadOnly on =>
    cases a with
    | level =>
      apply chosen_settle
      intro tx htx
      rw [SessionTx.setReadOnly, hclosed] at htx
      cases htx
      rfl
    | access => cases hk
  | setIsolationDefault level =>
    cases a with
    | level => cases hk
    | access => exact chosen_setTx rfl
  | setReadOnlyDefault on =>
    cases a with
    | level => exact chosen_setTx rfl
    | access => cases hk
  | execute statement =>
    dsimp only [callOpen]
    split <;> rfl
  | close =>
    dsimp only [callOpen, close]
    split
    next => rfl
    next => exact chosen_unregister hclosed hunlocked
  | _ => rfl

theorem chosen_call (hclosed : (c.tx s).isOpen = false)
    (hunlocked : (c.locks.locksOf s).isEmpty = true) (hk : k.sets a = false) :
    (x.call s c k).2.chosen s a = c.chosen s a := by
  by_cases hgone : x.closed = true
  · obtain ⟨timeout, reply, hcall⟩ := call_of_closed (s := s) (c := c) hgone k
    rw [hcall]
  · rw [call_of_open (Bool.eq_false_iff.mpr hgone)]
    exact chosen_callOpen hclosed hunlocked hk

/-- A call that sets what holds for the next transaction opens none. -/
theorem isOpen_of_sets (hclosed : (c.tx s).isOpen = false) (hk : k.sets a = true) :
    ((x.call s c k).2.tx s).isOpen = false := by
  by_cases hgone : x.closed = true
  · obtain ⟨timeout, reply, hcall⟩ := call_of_closed (s := s) (c := c) hgone k
    rw [hcall]
    exact hclosed
  · rw [call_of_open (Bool.eq_false_iff.mpr hgone)]
    cases k with
    | setIsolation level =>
      simp [callOpen, SessionTx.setIsolation, settle, hclosed, tx_setTx_self]
    | setReadOnly on => simp [callOpen, SessionTx.setReadOnly, settle, hclosed, tx_setTx_self]
    | setIsolationDefault level =>
      simp [callOpen, SessionTx.setIsolationDefault, hclosed, tx_updateTx_self]
    | setReadOnlyDefault on =>
      simp [callOpen, SessionTx.setReadOnlyDefault, hclosed, tx_updateTx_self]
    | _ => cases a <;> cases hk

/-- A choice that a session has answered with success holds for its next transaction. -/
theorem chosen_choose {v : a.Value}
    (hreply : (x.call s c (.choose a v)).1.reply = some (.ok .done)) :
    (x.call s c (.choose a v)).2.chosen s a = (v, (c.chosen s a).2) := by
  by_cases hgone : x.closed = true
  · cases a <;> simp [call, SessionCall.choose, hgone, finish] at hreply
  · rw [call_of_open (Bool.eq_false_iff.mpr hgone)] at hreply ⊢
    cases hopen : (c.tx s).isOpen with
    | true =>
      -- A call that is refused does not answer that it is done.
      cases a <;> simp [SessionCall.choose, callOpen, SessionTx.setIsolation, SessionTx.setReadOnly,
        settle, hopen, finish] at hreply
    | false =>
      cases a <;> simp [SessionCall.choose, callOpen, SessionTx.setIsolation, SessionTx.setReadOnly,
        settle, hopen, chosen, tx_setTx_self, Choices.about, SessionTx.choices]

end Session

/-- The move is a call of the session that sets its level or mode, or the default. -/
def Move.sets (s : SessionId) (a : Aspect) : Move → Bool
  | .call y k => y == s && k.sets a
  | _ => false

namespace Database

variable {db : Database} {s : SessionId} {m : Move} {a : Aspect} {during : List Move}

/-- The session takes the call, and answers that it is done. -/
def Accepts (db : Database) (s : SessionId) (k : SessionCall) : Prop :=
  ∃ x, db.sessions.get? s = some x ∧ x.isIdle = true ∧
    (x.call s db.coordinator k).1.reply = some (.ok .done)

/-- The session takes the step of a commit or a rollback. -/
def restores (db : Database) (s : SessionId) : Move → Bool
  | .advance y => db.endsTx s (.advance y)
  | _ => false

def restoresIn (db : Database) (s : SessionId) : List Move → Bool
  | [] => false
  | m :: rest => db.restores s m || (db.perform m).restoresIn s rest

/-- The session is without a transaction, all through a run. -/
def StaysClosed (db : Database) (s : SessionId) : List Move → Prop
  | [] => (db.coordinator.tx s).isOpen = false
  | m :: rest => (db.coordinator.tx s).isOpen = false ∧ (db.perform m).StaysClosed s rest

instance instDecidableStaysClosed (db : Database) (s : SessionId) : (moves : List Move) →
    Decidable (db.StaysClosed s moves)
  | [] => inferInstanceAs (Decidable ((db.coordinator.tx s).isOpen = false))
  | m :: rest =>
    have := instDecidableStaysClosed (db.perform m) s rest
    inferInstanceAs (Decidable ((db.coordinator.tx s).isOpen = false ∧
      (db.perform m).StaysClosed s rest))

theorem coordinator_withSession (db : Database) (s : SessionId)
    (f : Session → Coordinator → Session × Coordinator) :
    (db.withSession s f).coordinator = db.coordinator ∨ ∃ x, db.sessions.get? s = some x ∧
      (db.withSession s f).coordinator = (f x db.coordinator).2 := by
  unfold Database.withSession
  cases hx : db.sessions.get? s with
  | none => exact Or.inl rfl
  | some x => exact Or.inr ⟨x, rfl, rfl⟩

/-- What a session does when it makes another move than a step: nothing, or it starts a call. -/
theorem perform_called (hm : m.mover? = some s) (hstep : m ≠ .advance s) :
    (db.perform m).coordinator = db.coordinator ∨ ∃ x k, db.sessions.get? s = some x ∧
      x.isIdle = true ∧ (m = .call s k ∨ m = .drop s ∧ k = .close) ∧
        (db.perform m).coordinator = (x.call s db.coordinator k).2 := by
  have hidles {k : SessionCall} (hk : m = .call s k ∨ m = .drop s ∧ k = .close)
      {f : Session → Coordinator → Session × Coordinator}
      (hf : ∀ x c, (f x c).2 = if x.isIdle then (x.call s c k).2 else c)
      (hperform : (db.perform m).coordinator = (db.withSession s f).coordinator) :
      (db.perform m).coordinator = db.coordinator ∨ ∃ x k, db.sessions.get? s = some x ∧
        x.isIdle = true ∧ (m = .call s k ∨ m = .drop s ∧ k = .close) ∧
          (db.perform m).coordinator = (x.call s db.coordinator k).2 := by
    rw [hperform]
    rcases coordinator_withSession db s f with hsame | ⟨x, hx, hmade⟩
    · exact Or.inl hsame
    · rw [hf] at hmade
      split at hmade
      next hidle => exact Or.inr ⟨x, k, hx, hidle, hk, hmade⟩
      next => exact Or.inl hmade
  cases m with
  | advance y =>
    cases hm
    exact absurd rfl hstep
  | call y k =>
    cases hm
    refine hidles (f := fun x c => if x.isIdle then x.call s c k else (x, c)) (Or.inl rfl) ?_ rfl
    intro x c
    split <;> rfl
  | drop y =>
    cases hm
    refine hidles (f := fun x c => if x.isIdle then x.close s c else (x, c)) (Or.inr ⟨rfl, rfl⟩) ?_
      coordinator_drop
    intro x c
    rw [coordinator_close]
    split <;> rfl
  | _ => cases hm

/-- What the session has chosen, after it goes back to the defaults if it does. -/
def choiceAfter (db : Database) (s : SessionId) (a : Aspect) (restored : Bool) : a.Value × a.Value :=
  if restored then ((db.coordinator.chosen s a).2, (db.coordinator.chosen s a).2)
  else db.coordinator.chosen s a

theorem Standing.locksOf_isEmpty (h : db.Standing) {x : Session} (hx : db.sessions.get? s = some x)
    (hidle : x.isIdle = true) (hclosed : (db.coordinator.tx s).isOpen = false) :
    (db.coordinator.locks.locksOf s).isEmpty = true := by
  have hrest : db.coordinator.AtRest s := (h.ready hx).atRest (activity_of_isIdle hidle)
  rw [IdMap.isEmpty_iff]
  exact hrest.unlocked hclosed

theorem restores_of_ne (hm : m ≠ .advance s) : db.restores s m = false := by
  cases m with
  | advance y =>
    have hy : y ≠ s := by
      rintro rfl
      exact hm rfl
    simp [restores, endsTx, hy]
  | _ => rfl

theorem chosen_advance : (db.perform (.advance s)).coordinator.chosen s a =
    db.choiceAfter s a (db.restores s (.advance s)) := by
  cases hx : db.sessions.get? s with
  | none =>
    have hstays : db.advance s = db := by simp [Database.advance, withSession, hx]
    have hnot : db.restores s (.advance s) = false := by simp [restores, endsTx, hx]
    rw [hnot]
    exact congrArg (fun db : Database => db.coordinator.chosen s a) hstays
  | some x =>
    have hends : db.restores s (.advance s) = x.endsTx s db.coordinator := by
      simp [restores, endsTx, hx]
    rw [perform_advance hx, hends]
    cases hstep : x.endsTx s db.coordinator with
    | true => exact (restores_step hstep).chosen
    | false => exact chosen_of_choices (choices_step hstep)

/-- What a session without a transaction has chosen is changed by its own calls that set it, and by
its steps that commit or roll back. -/
theorem Standing.chosen_perform (h : db.Standing) (hclosed : (db.coordinator.tx s).isOpen = false)
    (hknown : s < db.coordinator.nextSession) (hkept : m.sets s a = false) :
    (db.perform m).coordinator.chosen s a = db.choiceAfter s a (db.restores s m) := by
  by_cases hstep : m = .advance s
  · rw [hstep]
    exact chosen_advance
  · rw [restores_of_ne hstep]
    by_cases hown : m.mover? = some s
    · rcases perform_called hown hstep with hsame | ⟨x, k, hx, hidle, hcall, hmade⟩
      · rw [hsame]
        rfl
      · have hk : k.sets a = false := by
          rcases hcall with rfl | ⟨-, rfl⟩
          · simpa [Move.sets] using hkept
          · cases a <;> rfl
        rw [hmade]
        exact chosen_call hclosed (h.locksOf_isEmpty hx hidle hclosed) hk
    · rcases h.tx_of_other hown with ⟨signals, htx⟩ | ⟨rfl, -⟩
      · apply chosen_of_choices
        rw [htx]
        rfl
      · exact absurd hknown (Nat.lt_irrefl _)

theorem Standing.nextSession_le (h : db.Standing) :
    db.coordinator.nextSession ≤ (db.perform m).coordinator.nextSession := by
  cases hm : m.mover? with
  | some y =>
    have hspares : Spares (y + 1) db.coordinator (db.perform m).coordinator :=
      h.spares_other hm (Nat.succ_ne_self y)
    exact Nat.le_of_eq hspares.nextSession.symm
  | none =>
    cases m with
    | connect => exact Nat.le_succ _
    | expire y => exact Nat.le_of_eq (congrArg Coordinator.nextSession coordinator_expire).symm
    | call y k => cases hm
    | advance y => cases hm
    | drop y => cases hm
    | _ => exact Nat.le_refl _

/-- As long as no transaction is opened and nothing is set, a session goes on with what it has
chosen, or with its default once it has taken the step of a commit or a rollback. -/
theorem Standing.chosen_run (h : db.Standing) (hknown : s < db.coordinator.nextSession)
    (hstays : db.StaysClosed s during) (hkept : ∀ m ∈ during, m.sets s a = false) :
    (db.run during).coordinator.chosen s a = db.choiceAfter s a (db.restoresIn s during) ∧
      s < (db.run during).coordinator.nextSession ∧
      ((db.run during).coordinator.tx s).isOpen = false := by
  induction during generalizing db with
  | nil => exact ⟨rfl, hknown, hstays⟩
  | cons m rest ih =>
    obtain ⟨hclosed, hrest⟩ := hstays
    have hperformed : (db.perform m).coordinator.chosen s a = db.choiceAfter s a (db.restores s m) :=
      h.chosen_perform hclosed hknown (hkept m List.mem_cons_self)
    obtain ⟨hchosen, hlater⟩ := ih (h.perform m) (Nat.lt_of_lt_of_le hknown h.nextSession_le) hrest
      fun k hk => hkept k (List.mem_cons_of_mem m hk)
    refine ⟨hchosen.trans ?_, hlater⟩
    -- Once restored, the choice is the default, and a second restoration leaves it there.
    rw [choiceAfter, hperformed, choiceAfter, choiceAfter, restoresIn]
    cases db.restores s m <;> cases (db.perform m).restoresIn s rest <;> rfl

/-- The move that opens a transaction neither sets anything for the session nor restores it. -/
theorem opening_leaves (hclosed : (db.coordinator.tx s).isOpen = false)
    (hopens : ((db.perform m).coordinator.tx s).isOpen = true) :
    m.sets s a = false ∧ db.restores s m = false := by
  have hnot {c : Coordinator} (hsame : (db.perform m).coordinator = c) : (c.tx s).isOpen ≠ false := by
    rw [← hsame, hopens]
    nofun
  constructor
  · rw [Bool.eq_false_iff]
    intro hsets
    cases m with
    | call y k =>
      simp only [Move.sets, Bool.and_eq_true, beq_iff_eq] at hsets
      obtain ⟨rfl, hk⟩ := hsets
      have hmover : (Move.call y k).mover? = some y := rfl
      rcases perform_called hmover nofun with hsame | ⟨x, k', -, -, hcall, hmade⟩
      · exact hnot hsame hclosed
      · rcases hcall with heq | ⟨hdrop, -⟩
        · cases heq
          exact hnot hmade (isOpen_of_sets hclosed hk)
        · cases hdrop
    | _ => cases hsets
  · rw [Bool.eq_false_iff]
    intro hrestores
    cases m with
    | advance y =>
      obtain ⟨hy, hends⟩ := Bool.and_eq_true_iff.mp hrestores
      obtain rfl := eq_of_beq hy
      obtain ⟨x, hx, hstep⟩ := (Option.any_eq_true _ _).mp hends
      rw [perform_advance hx, (restores_step hstep).isOpen] at hopens
      cases hopens
    | _ => cases hrestores

/-- What a session has chosen reaches its next transaction, unless it takes the step of a commit or a
rollback before that. Even if such a step ends no transaction, the next one begins with the
default. -/
theorem opens_as_chosen {settings : Settings} {journal : Journal}
    (hopen : openWith? settings journal = .ok db) (before : List Move) (a : Aspect) (v : a.Value)
    (haccepts : (db.run before).Accepts s (.choose a v))
    (hstays : (db.run (before ++ [.call s (.choose a v)])).StaysClosed s during)
    (hkept : ∀ m ∈ during, m.sets s a = false)
    (hopens : ((db.run (before ++ [.call s (.choose a v)] ++ during ++ [m])).coordinator.tx s).isOpen =
      true) :
    ((db.run (before ++ [.call s (.choose a v)] ++ during ++ [m])).coordinator.chosen s a).1 =
      if (db.run (before ++ [.call s (.choose a v)])).restoresIn s during then
        ((db.run before).coordinator.chosen s a).2
      else v := by
  have hstanding : (db.run before).Standing := by
    rw [openWith?_eq hopen]
    exact (standing_fresh settings journal).run before
  obtain ⟨x, hx, hidle, hreply⟩ := haccepts
  obtain ⟨db₁, hdb₁⟩ : ∃ db₁, db.run (before ++ [.call s (.choose a v)]) = db₁ := ⟨_, rfl⟩
  have hperformed : db₁ = (db.run before).perform (.call s (.choose a v)) := by
    rw [← hdb₁, run_append]
    rfl
  rw [run_append, run_append, hdb₁] at hopens ⊢
  rw [hdb₁] at hstays
  have hafter : db₁.coordinator.chosen s a = (v, ((db.run before).coordinator.chosen s a).2) := by
    rw [hperformed, perform_call hx hidle]
    exact chosen_choose hreply
  have hknown : s < db₁.coordinator.nextSession := by
    rw [hperformed]
    exact Nat.lt_of_lt_of_le (hstanding.known s x hx) hstanding.nextSession_le
  have hready : db₁.Standing := hperformed ▸ hstanding.perform _
  obtain ⟨hrun, hstill, hclosed⟩ := hready.chosen_run hknown hstays hkept
  obtain ⟨hsets, hrestores⟩ := opening_leaves hclosed hopens
  have hlast := (hready.run during).chosen_perform hclosed hstill hsets
  rw [hrestores] at hlast
  have hbegins : ((db₁.run during).run [m]).coordinator.chosen s a =
      db₁.choiceAfter s a (db₁.restoresIn s during) := hlast.trans hrun
  rw [hbegins, choiceAfter, hafter]
  split <;> rfl

/-- Session 1 asks for a rollback, though it has no transaction. -/
def rollbackNothing : List Move := [.call 1 .rollback, .advance 1]

/-- A savepoint leaves the choice alone, a rollback of nothing restores the default. -/
theorem opens_as_chosen_serializable : ∃ db, openWith? .default .empty = .ok db ∧
    ((db.run [.connect, .call 1 (.setIsolation .serializable), .call 1 (.savepoint "start"),
      .call 1 .begin]).coordinator.tx 1).isolation = .serializable ∧
    ((db.run ([.connect, .call 1 (.setIsolation .serializable)] ++ rollbackNothing ++
      [.call 1 .begin])).coordinator.tx 1).isolation = .readCommitted := by
  obtain ⟨db, hopen⟩ : ∃ db, openWith? .default .empty = .ok db := ⟨_, rfl⟩
  have hdb := openWith?_eq hopen
  have haccepts : (db.run [.connect]).Accepts 1 (.choose .level .serializable) := by
    rw [hdb]
    exact ⟨_, rfl, rfl, rfl⟩
  refine ⟨db, hopen, ?_, ?_⟩
  · have hstays : (db.run ([.connect] ++ [.call 1 (.choose .level .serializable)])).StaysClosed 1
        [.call 1 (.savepoint "start")] := by
      rw [hdb]
      decide
    have hbegun := opens_as_chosen hopen [.connect] .level .serializable haccepts hstays (by decide)
      (m := .call 1 .begin) (by rw [hdb]; decide)
    rw [hdb] at hbegun ⊢
    exact hbegun
  · have hstays : (db.run ([.connect] ++ [.call 1 (.choose .level .serializable)])).StaysClosed 1
        rollbackNothing := by
      rw [hdb]
      decide
    have hbegun := opens_as_chosen hopen [.connect] .level .serializable haccepts hstays (by decide)
      (m := .call 1 .begin) (by rw [hdb]; decide)
    rw [hdb] at hbegun ⊢
    exact hbegun

/-- A choice does not always reach the next transaction. -/
theorem choice_lost_unopened : ¬ ∀ (settings : Settings) (journal : Journal) (db : Database)
    (before during : List Move) (m : Move) (s : SessionId) (a : Aspect) (v : a.Value),
    openWith? settings journal = .ok db → (db.run before).Accepts s (.choose a v) →
    (db.run (before ++ [.call s (.choose a v)])).StaysClosed s during →
    (∀ m ∈ during, m.sets s a = false) →
    ((db.run (before ++ [.call s (.choose a v)] ++ during ++ [m])).coordinator.tx s).isOpen = true →
    ((db.run (before ++ [.call s (.choose a v)] ++ during ++ [m])).coordinator.chosen s a).1 = v := by
  intro hall
  obtain ⟨db, hopen⟩ : ∃ db, openWith? .default .empty = .ok db := ⟨_, rfl⟩
  have hdb := openWith?_eq hopen
  have hchosen := hall .default .empty db [.connect] rollbackNothing (.call 1 .begin) 1 .access true hopen
  rw [hdb] at hchosen
  have hwrites : false = true := hchosen ⟨_, rfl, rfl, rfl⟩ (by decide) (by decide) (by decide)
  cases hwrites

end Database

end LockingDb
