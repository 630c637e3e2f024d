import LockingDb.Proofs.LogKeeping
import LockingDb.Proofs.SessionBoundary

namespace LockingDb

open Coordinator Session

/-- Where a session is with the runs of its statement: in none of them, in one, after the last one,
or at work on something else. -/
inductive Phase where
  | outside
  | inside
  | completed
  | elsewhere
  deriving DecidableEq

namespace Coordinator

variable {c c' : Coordinator} {s : SessionId} {e : Option Event}

/-- A turn after which the log and the savepoints are not fewer only adds to the log. -/
theorem Turn.grows (h : Turn s c c' e)
    (hactions : (c.tx s).actions.length ≤ (c'.tx s).actions.length)
    (hsavepoints : (c.tx s).savepoints.length ≤ (c'.tx s).savepoints.length) :
    (c.tx s).actions <+: (c'.tx s).actions ∧ (c'.tx s).savepoints = (c.tx s).savepoints := by
  cases h with
  | stays hwork howners hgoes =>
    exact ⟨actions_of_work hwork ▸ List.prefix_refl _, savepoints_of_work hwork⟩
  | adds hkind hgrown hkept hfree howners => exact ⟨hgrown ▸ List.prefix_append _ _, hkept⟩
  | @cuts _ n k hcut hkept hfits hfrees hends =>
    rw [hcut, List.length_take, Nat.le_min] at hactions
    rw [hkept, List.length_take, Nat.le_min] at hsavepoints
    rw [List.take_of_length_le hactions.1] at hcut
    rw [List.take_of_length_le hsavepoints.1] at hkept
    exact ⟨hcut ▸ List.prefix_refl _, hkept⟩

end Coordinator

namespace Session

variable {s : SessionId} {c c' c₁ : Coordinator} {x x' : Session} {d : Draft} {k : SessionCall}
  {activity : Activity}

def phase (x : Session) : Phase :=
  match x.activity with
  | .running _ | .deleting _ _ _ _ | .failing _ | .finishing _ => .inside
  | .finished _ => .completed
  | .idle | .committing _ _ | .rollingBack _ => .elsewhere
  | _ => .outside

/-- With its next step the session takes back what the run of its statement has done: the body has
failed, or a redo was asked for. -/
def takesBack (x : Session) (s : SessionId) (c : Coordinator) : Bool :=
  match x.activity with
  | .failing _ => true
  | .finishing _ => (c.tx s).signals.redo
  | _ => false

/-- What a step of a session does for its statement. -/
inductive Passes (x : Session) (s : SessionId) (c c' : Coordinator) (x' : Session) : Prop where
  | leaves (helsewhere : x'.phase = .elsewhere)
  | waits (hfrom : x.phase = .outside) (hto : x'.phase = .outside)
      (hstatement : x'.statement = x.statement) (hwork : (c'.tx s).work = (c.tx s).work)
  | begins (hfrom : x.activity = .resuming) (hto : x' =
        { x with activity := .running (x.statement.body (x.runs + 1)), runs := x.runs + 1 })
      (hquiet : Quiet s c c')
  | works (hfrom : x.phase = .inside) (hgoes : x.takesBack s c = false) (hto : x'.phase = .inside)
      (hstatement : x'.statement = x.statement) (hruns : x'.runs = x.runs)
  | takesBack (htakes : x.takesBack s c = true) (hto : x'.phase = .outside)
      (hstatement : x'.statement = x.statement)
      (hactions : (c'.tx s).actions = (c.tx s).actions.take (c.tx s).statementStart)
      (hsavepoints : (c'.tx s).savepoints = (c.tx s).savepoints)
  | completes (hfrom : x.phase = .inside) (hto : x'.phase = .completed) (hruns : x'.runs = x.runs)
      (hwork : (c'.tx s).work = (c.tx s).work)

theorem runBody_phase (body : StatementBody) : (x.runBody s c body).1.phase = .inside ∧
    (x.runBody s c body).1.statement = x.statement ∧ (x.runBody s c body).1.runs = x.runs := by
  cases body with
  | deleteWhere t test next =>
    dsimp only [runBody]
    split <;> exact ⟨rfl, rfl, rfl⟩
  | _ => exact ⟨rfl, rfl, rfl⟩

theorem step_of_takesBack (htakes : x.takesBack s c = true) : (x.step s c).1.phase = .outside ∧
    (x.step s c).1.statement = x.statement ∧
    ((x.step s c).2.tx s).actions = (c.tx s).actions.take (c.tx s).statementStart ∧
    ((x.step s c).2.tx s).savepoints = (c.tx s).savepoints := by
  cases hactivity : x.activity with
  | failing error =>
    simp only [step, hactivity]
    exact ⟨rfl, rfl, actions_rollbackStatement, savepoints_rollbackStatement⟩
  | finishing result =>
    simp only [takesBack, hactivity] at htakes
    have hredo : (c.tx s).signals.takeRedo.1 = true := htakes
    have htx : (c.signal s fun _ => (c.tx s).signals.takeRedo.2).tx s =
        { c.tx s with signals := (c.tx s).signals.takeRedo.2 } := tx_signal_self
    simp only [step, hactivity, hredo, if_true]
    refine ⟨rfl, rfl, ?_, ?_⟩
    · rw [actions_rollbackStatement, htx]
    · rw [savepoints_rollbackStatement, htx]
  | _ => simp [takesBack, hactivity] at htakes

theorem step_passes : x.Passes s c (x.step s c).2 (x.step s c).1 := by
  cases hactivity : x.activity with
  | idle =>
    simp only [step, hactivity]
    exact .leaves (by simp [phase, hactivity])
  | entering =>
    simp only [step, hactivity]
    split
    next => exact .leaves rfl
    next => exact .waits (by simp [phase, hactivity]) rfl rfl rfl
  | acquiring =>
    have hbegins := c.beginStatement_begins s x.statement.request
    have hfrom : x.phase = .outside := by simp [phase, hactivity]
    simp only [step, hactivity]
    generalize c.beginStatement s x.statement.request = begun at hbegins
    obtain ⟨answer, c₁⟩ := begun
    split
    next heq =>
      cases heq
      exact .waits hfrom rfl rfl hbegins.quiet.work
    next heq =>
      cases heq
      exact .waits hfrom rfl rfl hbegins.quiet.work
    next => exact .leaves rfl
    next => exact .leaves rfl
  | waiting =>
    have hfrom : x.phase = .outside := by simp [phase, hactivity]
    simp only [step, hactivity]
    split
    next => exact .waits hfrom rfl rfl rfl
    next => exact .leaves rfl
    next => exact .waits hfrom rfl rfl rfl
    next => exact .waits hfrom hfrom rfl rfl
  | timedOut =>
    simp only [step, hactivity]
    exact .leaves rfl
  | resuming =>
    have hquiet : Quiet s c (c.resumeStatement s).2 := quiet_resumeStatement
    simp only [step, hactivity]
    split
    next => exact .leaves rfl
    next =>
      generalize c.resumeStatement s = resumed at hquiet
      obtain ⟨answer, c₁⟩ := resumed
      cases answer with
      | error f => exact .leaves rfl
      | ok done => exact .begins hactivity rfl hquiet
  | running body =>
    obtain ⟨hto, hstatement, hruns⟩ := runBody_phase (x := x) (s := s) (c := c) body
    simp only [step, hactivity]
    exact .works (by simp [phase, hactivity]) (by simp [takesBack, hactivity]) hto hstatement hruns
  | deleting t rows count next =>
    have hfrom : x.phase = .inside := by simp [phase, hactivity]
    have hgoes : x.takesBack s c = false := by simp [takesBack, hactivity]
    cases rows with
    | nil =>
      simp only [step, hactivity]
      exact .works hfrom hgoes rfl rfl rfl
    | cons row rows =>
      simp only [step, hactivity]
      split <;> exact .works hfrom hgoes rfl rfl rfl
  | failing error =>
    have htakes : x.takesBack s c = true := by simp [Session.takesBack, hactivity]
    obtain ⟨hto, hstatement, hactions, hsavepoints⟩ := step_of_takesBack htakes
    exact .takesBack htakes hto hstatement hactions hsavepoints
  | failed error =>
    simp only [step, hactivity]
    split
    next => exact .leaves rfl
    next => split <;> exact .leaves rfl
  | finishing result =>
    by_cases hredo : (c.tx s).signals.redo = true
    · have htakes : x.takesBack s c = true := by simp [Session.takesBack, hactivity, hredo]
      obtain ⟨hto, hstatement, hactions, hsavepoints⟩ := step_of_takesBack htakes
      exact .takesBack htakes hto hstatement hactions hsavepoints
    · have hsignalled : Quiet s c (c.signal s fun _ => (c.tx s).signals.takeRedo.2) := quiet_signal
      have hkept : (c.tx s).signals.takeRedo.1 = false := Bool.eq_false_iff.mpr hredo
      simp only [step, hactivity, hkept, Bool.false_eq_true, if_false]
      exact .completes (by simp [phase, hactivity]) rfl rfl
        (hsignalled.trans quiet_completeStatement).work
  | finished result =>
    simp only [step, hactivity]
    split
    next => exact .leaves rfl
    next => split <;> exact .leaves rfl
  | committing autocommit answer =>
    simp only [step, hactivity]
    split <;> exact .leaves rfl
  | rollingBack reply =>
    simp only [step, hactivity]
    exact .leaves rfl

theorem step_of_finished {result : StatementResult} (h : x.activity = .finished result) :
    (x.step s c).2 = c := by
  simp only [step, h]
  split
  next => rfl
  next => split <;> rfl

/-- A statement is refused at once, or it starts. -/
theorem call_execute (x : Session) (statement : Statement) :
    (x.call s c (.execute statement)).1.phase = .elsewhere ∨
      (x.call s c (.execute statement)).1.phase = .outside ∧
      (x.call s c (.execute statement)).1.statement = statement := by
  unfold Session.call
  dsimp only
  split
  next => exact .inl rfl
  next =>
    dsimp only [callOpen]
    split
    next => exact .inl rfl
    next => exact .inr ⟨rfl, rfl⟩

/-- The body of a statement adds to the draft of its session. -/
theorem redraft_inside (hx : x.phase = .inside) (hgoes : x.takesBack s c = false) :
    (x.redraft s c d).statement = d.statement ∧ (x.redraft s c d).savepoints = d.savepoints ∧
      d.changes <+: (x.redraft s c d).changes := by
  have hsame (h : x.redraft s c d = d) : (x.redraft s c d).statement = d.statement ∧
      (x.redraft s c d).savepoints = d.savepoints ∧ d.changes <+: (x.redraft s c d).changes := by
    rw [h]
    exact ⟨rfl, rfl, List.prefix_refl _⟩
  have hadds {k : Change} (h : x.redraft s c d = d.add k) :
      (x.redraft s c d).statement = d.statement ∧ (x.redraft s c d).savepoints = d.savepoints ∧
        d.changes <+: (x.redraft s c d).changes := by
    rw [h]
    exact ⟨rfl, rfl, List.prefix_append _ _⟩
  cases hactivity : x.activity with
  | running body =>
    cases body with
    | insert t values next =>
      cases hanswer : (c.insertInto s x.statement.request t values).1 with
      | error f => exact hsame (by simp only [redraft, hactivity, hanswer])
      | ok position => exact hadds (by simp only [redraft, hactivity, hanswer]; rfl)
    | delete t position next =>
      cases hfound : c.storage.get? t position with
      | none => exact hsame (by simp only [redraft, hactivity, hfound])
      | some row =>
        cases hanswer : (c.deleteAt s x.statement.request t position).1 with
        | error f => exact hsame (by simp only [redraft, hactivity, hfound, hanswer])
        | ok done => exact hadds (by simp only [redraft, hactivity, hfound, hanswer]; rfl)
    | _ => exact hsame (by simp only [redraft, hactivity])
  | deleting t rows count next =>
    cases rows with
    | nil => exact hsame (by simp only [redraft, hactivity])
    | cons row rows =>
      cases hanswer : (c.recordDelete s t row).1 with
      | error f => exact hsame (by simp only [redraft, hactivity, hanswer])
      | ok done => exact hadds (by simp only [redraft, hactivity, hanswer]; rfl)
  | failing error => simp [takesBack, hactivity] at hgoes
  | finishing result =>
    simp only [takesBack, hactivity] at hgoes
    exact hsame (by simp only [redraft, hactivity, hgoes, Bool.false_eq_true, if_false])
  | _ => simp [phase, hactivity] at hx

theorem inside_of_takesBack (htakes : x.takesBack s c = true) : x.phase = .inside := by
  cases hactivity : x.activity with
  | failing error => simp [phase, hactivity]
  | finishing result => simp [phase, hactivity]
  | _ => simp [takesBack, hactivity] at htakes

theorem redraft_of_takesBack (htakes : x.takesBack s c = true) :
    (x.redraft s c d).changes = d.statement := by
  cases hactivity : x.activity with
  | failing error =>
    simp only [redraft, hactivity]
    rfl
  | finishing result =>
    simp only [takesBack, hactivity] at htakes
    simp only [redraft, hactivity, htakes, if_true]
    rfl
  | _ => simp [takesBack, hactivity] at htakes

theorem AtWork.inStatement (h : x.AtWork s c d) (htakes : x.takesBack s c = true) :
    d.InStatement (c.tx s) := by
  unfold AtWork at h
  cases hactivity : x.activity with
  | failing error => simpa only [hactivity] using h
  | finishing result => simpa only [hactivity] using h
  | _ => simp [takesBack, hactivity] at htakes

/-- In the run of a statement no transaction ends. -/
theorem observe_inside (hx : x.phase = .inside) : GoesOn (x.observe s c) := by
  cases hactivity : x.activity with
  | running body =>
    simp only [observe, hactivity]
    exact goesOn_map
  | deleting t rows count next =>
    cases rows with
    | nil =>
      simp only [observe, hactivity]
      exact goesOn_none
    | cons row rows =>
      simp only [observe, hactivity]
      exact goesOn_access
  | failing error =>
    simp only [observe, hactivity]
    exact goesOn_none
  | finishing result =>
    simp only [observe, hactivity]
    exact goesOn_none
  | _ => simp [phase, hactivity] at hx

theorem activity_of_phase (h : x.phase ≠ .elsewhere) : x.activity ≠ .idle := by
  intro hidle
  simp [phase, hidle] at h

end Session

namespace Database

variable {db : Database} {s : SessionId} {x z : Session} {m : Move} {l : Ledger} {k : SessionCall}
  {moves : List Move}

section Advance

variable (hx : db.sessions.get? s = some x)
include hx

theorem get?_advance : (db.perform (.advance s)).sessions.get? s =
    some (x.step s db.coordinator).1 := by
  rw [perform_advance hx]
  exact IdMap.get?_insert_self

theorem observe_advance : db.observe (.advance s) = x.observe s db.coordinator := by
  show ((db.sessions.get? s).bind fun x => x.observe s db.coordinator) = _
  rw [hx, Option.bind_some]

theorem ends_advance (hphase : x.phase = .inside) :
    ∀ event ∈ db.observe (.advance s), event.ends s = false := by
  rw [observe_advance hx]
  exact (observe_inside hphase).ends

theorem draft_advance : (db.record l (.advance s)).draft s =
    x.redraft s db.coordinator (l.draft s) := by
  unfold record
  simp only [hx, Ledger.draft_note_self]

end Advance

theorem exists_of_isBusy (h : db.isBusy s = true) :
    ∃ x, db.sessions.get? s = some x ∧ x.isIdle = false := by
  obtain ⟨x, hx, hbusy⟩ := (Option.any_eq_true _ _).mp h
  exact ⟨x, hx, by simpa using hbusy⟩

theorem staysBusy_concat : db.StaysBusy s (moves ++ [m]) ↔
    db.StaysBusy s moves ∧ (db.run moves).isBusy s = true := by
  induction moves generalizing db with
  | nil => exact ⟨fun h => ⟨trivial, h.1⟩, fun h => ⟨h.2, trivial⟩⟩
  | cons first moves ih =>
    show _ ∧ (db.perform first).StaysBusy s (moves ++ [m]) ↔
      (_ ∧ (db.perform first).StaysBusy s moves) ∧ _
    rw [ih, and_assoc]
    rfl

theorem draft_recordCall {y : SessionId} (hy : s ≠ y) :
    (db.recordCall l y k).draft s = l.draft s := by
  unfold recordCall
  split
  next =>
    split
    next => exact Ledger.draft_note_of_ne hy
    next => rfl
  next => rfl

section Aside

variable (hx : db.sessions.get? s = some x) (hbusy : x.isIdle = false) (hm : m ≠ .advance s)
include hx hbusy

/-- Calls wait until the session is idle. -/
theorem call_of_busy : (db.call s k).coordinator = db.coordinator ∧ db.callEvent? s k = none ∧
    (db.recordCall l s k).draft s = l.draft s := by
  unfold Database.call Database.withSession callEvent? recordCall
  rw [hx]
  simp [hbusy]

theorem drop_of_busy : (db.drop s).coordinator = db.coordinator := by
  rw [coordinator_drop]
  unfold Database.withSession
  rw [hx]
  simp [hbusy]

include hm

/-- Other moves than its steps only send signals to a session in the middle of a call. -/
theorem Standing.tx_aside (h : db.Standing) :
    ∃ signals, (db.perform m).coordinator.tx s = { db.coordinator.tx s with signals } := by
  by_cases hown : m.mover? = some s
  · cases m with
    | advance y =>
      cases hown
      exact absurd rfl hm
    | call y k =>
      cases hown
      exact ⟨_, congrArg (fun c : Coordinator => c.tx s) (call_of_busy (l := .empty) hx hbusy).1⟩
    | drop y =>
      cases hown
      exact ⟨_, congrArg (fun c : Coordinator => c.tx s) (drop_of_busy hx hbusy)⟩
    | _ => cases hown
  · rcases h.tx_of_other hown with hsignals | ⟨rfl, -⟩
    · exact hsignals
    · rw [h.nobody] at hx
      cases hx

theorem draft_aside : (db.record l m).draft s = l.draft s := by
  cases m with
  | advance y =>
    have hy : s ≠ y := by
      rintro rfl
      exact hm rfl
    simp only [record]
    split
    next => exact Ledger.draft_note_of_ne hy
    next => rfl
  | call y k =>
    by_cases hy : s = y
    · subst hy
      exact (call_of_busy hx hbusy).2.2
    · exact draft_recordCall hy
  | drop y =>
    by_cases hy : s = y
    · subst hy
      exact (call_of_busy hx hbusy).2.2
    · exact draft_recordCall hy
  | _ => rfl

theorem ends_aside : ∀ event ∈ db.observe m, event.ends s = false := by
  intro event hevent
  refine Bool.eq_false_iff.mpr fun hends => ?_
  have hown := observe_ends hevent hends
  cases m with
  | advance y =>
    cases hown
    exact hm rfl
  | call y k =>
    cases hown
    have hnone : db.callEvent? s k = none := (call_of_busy (l := .empty) hx hbusy).2.1
    rw [show db.observe (.call s k) = db.callEvent? s k from rfl, hnone] at hevent
    cases hevent
  | drop y =>
    cases hown
    have hnone : db.callEvent? s .close = none := (call_of_busy (l := .empty) hx hbusy).2.1
    rw [show db.observe (.drop s) = db.callEvent? s .close from rfl, hnone] at hevent
    cases hevent
  | _ => cases hown

/-- Other moves than its steps leave a session where it is in its call, unless its wait expires. -/
theorem Standing.get?_aside (h : db.Standing) (hz : (db.perform m).sessions.get? s = some z) :
    z = x ∨ x.isWaiting = true ∧ z = x.become .timedOut := by
  have hsame (hbefore : db.sessions.get? s = some z) : z = x := by
    rw [hx] at hbefore
    exact (Option.some.inj hbefore).symm
  cases m with
  | advance y =>
    rcases get?_withSession hz with ⟨hbefore, -⟩ | ⟨rfl, -⟩
    · exact .inl (hsame hbefore)
    · exact absurd rfl hm
  | call y k =>
    rcases get?_withSession hz with ⟨hbefore, -⟩ | ⟨rfl, w, hw, hmade, -⟩
    · exact .inl (hsame hbefore)
    · rw [hx] at hw
      cases hw
      simp only [hbusy, Bool.false_eq_true, if_false] at hmade
      exact .inl hmade
  | expire y =>
    rcases get?_withSession hz with ⟨hbefore, -⟩ | ⟨rfl, w, hw, hmade, -⟩
    · exact .inl (hsame hbefore)
    · rw [hx] at hw
      cases hw
      unfold Session.expire at hmade
      split at hmade
      next hwaits =>
        simp only [Bool.and_eq_true] at hwaits
        exact .inr ⟨hwaits.1.1, hmade⟩
      next => exact .inl hmade
  | drop y => exact .inl (hsame (get?_drop hz).1)
  | connect =>
    rcases get?_connect hz with ⟨rfl, -⟩ | hbefore
    · rw [h.nobody] at hx
      cases hx
    · exact .inl (hsame hbefore)
  | _ => exact .inl (hsame hz)

end Aside

end Database

end LockingDb
