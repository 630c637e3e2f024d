import LockingDb.Proofs.ChosenModes
import LockingDb.Proofs.RedoSignals
import LockingDb.Proofs.SavepointRollback
import LockingDb.Proofs.StatementRuns

namespace LockingDb

open Coordinator Session

namespace Database

variable {db : Database} {s : SessionId} {x z : Session} {m : Move} {moves : List Move}
  {kind other : Database → Move → Bool} {p : Session → Coordinator → Bool}

/-- The move is a step of the session, and of the kind. -/
def stepOf (db : Database) (s : SessionId) (p : Session → Coordinator → Bool) : Move → Bool
  | .advance y => y == s && (db.sessions.get? s).any (p · db.coordinator)
  | _ => false

def asksRedo (db : Database) (s : SessionId) (m : Move) : Bool :=
  db.stepOf s (fun x _ => x.asksRedo) m

def startsRun (db : Database) (s : SessionId) (m : Move) : Bool := db.stepOf s (·.startsRun s) m

/-- The body is started another time in the same call. -/
def startsAgain (db : Database) (s : SessionId) (m : Move) : Bool :=
  db.stepOf s (fun x c => x.startsRun s c && x.runs != 0) m

def endsRun (db : Database) (s : SessionId) (m : Move) : Bool := db.stepOf s (fun x _ => x.endsRun) m

def reruns (db : Database) (s : SessionId) (m : Move) : Bool := db.stepOf s (·.reruns s) m

def answersFailure (db : Database) (s : SessionId) (m : Move) : Bool :=
  db.stepOf s (·.answersFailure s) m

/-- The move takes the request of the session. -/
def forgetsRedo (db : Database) (s : SessionId) : Move → Bool
  | .call y k => y == s &&
      (db.sessions.get? s).any fun x => x.isIdle && x.callForgetsRedo s db.coordinator k
  | .drop y => y == s &&
      (db.sessions.get? s).any fun x => x.isIdle && x.callForgetsRedo s db.coordinator .close
  | m => db.stepOf s (·.forgetsRedo s) m

/-- A move of the run is of the one kind, and none after it is of the other. -/
def Since (db : Database) (kind other : Database → Move → Bool) : List Move → Prop
  | [] => False
  | m :: rest => kind db m = true ∧ (db.perform m).Never other rest ∨
      (db.perform m).Since kind other rest

instance instDecidableSince (db : Database) (kind other : Database → Move → Bool) :
    (moves : List Move) → Decidable (db.Since kind other moves)
  | [] => inferInstanceAs (Decidable False)
  | m :: rest =>
    have := instDecidableSince (db.perform m) kind other rest
    inferInstanceAs (Decidable (kind db m = true ∧ (db.perform m).Never other rest ∨
      (db.perform m).Since kind other rest))

theorem since_concat : db.Since kind other (moves ++ [m]) ↔ kind (db.run moves) m = true ∨
    db.Since kind other moves ∧ other (db.run moves) m = false := by
  induction moves generalizing db with
  | nil => simp [Since, Never, Database.run]
  | cons first moves ih =>
    show _ ∧ (db.perform first).Never other (moves ++ [m]) ∨
      (db.perform first).Since kind other (moves ++ [m]) ↔ _ ∨ (_ ∧ _ ∨ _) ∧ _
    have hlast : ((db.perform first).run moves).Never other [m] ↔
        other (db.run (first :: moves)) m = false := and_iff_left trivial
    rw [ih, never_append, hlast]
    show _ ∧ _ ∧ _ ∨ kind (db.run (first :: moves)) m = true ∨
      _ ∧ other (db.run (first :: moves)) m = false ↔ _
    tauto

/-- The body has asked for another run in the run that the session has started last. -/
def AskedInRun (db : Database) (s : SessionId) (moves : List Move) : Prop :=
  db.Since (·.asksRedo s) (·.startsRun s) moves

/-- A body has asked for another run and has failed in the same run. Its error was answered, and
nothing has taken the request since. -/
def LeftOver (db : Database) (s : SessionId) (moves : List Move) : Prop :=
  ∃ before m after, moves = before ++ m :: after ∧ db.AskedInRun s before ∧
    (db.run before).answersFailure s m = true ∧
    (db.run (before ++ [m])).Never (·.forgetsRedo s) after

theorem LeftOver.concat (h : db.LeftOver s moves) (hkept : (db.run moves).forgetsRedo s m = false) :
    db.LeftOver s (moves ++ [m]) := by
  obtain ⟨before, n, after, rfl, hasked, hanswers, hnever⟩ := h
  refine ⟨before, n, after ++ [m], by simp, hasked, hanswers, never_append.mpr ⟨hnever, ?_, trivial⟩⟩
  rw [← run_append, List.append_assoc]
  exact hkept

theorem stepOf_of_ne (hm : m ≠ .advance s) : db.stepOf s p m = false := by
  cases m with
  | advance y =>
    have hy : y ≠ s := by
      rintro rfl
      exact hm rfl
    simp [stepOf, hy]
  | _ => rfl

theorem stepOf_advance (hx : db.sessions.get? s = some x) :
    db.stepOf s p (.advance s) = p x db.coordinator := by
  simp [stepOf, hx]

theorem forgetsRedo_advance (hx : db.sessions.get? s = some x) :
    db.forgetsRedo s (.advance s) = x.forgetsRedo s db.coordinator := stepOf_advance hx

theorem exists_of_stepOf (h : db.stepOf s p m = true) :
    ∃ x, db.sessions.get? s = some x ∧ m = .advance s ∧ p x db.coordinator = true := by
  cases m with
  | advance y =>
    obtain ⟨hy, hany⟩ := Bool.and_eq_true_iff.mp h
    obtain ⟨x, hx, hp⟩ := (Option.any_eq_true _ _).mp hany
    exact ⟨x, hx, by rw [eq_of_beq hy], hp⟩
  | _ => cases h

theorem reruns_eq (m : Move) :
    db.reruns s m = (db.endsRun s m && db.coordinator.redoAsked s) := by
  by_cases hm : m = .advance s
  · subst hm
    cases hx : db.sessions.get? s with
    | none => simp [reruns, endsRun, stepOf, hx]
    | some x => rw [reruns, endsRun, stepOf_advance hx, stepOf_advance hx, Session.reruns_eq]
  · rw [reruns, endsRun, stepOf_of_ne hm, stepOf_of_ne hm, Bool.false_and]

/-- In the middle of a call only the steps of the session take its request. -/
theorem forgetsRedo_of_busy (hx : db.sessions.get? s = some x) (hbusy : x.isIdle = false)
    (hm : m ≠ .advance s) : db.forgetsRedo s m = false := by
  cases m with
  | call y k => simp [forgetsRedo, hx, hbusy]
  | drop y => simp [forgetsRedo, hx, hbusy]
  | advance y => exact stepOf_of_ne hm
  | _ => rfl

theorem redo_withSession {f : Session → Coordinator → Session × Coordinator}
    {asks forgets : Session → Bool}
    (hf : ∀ x, (f x db.coordinator).2.redoAsked s =
      (asks x || (db.coordinator.redoAsked s && !forgets x))) :
    (db.withSession s f).coordinator.redoAsked s = ((db.sessions.get? s).any asks ||
      (db.coordinator.redoAsked s && !(db.sessions.get? s).any forgets)) := by
  unfold Database.withSession
  cases hx : db.sessions.get? s with
  | none => simp
  | some x => exact hf x

/-- An idle session may start a call. -/
theorem redo_whenIdle {f : Session → Coordinator → Session × Coordinator} {k : SessionCall}
    (hf : ∀ x, (f x db.coordinator).2 = (x.call s db.coordinator k).2) :
    (db.withSession s fun x c => if x.isIdle then f x c else (x, c)).coordinator.redoAsked s =
      (db.coordinator.redoAsked s && !(db.sessions.get? s).any fun x =>
        x.isIdle && x.callForgetsRedo s db.coordinator k) := by
  have hmade (x : Session) :
      (if x.isIdle then f x db.coordinator else (x, db.coordinator)).2.redoAsked s =
        (false || (db.coordinator.redoAsked s &&
          !(x.isIdle && x.callForgetsRedo s db.coordinator k))) := by
    split
    next hidle => rw [hf, redo_call, hidle, Bool.true_and, Bool.false_or]
    next hbusy => simp [hbusy]
  refine (redo_withSession hmade).trans ?_
  simp

/-- Other sessions neither make a request for the session nor take one. -/
theorem Standing.redo_of_other (h : db.Standing) (hknown : s < db.coordinator.nextSession)
    (hm : m.mover? ≠ some s) :
    (db.perform m).coordinator.redoAsked s = db.coordinator.redoAsked s := by
  cases hmover : m.mover? with
  | some y =>
    have hy : s ≠ y := by
      rintro rfl
      exact hm hmover
    exact redo_of_unlatched (h.spares_other hmover hy).tx
  | none =>
    cases m with
    | connect => exact redo_of_tx (tx_setTx_of_ne (Nat.ne_of_lt hknown))
    | raiseAbort y =>
      by_cases hy : s = y
      · subst hy
        exact redo_setTx rfl
      · exact redo_of_tx (tx_setTx_of_ne hy)
    | expire y => exact congrArg (fun c : Coordinator => c.redoAsked s) coordinator_expire
    | call y k => cases hmover
    | advance y => cases hmover
    | drop y => cases hmover
    | _ => rfl

theorem quiet_of_other (hm : m.mover? ≠ some s) :
    db.asksRedo s m = false ∧ db.forgetsRedo s m = false := by
  cases m with
  | call y k =>
    have hy : y ≠ s := fun heq => hm (congrArg some heq)
    exact ⟨rfl, by simp [forgetsRedo, hy]⟩
  | advance y =>
    have hy : y ≠ s := fun heq => hm (congrArg some heq)
    exact ⟨by simp [asksRedo, stepOf, hy], by simp [forgetsRedo, stepOf, hy]⟩
  | drop y =>
    have hy : y ≠ s := fun heq => hm (congrArg some heq)
    exact ⟨rfl, by simp [forgetsRedo, hy]⟩
  | _ => exact ⟨rfl, rfl⟩

/-- A request of a session is made by the steps of its bodies, and stays until it is taken. -/
theorem Standing.redo_perform (h : db.Standing) (hknown : s < db.coordinator.nextSession) :
    (db.perform m).coordinator.redoAsked s =
      (db.asksRedo s m || (db.coordinator.redoAsked s && !db.forgetsRedo s m)) := by
  by_cases hown : m.mover? = some s
  · cases m with
    | advance y =>
      cases hown
      simp only [asksRedo, forgetsRedo, stepOf, beq_self_eq_true, Bool.true_and]
      exact redo_withSession fun x => redo_step
    | call y k =>
      cases hown
      simp only [asksRedo, forgetsRedo, stepOf, beq_self_eq_true, Bool.true_and, Bool.false_or]
      exact redo_whenIdle fun x => rfl
    | drop y =>
      cases hown
      simp only [asksRedo, forgetsRedo, stepOf, beq_self_eq_true, Bool.true_and, Bool.false_or]
      show (db.drop s).coordinator.redoAsked s = _
      rw [coordinator_drop]
      exact redo_whenIdle fun x => coordinator_close.symm
    | _ => cases hown
  · have hquiet : db.asksRedo s m = false ∧ db.forgetsRedo s m = false := quiet_of_other hown
    obtain ⟨hasks, hforgets⟩ := hquiet
    rw [h.redo_of_other hknown hown, hasks, hforgets, Bool.not_false, Bool.and_true, Bool.false_or]

theorem Standing.redo_stays (h : db.Standing) (hknown : s < db.coordinator.nextSession)
    (hredo : db.coordinator.redoAsked s = true) (hkept : db.forgetsRedo s m = false) :
    (db.perform m).coordinator.redoAsked s = true := by
  rw [h.redo_perform hknown, hredo, hkept, Bool.not_false, Bool.and_true, Bool.or_true]

/-- A session at work on a statement that it has run comes from such work: by its own step, or it
was there before. -/
theorem Standing.arrives (h : db.Standing) (hz : (db.perform m).sessions.get? s = some z)
    (hrun : z.hasRun = true) : ∃ x, db.sessions.get? s = some x ∧
      (m = .advance s ∧ z = (x.step s db.coordinator).1 ∨ m ≠ .advance s ∧ x.isIdle = false ∧
        (z = x ∨ x.isWaiting = true ∧ z = x.become .timedOut)) := by
  have hbusy (hidle : z.isIdle = true) : False := by
    rw [hasRun_of_isIdle hidle] at hrun
    cases hrun
  rcases h.becomes hz with ⟨x, hx, hbecomes⟩ | ⟨-, hfresh⟩
  · refine ⟨x, hx, ?_⟩
    by_cases hm : m = .advance s
    · subst hm
      rw [get?_advance hx] at hz
      exact .inl ⟨rfl, (Option.some.inj hz).symm⟩
    · have hworks : x.isIdle = false := by
        refine Bool.eq_false_iff.mpr fun hidle => ?_
        have hactivity := activity_of_isIdle hidle
        cases hbecomes with
        | same => exact hbusy hidle
        | expired hwaits => simp [isWaiting, hactivity] at hwaits
        | stepped => exact hbusy (by simpa [step, hactivity] using hidle)
        | called =>
          rw [hasRun_call] at hrun
          cases hrun
      exact .inr ⟨hm, hworks, h.get?_aside hx hworks hm hz⟩
  · subst hfresh
    exact (hbusy rfl).elim

/-- A new session has asked for nothing. -/
theorem redo_new (hz : (db.perform m).sessions.get? s = some z)
    (hnone : db.sessions.get? s = none) : (db.perform m).coordinator.redoAsked s = false := by
  have hnew (hbefore : db.sessions.get? s = some z) :
      (db.perform m).coordinator.redoAsked s = false := by
    rw [hnone] at hbefore
    cases hbefore
  have hkept {y : SessionId} {f : Session → Coordinator → Session × Coordinator}
      (hz : (db.withSession y f).sessions.get? s = some z) :
      (db.perform m).coordinator.redoAsked s = false := by
    rcases get?_withSession hz with ⟨hbefore, -⟩ | ⟨-, x, hx, -⟩
    · exact hnew hbefore
    · rw [hnone] at hx
      cases hx
  cases m with
  | connect =>
    rcases get?_connect hz with ⟨rfl, -⟩ | hbefore
    · exact congrArg (fun tx : SessionTx => tx.signals.redo) tx_setTx_self
    · exact hnew hbefore
  | call y k => exact hkept hz
  | advance y => exact hkept hz
  | expire y => exact hkept hz
  | drop y => exact hnew (get?_drop hz).1
  | _ => exact hnew hz

/-- Who is in a run was in it before, and nothing has been taken, unless the run is started. -/
theorem Standing.inRun_before (h : db.Standing) (hz : (db.perform m).sessions.get? s = some z)
    (hin : z.inRun = true) (hstarts : db.startsRun s m = false) : ∃ x, db.sessions.get? s = some x ∧
      x.inRun = true ∧ db.forgetsRedo s m = false := by
  have hrun : z.hasRun = true := by simp [hasRun, hin]
  obtain ⟨x, hx, ⟨rfl, rfl⟩ | ⟨hm, hbusy, hstays⟩⟩ := h.arrives hz hrun
  · rw [startsRun, stepOf_advance hx] at hstarts
    obtain ⟨hbefore, hkept⟩ := inRun_of_step hin hstarts
    exact ⟨x, hx, hbefore, (forgetsRedo_advance hx).trans hkept⟩
  · refine ⟨x, hx, ?_, forgetsRedo_of_busy hx hbusy hm⟩
    rcases hstays with rfl | ⟨-, rfl⟩
    · exact hin
    · cases hin

/-- As long as the run of a body that has asked goes on, the request stands. -/
theorem Standing.redo_of_asked (h : db.Standing)
    (hasked : db.AskedInRun s moves) (hz : (db.run moves).sessions.get? s = some z)
    (hin : z.inRun = true) : (db.run moves).coordinator.redoAsked s = true := by
  induction moves using List.reverseRecOn generalizing z with
  | nil => cases hasked
  | append_singleton moves m ih =>
    have hstanding := h.run moves
    rw [run_append] at hz ⊢
    rcases since_concat.mp hasked with hasks | ⟨hbefore, hstarts⟩
    · obtain ⟨x, hx, -⟩ := exists_of_stepOf hasks
      refine (hstanding.redo_perform (hstanding.known s x hx)).trans ?_
      rw [hasks, Bool.true_or]
    · obtain ⟨x, hx, hin, hkept⟩ := hstanding.inRun_before hz hin hstarts
      exact hstanding.redo_stays (hstanding.known s x hx) (ih hbefore hx hin) hkept

theorem Standing.redo_run (h : db.Standing) (hknown : s < db.coordinator.nextSession)
    (hredo : db.coordinator.redoAsked s = true) (hnever : db.Never (·.forgetsRedo s) moves) :
    (db.run moves).coordinator.redoAsked s = true := by
  induction moves generalizing db with
  | nil => exact hredo
  | cons m rest ih =>
    obtain ⟨hkept, hrest⟩ := hnever
    exact ih (h.perform m) (Nat.lt_of_lt_of_le hknown h.nextSession_le)
      (h.redo_stays hknown hredo hkept) hrest

/-- A request whose run has failed is not taken by the answer. -/
theorem Standing.redo_of_leftOver (h : db.Standing) (hleft : db.LeftOver s moves) :
    (db.run moves).coordinator.redoAsked s = true := by
  obtain ⟨before, m, after, rfl, hasked, hanswers, hnever⟩ := hleft
  have hstanding := h.run before
  obtain ⟨x, hx, rfl, hfailed⟩ := exists_of_stepOf hanswers
  have hactivity : ∃ error, x.activity = .failed error := by
    unfold Session.answersFailure at hfailed
    split at hfailed
    next error hactivity => exact ⟨error, hactivity⟩
    next => cases hfailed
  obtain ⟨error, hactivity⟩ := hactivity
  have hredo := h.redo_of_asked hasked hx (by simp [inRun, hactivity])
  have hkept : (db.run before).forgetsRedo s (.advance s) = false := by
    rw [forgetsRedo_advance hx, Session.forgetsRedo, hactivity]
  have hknown := hstanding.known s x hx
  rw [run_append] at hnever ⊢
  exact (hstanding.perform (.advance s)).redo_run
    (Nat.lt_of_lt_of_le hknown hstanding.nextSession_le) (hstanding.redo_stays hknown hredo hkept)
    hnever

/-- The last run of a session stays unsettled, or its error is answered. -/
theorem Standing.settles (h : db.Standing) (hx : db.sessions.get? s = some x)
    (hz : (db.perform m).sessions.get? s = some z) (hunsettled : x.isUnsettled = true)
    (hkept : db.forgetsRedo s m = false) :
    db.startsRun s m = false ∧ (z.isUnsettled = true ∨ db.answersFailure s m = true) := by
  obtain ⟨hbusy, hworks, -, hstarts⟩ :=
    unsettled_unfinished (s := s) (c := db.coordinator) hunsettled
  by_cases hm : m = .advance s
  · subst hm
    rw [get?_advance hx] at hz
    obtain rfl := Option.some.inj hz
    rw [forgetsRedo_advance hx] at hkept
    rw [startsRun, answersFailure, stepOf_advance hx, stepOf_advance hx]
    exact ⟨hstarts, step_of_isUnsettled hunsettled hkept⟩
  · refine ⟨stepOf_of_ne hm, .inl ?_⟩
    rcases h.get?_aside hx hbusy hm hz with rfl | ⟨hwaits, -⟩
    · exact hunsettled
    · rw [hworks] at hwaits
      cases hwaits

/-- A request that stands is one of the last run, which is not settled, or it is left over. -/
theorem asked_of_redo {settings : Settings} {journal : Journal}
    (hopen : openWith? settings journal = .ok db)
    (hz : (db.run moves).sessions.get? s = some z)
    (hredo : (db.run moves).coordinator.redoAsked s = true) :
    db.LeftOver s moves ∨ db.AskedInRun s moves ∧ z.isUnsettled = true := by
  have hdb : db.Standing := openWith?_eq hopen ▸ standing_fresh settings journal
  induction moves using List.reverseRecOn generalizing z with
  | nil =>
    rw [openWith?_eq hopen] at hz
    cases hz
  | append_singleton moves m ih =>
    have hstanding := hdb.run moves
    rw [run_append] at hz hredo
    change ((db.run moves).perform m).coordinator.redoAsked s = true at hredo
    rcases hstanding.becomes hz with ⟨x, hx, -⟩ | ⟨hnone, -⟩
    · rw [hstanding.redo_perform (hstanding.known s x hx), Bool.or_eq_true, Bool.and_eq_true,
        Bool.not_eq_true'] at hredo
      rcases hredo with hasks | ⟨hbefore, hkept⟩
      · refine .inr ⟨since_concat.mpr (.inl hasks), isUnsettled_of_inRun ?_⟩
        obtain ⟨y, hy, rfl, hrunning⟩ := exists_of_stepOf hasks
        obtain rfl := Option.some.inj ((get?_advance hy).symm.trans hz)
        unfold Session.asksRedo at hrunning
        split at hrunning
        next next hactivity =>
          simp only [step, hactivity]
          exact inRun_runBody _
        next => cases hrunning
      · rcases ih hx hbefore with hleft | ⟨hasked, hunsettled⟩
        · exact .inl (hleft.concat hkept)
        · obtain ⟨hstarts, hnext | hanswers⟩ := hstanding.settles hx hz hunsettled hkept
          · exact .inr ⟨since_concat.mpr (.inr ⟨hasked, hstarts⟩), hnext⟩
          · exact .inl ⟨moves, m, [], rfl, hasked, hanswers, trivial⟩
    · rw [redo_new hz hnone] at hredo
      cases hredo

/-- A statement that has been run and awaits another run was begun again. -/
theorem begun_again {settings : Settings} {journal : Journal}
    (hopen : openWith? settings journal = .ok db)
    (hz : (db.run moves).sessions.get? s = some z) (hawaits : z.awaitsRun = true)
    (hruns : z.runs ≠ 0) : db.Since (·.reruns s) (·.startsRun s) moves := by
  have hdb : db.Standing := openWith?_eq hopen ▸ standing_fresh settings journal
  induction moves using List.reverseRecOn generalizing z with
  | nil =>
    rw [openWith?_eq hopen] at hz
    cases hz
  | append_singleton moves m ih =>
    rw [run_append] at hz
    have hrun : z.hasRun = true := by simp [hasRun, hawaits, hruns]
    rw [since_concat]
    obtain ⟨x, hx, ⟨rfl, rfl⟩ | ⟨hm, -, hstays⟩⟩ := (hdb.run moves).arrives hz hrun
    · rcases awaitsRun_of_step hawaits with hreruns | ⟨hbefore, hstarts, hsame⟩
      · exact .inl ((stepOf_advance hx).trans hreruns)
      · exact .inr ⟨ih hx hbefore (hsame ▸ hruns), (stepOf_advance hx).trans hstarts⟩
    · refine .inr ⟨?_, stepOf_of_ne hm⟩
      rcases hstays with rfl | ⟨hwaits, rfl⟩
      · exact ih hx hawaits hruns
      · refine ih hx ?_ hruns
        unfold isWaiting at hwaits
        unfold awaitsRun
        split at hwaits
        next hactivity => rw [hactivity]
        next => cases hwaits

/-- A run that has ended is followed by another one of the same statement if and only if the body has
asked for it in that run, or the body of an earlier statement has asked for one and has failed, and
nothing has taken its request since. Only after such a run a statement starts its body again. -/
theorem reruns_iff {settings : Settings} {journal : Journal}
    (hopen : openWith? settings journal = .ok db) (s : SessionId) :
    (∀ moves m, (db.run moves).reruns s m = true ↔ (db.run moves).endsRun s m = true ∧
      (db.AskedInRun s moves ∨ db.LeftOver s moves)) ∧
    ∀ moves m, (db.run moves).startsAgain s m = true →
      db.Since (·.reruns s) (·.startsRun s) moves := by
  have hdb : db.Standing := openWith?_eq hopen ▸ standing_fresh settings journal
  refine ⟨fun moves m => ?_, fun moves m hagain => ?_⟩
  · rw [reruns_eq, Bool.and_eq_true]
    refine and_congr_right fun hends => ?_
    obtain ⟨x, hx, -, hended⟩ := exists_of_stepOf hends
    constructor
    · intro hredo
      exact (asked_of_redo hopen hx hredo).symm.imp And.left id
    · rintro (hasked | hleft)
      · exact hdb.redo_of_asked hasked hx (inRun_of_endsRun hended)
      · exact hdb.redo_of_leftOver hleft
  · obtain ⟨x, hx, -, hstarts⟩ := exists_of_stepOf hagain
    obtain ⟨hresumes, hruns⟩ := Bool.and_eq_true_iff.mp hstarts
    refine begun_again hopen hx ?_ (by simpa using hruns)
    unfold Session.startsRun at hresumes
    split at hresumes
    next hactivity => simp [awaitsRun, hactivity]
    next => cases hresumes

/-- Outside autocommit mode a statement asks for another run and fails. Its error is about to be
answered. -/
def askAndFail : List Move :=
  [.connect, .call 1 (.setAutocommit false),
    .call 1 (.execute ⟨.write [1], fun _ => .requestRedo (.fail (.internal "no"))⟩)] ++
  List.replicate 6 (.advance 1)

/-- The next statement asks for nothing. Its run is about to end. -/
def comeToEnd : List Move :=
  .call 1 (.execute ⟨.write [1], fun _ => .done default⟩) :: List.replicate 4 (.advance 1)

theorem reruns_iff_askAndFail : ∃ db, openWith? .default .empty = .ok db ∧
    (db.run (askAndFail ++ .advance 1 :: comeToEnd)).reruns 1 (.advance 1) = true ∧
    db.Since (·.reruns 1) (·.startsRun 1)
      ((askAndFail ++ .advance 1 :: comeToEnd) ++ List.replicate 3 (.advance 1)) := by
  obtain ⟨db, hopen⟩ : ∃ db, openWith? .default .empty = .ok db := ⟨_, rfl⟩
  have hdb := openWith?_eq hopen
  obtain ⟨hreruns, hsince⟩ := reruns_iff hopen 1
  have hleft : db.LeftOver 1 (askAndFail ++ .advance 1 :: comeToEnd) := by
    refine ⟨askAndFail, .advance 1, comeToEnd, rfl, ?_⟩
    rw [hdb]
    exact ⟨by unfold AskedInRun; decide, by decide, by decide⟩
  have hends : (db.run (askAndFail ++ .advance 1 :: comeToEnd)).endsRun 1 (.advance 1) = true := by
    rw [hdb]
    decide
  have hagain : (db.run ((askAndFail ++ .advance 1 :: comeToEnd) ++
      List.replicate 3 (.advance 1))).startsAgain 1 (.advance 1) = true := by
    rw [hdb]
    decide
  exact ⟨db, hopen, (hreruns _ _).mpr ⟨hends, .inr hleft⟩, hsince _ _ hagain⟩

/-- A body that has not asked for another run is sometimes run again. -/
theorem rerun_unasked : ¬ ∀ (settings : Settings) (journal : Journal) (db : Database) (s : SessionId)
    (moves : List Move) (m : Move), openWith? settings journal = .ok db →
    (db.run moves).reruns s m = true → db.AskedInRun s moves := by
  intro hall
  obtain ⟨db, hopen⟩ : ∃ db, openWith? .default .empty = .ok db := ⟨_, rfl⟩
  have hdb := openWith?_eq hopen
  have hasked := hall .default .empty db 1 (askAndFail ++ .advance 1 :: comeToEnd) (.advance 1) hopen
  rw [hdb] at hasked
  have hnot : ¬ (⟨.default, { Coordinator.empty with journal := .empty }, ∅⟩ : Database).AskedInRun 1
      (askAndFail ++ .advance 1 :: comeToEnd) := by
    unfold AskedInRun
    decide
  exact hnot (hasked (by decide))

end Database

end LockingDb
