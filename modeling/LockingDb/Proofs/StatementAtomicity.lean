import LockingDb.Proofs.StatementRuns
import Mathlib.Data.List.Infix

namespace LockingDb

open Coordinator Session Change

namespace Database

variable {db start called : Database} {s : SessionId} {x z : Session} {m : Move} {l : Ledger}
  {moves first body during : List Move} {statement : Statement} {runs : Nat} {t : TableId}

/-- After the first moves a run of the statement is about to begin, and it does with the next step
of the session. Log and savepoints are as at the call. -/
structure RunBegins (called : Database) (s : SessionId) (statement : Statement) (runs : Nat)
    (first : List Move) : Prop where
  begun : ∃ z, (called.run first).sessions.get? s = some z ∧ z.activity = .resuming ∧
    z.statement = statement ∧ (called.run (first ++ [.advance s])).sessions.get? s =
      some { z with activity := .running (statement.body runs), runs }
  actions : ((called.run first).coordinator.tx s).actions = (called.coordinator.tx s).actions
  savepoints : ((called.run first).coordinator.tx s).savepoints =
    (called.coordinator.tx s).savepoints

/-- A move in the middle of the run of a statement: the transaction goes on, its log only grows, and
neither session nor draft forgets where the statement began. -/
structure RunsOn (db : Database) (l : Ledger) (s : SessionId) (m : Move) : Prop where
  follows : db.Follows l (db.observe m) (db.perform m) (db.record l m)
  goesOn : ∀ event ∈ db.observe m, event.ends s = false
  actions : (db.coordinator.tx s).actions <+: ((db.perform m).coordinator.tx s).actions
  savepoints : ((db.perform m).coordinator.tx s).savepoints = (db.coordinator.tx s).savepoints
  statement : ((db.record l m).draft s).statement = (l.draft s).statement

/-- In the run of a statement, since it began: the log has only grown, the draft knows where that
was, and tables that the session has for itself still are so. -/
structure Works (start : Database) (l : Ledger) (s : SessionId) (moves : List Move) : Prop where
  actions : ((start.run moves).coordinator.tx s).actions =
    (start.coordinator.tx s).actions ++ start.recorded s moves
  savepoints : ((start.run moves).coordinator.tx s).savepoints =
    (start.coordinator.tx s).savepoints
  statement : ((start.ledger l moves).draft s).statement = (l.draft s).changes
  isOpen : ((start.run moves).coordinator.tx s).isOpen = true
  owned : ∀ t, start.coordinator.locks.mode? s t = some .exclusive →
    (start.run moves).Owns (start.ledger l moves) s t (l.rows t)

theorem run_concat : db.run (moves ++ [m]) = (db.run moves).perform m := run_append

theorem ledger_concat : db.ledger l (moves ++ [m]) = (db.run moves).record (db.ledger l moves) m :=
  ledger_append

/-- The log grows with a move, or stays. -/
theorem recorded_grows (h : (db.coordinator.tx s).actions ++ db.recorded s moves =
      ((db.run moves).coordinator.tx s).actions)
    (hgrows : ((db.run moves).coordinator.tx s).actions <+:
      (((db.run moves).perform m).coordinator.tx s).actions) :
    (((db.run moves).perform m).coordinator.tx s).actions =
      (db.coordinator.tx s).actions ++ db.recorded s (moves ++ [m]) := by
  rw [recorded_concat, ← List.append_assoc, h, actions_append_grown hgrows]

theorem Works.concat (h : start.Works l s moves)
    (hm : (start.run moves).RunsOn (start.ledger l moves) s m) : start.Works l s (moves ++ [m]) := by
  refine ⟨?_, ?_, ?_, ?_, fun t ht => ?_⟩
  · rw [run_concat]
    exact recorded_grows h.actions.symm hm.actions
  · rw [run_concat, hm.savepoints, h.savepoints]
  · rw [ledger_concat, hm.statement, h.statement]
  · rw [run_concat]
    exact (hm.follows.upholds s h.isOpen hm.goesOn).isOpen h.isOpen
  · rw [run_concat, ledger_concat]
    exact (h.owned t ht).step hm.follows hm.goesOn

/-- A step in the run of a statement takes nothing from the log. -/
theorem WellKept.runsOn_advance (h : db.WellKept l)
    (hnext : (db.perform (.advance s)).coordinator.storage.nextRow ≠ 0)
    (hx : db.sessions.get? s = some x) (hfrom : x.phase = .inside)
    (hgoes : x.takesBack s db.coordinator = false)
    (hto : (x.step s db.coordinator).1.phase ≠ .elsewhere) : db.RunsOn l s (.advance s) := by
  have hafter := h.perform (m := .advance s) rfl hnext
  have hengaged := h.faithful.engaged s x hx
  have hengaged' := hafter.faithful.engaged s _ (get?_advance hx)
  have hactive : x.activity ≠ .idle := activity_of_phase (by rw [hfrom]; decide)
  have hmarked := hengaged.marked (hengaged.open hactive)
  have hmarked' := hengaged'.marked (hengaged'.open (activity_of_phase hto))
  obtain ⟨hstatement, hsavepoints, hchanges⟩ := redraft_inside (d := l.draft s) hfrom hgoes
  rw [← draft_advance (l := l) hx] at hstatement hsavepoints hchanges
  have hlog := (h.faithful.inStep.carries s).logged.length_eq
  have hlog' := (hafter.faithful.inStep.carries s).logged.length_eq
  have hgrows : (db.coordinator.tx s).actions <+: ((db.perform (.advance s)).coordinator.tx s).actions ∧
      ((db.perform (.advance s)).coordinator.tx s).savepoints = (db.coordinator.tx s).savepoints := by
    rcases h.turn (m := .advance s) rfl with hturn | ⟨name, hsets, -⟩
    · refine hturn.grows ?_ ?_
      · rw [hlog, hlog']
        exact hchanges.length_le
      · rw [hmarked.length_eq, hmarked'.length_eq, hsavepoints]
    · cases hsets
  exact ⟨h.faithful.perform rfl hnext, ends_advance hx hfrom, hgrows.1, hgrows.2, hstatement⟩

theorem WellKept.runsOn_aside (h : db.WellKept l) (hinside : m.isInside = true)
    (hnext : (db.perform m).coordinator.storage.nextRow ≠ 0)
    (hx : db.sessions.get? s = some x) (hbusy : x.isIdle = false) (hm : m ≠ .advance s) :
    db.RunsOn l s m := by
  obtain ⟨signals, htx⟩ := h.standing.tx_aside hx hbusy hm
  refine ⟨h.faithful.perform hinside hnext, ends_aside hx hbusy hm, ?_, ?_, ?_⟩
  · rw [htx]
  · rw [htx]
  · rw [draft_aside hx hbusy hm]

/-- The body of a statement begins with its locks, and in a transaction. -/
theorem Follows.works
    (hf : db.Follows l (db.observe (.advance s)) (db.perform (.advance s)) (db.record l (.advance s)))
    (hx : db.sessions.get? s = some x) (hfrom : x.activity = .resuming)
    (hquiet : Quiet s db.coordinator (db.perform (.advance s)).coordinator)
    (hto : ∃ body, (x.step s db.coordinator).1.activity = .running body) :
    db.Works l s [.advance s] := by
  obtain ⟨body, hto⟩ := hto
  have hbusy := (hf.faithful.engaged s _ (get?_advance hx)).atWork
  simp only [AtWork, hto] at hbusy
  have hdraft : ((db.record l (.advance s)).draft s).statement = (l.draft s).changes := by
    rw [draft_advance hx]
    simp only [redraft, hfrom, Draft.beginStatement]
  have hsilent : db.observe (.advance s) = none := by
    rw [observe_advance hx]
    simp only [Session.observe, hfrom]
  refine ⟨?_, savepoints_of_work hquiet.work, hdraft, hbusy.isOpen, fun t ht => ?_⟩
  · have hsame := actions_of_work hquiet.work
    show (((db.run []).perform (.advance s)).coordinator.tx s).actions =
      _ ++ db.recorded s ([] ++ [.advance s])
    exact recorded_grows (List.append_nil _) ⟨[], (List.append_nil _).trans hsame.symm⟩
  · refine ⟨hf.faithful, hbusy.isOpen, hquiet.written t ht, ?_⟩
    rcases hf.rows t with hsame | ⟨y, now, heq, -⟩
    · exact hsame
    · rw [hsilent] at heq
      cases heq

/-- What a run of a statement has done is taken back up to where it began. -/
theorem Works.takenBack (h : start.Works l s moves) (hstart : start.WellKept l)
    (hkept : (start.run moves).WellKept (start.ledger l moves))
    (hx : (start.run moves).sessions.get? s = some x)
    (htakes : x.takesBack s (start.run moves).coordinator = true) :
    (((start.run moves).perform (.advance s)).coordinator.tx s).actions =
        (start.coordinator.tx s).actions ∧
      (((start.run moves).perform (.advance s)).coordinator.tx s).savepoints =
        (start.coordinator.tx s).savepoints := by
  have hin := ((hkept.faithful.engaged s x hx).atWork).inStatement htakes
  have hlength := (hstart.faithful.inStep.carries s).logged.length_eq
  obtain ⟨-, -, hactions, hsavepoints⟩ := step_of_takesBack htakes
  rw [perform_advance hx]
  refine ⟨?_, hsavepoints.trans h.savepoints⟩
  show ((x.step s (start.run moves).coordinator).2.tx s).actions = _
  rw [hactions, hin.start, h.statement, ← hlength, h.actions, List.take_left]

/-- Tables that the session had for itself are as when the run began, and it still has them. -/
theorem Works.restored (h : start.Works l s moves) (hstart : start.WellKept l)
    (hf : (start.run moves).Follows (start.ledger l moves) ((start.run moves).observe (.advance s))
      ((start.run moves).perform (.advance s))
      ((start.run moves).record (start.ledger l moves) (.advance s)))
    (hx : (start.run moves).sessions.get? s = some x)
    (htakes : x.takesBack s (start.run moves).coordinator = true)
    (ht : start.coordinator.locks.mode? s t = some .exclusive) :
    ((start.run moves).perform (.advance s)).coordinator.storage.contents t =
        start.coordinator.storage.contents t ∧
      ((start.run moves).perform (.advance s)).coordinator.locks.mode? s t = some .exclusive := by
  have howns := (h.owned t ht).step hf (ends_advance hx (inside_of_takesBack htakes))
  have hdraft : (((start.run moves).record (start.ledger l moves) (.advance s)).draft s).changes =
      (l.draft s).changes := by
    rw [draft_advance hx, redraft_of_takesBack htakes, h.statement]
  -- Both times the same changes lead to the table from the same committed rows.
  have hevolved := howns.evolved
  rw [hdraft] at hevolved
  have hbegan := hstart.faithful.inStep.evolved_of_held hstart.faithful.coherent.toHoldersAgree
    (isSome_of_exclusive ht)
  exact ⟨hevolved.unique hbegan, howns.mode⟩

/-- A body begins with the locks of its statement. -/
theorem RunBegins.locked (h : called.RunBegins s statement runs first)
    (hstart : (called.run first).WellKept l) (ht : t ∈ statement.request.writes) :
    (called.run first).coordinator.locks.mode? s t = some .exclusive := by
  obtain ⟨z, hz, hactivity, rfl, -⟩ := h.begun
  have hatWork := (hstart.faithful.engaged s z hz).atWork
  simp only [AtWork, hactivity] at hatWork
  exact (LockTable.holdsAll_iff.mp hatWork.1).1 t ht

/-- After the moves since the call, the run of the statement with this number is not over. -/
def InRun (called : Database) (l : Ledger) (s : SessionId) (statement : Statement) (runs : Nat)
    (during : List Move) : Prop :=
  ∃ first body, during = first ++ .advance s :: body ∧ called.RunBegins s statement runs first ∧
    (called.run first).Works (called.ledger l first) s (.advance s :: body)

/-- After the moves since the call, the log is that of the call with what the run of the statement
with this number has added. -/
def HasRun (called : Database) (s : SessionId) (statement : Statement) (runs : Nat)
    (during : List Move) : Prop :=
  ∃ first body, during = first ++ .advance s :: body ∧ called.RunBegins s statement runs first ∧
    ((called.run during).coordinator.tx s).actions = (called.coordinator.tx s).actions ++
      (called.run first).recorded s (.advance s :: body)

theorem InRun.hasRun (h : called.InRun l s statement runs during) :
    called.HasRun s statement runs during := by
  obtain ⟨first, body, rfl, hbegins, hworks⟩ := h
  refine ⟨first, body, rfl, hbegins, ?_⟩
  rw [run_append, hworks.actions, hbegins.actions]

theorem InRun.concat (h : called.InRun l s statement runs during)
    (hm : (called.run during).RunsOn (called.ledger l during) s m) :
    called.InRun l s statement runs (during ++ [m]) := by
  obtain ⟨first, body, rfl, hbegins, hworks⟩ := h
  rw [run_append, ledger_append] at hm
  refine ⟨first, body ++ [m], ?_, hbegins, hworks.concat hm⟩
  rw [List.append_assoc, List.cons_append]

theorem HasRun.concat (h : called.HasRun s statement runs during)
    (hsame : (((called.run during).perform m).coordinator.tx s).actions =
      ((called.run during).coordinator.tx s).actions) :
    called.HasRun s statement runs (during ++ [m]) := by
  obtain ⟨first, body, rfl, hbegins, hlog⟩ := h
  refine ⟨first, body ++ [m], by rw [List.append_assoc, List.cons_append], hbegins, ?_⟩
  rw [run_append] at hsame hlog
  rw [run_concat, run_append, ← hbegins.actions]
  rw [← hbegins.actions] at hlog
  exact recorded_grows hlog.symm ⟨[], (List.append_nil _).trans hsame.symm⟩

/-- A run that is taken back leaves the log and the savepoints of the call. -/
theorem InRun.takenBack (h : called.InRun l s statement runs during) (hcalled : called.WellKept l)
    (hduring : called.RunsInside during) (hx : (called.run during).sessions.get? s = some x)
    (htakes : x.takesBack s (called.run during).coordinator = true) :
    (((called.run during).perform (.advance s)).coordinator.tx s).actions =
        (called.coordinator.tx s).actions ∧
      (((called.run during).perform (.advance s)).coordinator.tx s).savepoints =
        (called.coordinator.tx s).savepoints := by
  obtain ⟨first, body, rfl, hbegins, hworks⟩ := h
  obtain ⟨hfirst, hbody⟩ := runsInside_append.mp hduring
  rw [run_append] at hx htakes ⊢
  have hstart := hcalled.run hfirst
  obtain ⟨hactions, hsavepoints⟩ := hworks.takenBack hstart (hstart.run hbody) hx htakes
  exact ⟨hactions.trans hbegins.actions, hsavepoints.trans hbegins.savepoints⟩

/-- What is known of log and savepoints after the moves since the call, by where the session is. -/
def Staged (called : Database) (l : Ledger) (s : SessionId) (statement : Statement)
    (during : List Move) (x : Session) : Prop :=
  match x.phase with
  | .outside => x.statement = statement ∧
      ((called.run during).coordinator.tx s).actions = (called.coordinator.tx s).actions ∧
      ((called.run during).coordinator.tx s).savepoints = (called.coordinator.tx s).savepoints
  | .inside => x.statement = statement ∧ called.InRun l s statement x.runs during
  | .completed => called.HasRun s statement x.runs during
  | .elsewhere => True

theorem Staged.aside (h : called.Staged l s statement during x)
    (hkept : (called.run during).WellKept (called.ledger l during))
    (hx : (called.run during).sessions.get? s = some x) (hbusy : x.isIdle = false)
    (hinside : m.isInside = true)
    (hnext : ((called.run during).perform m).coordinator.storage.nextRow ≠ 0)
    (hm : m ≠ .advance s) (hz : ((called.run during).perform m).sessions.get? s = some z) :
    called.Staged l s statement (during ++ [m]) z := by
  obtain ⟨signals, htx⟩ := hkept.standing.tx_aside hx hbusy hm
  have hactions : (((called.run during).perform m).coordinator.tx s).actions =
      ((called.run during).coordinator.tx s).actions := by rw [htx]
  have hsavepoints : (((called.run during).perform m).coordinator.tx s).savepoints =
      ((called.run during).coordinator.tx s).savepoints := by rw [htx]
  unfold Staged at h ⊢
  rcases hkept.standing.get?_aside hx hbusy hm hz with rfl | ⟨hwaits, rfl⟩
  · cases hphase : z.phase with
    | outside =>
      simp only [hphase] at h ⊢
      rw [run_concat, hactions, hsavepoints]
      exact h
    | inside =>
      simp only [hphase] at h ⊢
      exact ⟨h.1, h.2.concat (hkept.runsOn_aside hinside hnext hx hbusy hm)⟩
    | completed =>
      simp only [hphase] at h ⊢
      exact h.concat hactions
    | elsewhere => trivial
  · have hphase : x.phase = .outside := by
      unfold isWaiting at hwaits
      split at hwaits
      next hactivity => rw [phase, hactivity]
      next => cases hwaits
    simp only [hphase] at h
    show _ ∧ _
    rw [run_concat, hactions, hsavepoints]
    exact h

theorem Staged.advance (h : called.Staged l s statement during x) (hcalled : called.WellKept l)
    (hduring : called.RunsInside (during ++ [.advance s]))
    (hx : (called.run during).sessions.get? s = some x) :
    called.Staged l s statement (during ++ [.advance s])
      (x.step s (called.run during).coordinator).1 := by
  obtain ⟨hbefore, -, hnext, -⟩ := runsInside_append.mp hduring
  have hkept := hcalled.run hbefore
  have hpasses : x.Passes s (called.run during).coordinator
      ((called.run during).perform (.advance s)).coordinator
      (x.step s (called.run during).coordinator).1 := by
    rw [perform_advance hx]
    exact step_passes
  have hz := get?_advance hx
  unfold Staged at h ⊢
  generalize hstep : (x.step s (called.run during).coordinator).1 = z at hpasses hz ⊢
  cases hpasses with
  | leaves helsewhere => simp only [helsewhere]
  | waits hfrom hto hstatement hwork =>
    simp only [hfrom] at h
    simp only [hto]
    rw [run_concat, hstatement, actions_of_work hwork, savepoints_of_work hwork]
    exact h
  | begins hfrom hto hquiet =>
    have hphase : x.phase = .outside := by rw [phase, hfrom]
    simp only [hphase] at h
    obtain ⟨rfl, hactions, hsavepoints⟩ := h
    have hbegun : z.phase = .inside := by
      rw [hto]
      rfl
    simp only [hbegun]
    rw [hto] at hz ⊢
    refine ⟨rfl, during, [], rfl, ⟨⟨x, hx, hfrom, rfl, ?_⟩, hactions, hsavepoints⟩, ?_⟩
    · rw [run_concat]
      exact hz
    · exact (hkept.faithful.perform rfl hnext).works hx hfrom hquiet ⟨_, by rw [hstep, hto]⟩
  | works hfrom hgoes hto hstatement hruns =>
    simp only [hfrom] at h
    simp only [hto]
    rw [hruns, hstatement]
    refine ⟨h.1, h.2.concat (hkept.runsOn_advance hnext hx hfrom hgoes ?_)⟩
    rw [hstep, hto]
    decide
  | takesBack htakes hto hstatement hactions hsavepoints =>
    simp only [inside_of_takesBack htakes] at h
    simp only [hto]
    rw [run_concat, hstatement]
    exact ⟨h.1, h.2.takenBack hcalled hbefore hx htakes⟩
  | completes hfrom hto hruns hwork =>
    simp only [hfrom] at h
    simp only [hto]
    rw [hruns]
    exact h.2.hasRun.concat (actions_of_work hwork)

/-- A statement that is called begins with the log and the savepoints that are there. -/
theorem staged_call (hx : db.sessions.get? s = some x) (hidle : x.isIdle = true)
    (hz : (db.perform (.call s (.execute statement))).sessions.get? s = some z) :
    (db.perform (.call s (.execute statement))).Staged l s statement [] z := by
  have hcalled : z = (x.call s db.coordinator (.execute statement)).1 := by
    rw [perform_call hx hidle, IdMap.get?_insert_self] at hz
    exact (Option.some.inj hz).symm
  unfold Staged
  rcases x.call_execute (s := s) (c := db.coordinator) statement with helsewhere | ⟨hphase, hstatement⟩
  · rw [← hcalled] at helsewhere
    simp only [helsewhere]
  · rw [← hcalled] at hphase hstatement
    simp only [hphase]
    exact ⟨hstatement, rfl, rfl⟩

theorem staged_run (hcalled : called.WellKept l) (hduring : called.RunsInside during)
    (hbusy : called.StaysBusy s during)
    (hstart : ∀ z, called.sessions.get? s = some z → called.Staged l s statement [] z)
    (hx : (called.run during).sessions.get? s = some x) :
    called.Staged l s statement during x := by
  -- The induction is on the last move: the run that the session is in began some moves before it.
  induction during using List.reverseRecOn generalizing x with
  | nil => exact hstart x hx
  | append_singleton during m ih =>
    obtain ⟨hstays, hnow⟩ := staysBusy_concat.mp hbusy
    obtain ⟨hbefore, hinside, hnext, -⟩ := runsInside_append.mp hduring
    obtain ⟨w, hw, hworking⟩ := exists_of_isBusy hnow
    rw [run_concat] at hx
    have hstaged := ih hbefore hstays hw
    by_cases hm : m = .advance s
    · subst hm
      obtain rfl := Option.some.inj ((get?_advance hw).symm.trans hx)
      exact hstaged.advance hcalled hduring hw
    · exact hstaged.aside (hcalled.run hbefore) hw hworking hinside hnext hm hx

/-- When a run of a statement is taken back, because its body has failed or a redo was asked for,
the tables that it may write have the visible and the allocated rows that they had when the body
began, and rows owned, log and savepoints are as they were then; exclusive locks stay. However often
a statement is redone, it adds to the log of the call only what its last run has recorded. -/
theorem statement_atomicity {settings : Settings} {journal : Journal} {before : List Move}
    {late after : Database} {y : Session} (hopen : openWith? settings journal = .ok db)
    (hinside : db.RunsInside (before ++ .call s (.execute statement) :: during ++ [.advance s]))
    (hcalled : (db.run before).perform (.call s (.execute statement)) = called)
    (hlate : called.run during = late) (hafter : late.perform (.advance s) = after)
    (hy : (db.run before).sessions.get? s = some y) (hidle : y.isIdle = true)
    (hbusy : called.StaysBusy s during) (hx : late.sessions.get? s = some x) :
    (x.takesBack s late.coordinator = true → ∃ first body,
      during = first ++ .advance s :: body ∧ called.RunBegins s statement x.runs first ∧
      (∀ t ∈ statement.request.writes,
        after.coordinator.storage.scan t = (called.run first).coordinator.storage.scan t ∧
        ∀ p, after.coordinator.storage.get? t p =
          (called.run first).coordinator.storage.get? t p) ∧
      (∀ row, after.coordinator.owners.owner? row = some s ↔
        (called.run first).coordinator.owners.owner? row = some s) ∧
      (after.coordinator.tx s).actions = ((called.run first).coordinator.tx s).actions ∧
      (after.coordinator.tx s).savepoints = ((called.run first).coordinator.tx s).savepoints ∧
      ∀ t, (called.run first).coordinator.locks.mode? s t = some .exclusive ∨
        late.coordinator.locks.mode? s t = some .exclusive →
          after.coordinator.locks.mode? s t = some .exclusive) ∧
    ∀ result, x.activity = .finished result → ∃ first body,
      during = first ++ .advance s :: body ∧ called.RunBegins s statement x.runs first ∧
      (after.coordinator.tx s).actions = (called.coordinator.tx s).actions ++
        (called.run first).recorded s (.advance s :: body) := by
  obtain ⟨hrun, hend⟩ := runsInside_append.mp hinside
  obtain ⟨hbefore, hin, hnext, hduring⟩ := runsInside_append.mp hrun
  have hkept := ((wellKept_openWith hopen).run hbefore).perform hin hnext
  have hall : db.run (before ++ .call s (.execute statement) :: during) = late := by
    rw [run_append, ← hlate, ← hcalled]
    rfl
  have hstart (z : Session) (hz : called.sessions.get? s = some z) :
      called.Staged ((db.run before).record (db.ledger .empty before)
        (.call s (.execute statement))) s statement [] z := by
    rw [← hcalled] at hz ⊢
    exact staged_call hy hidle hz
  rw [hall] at hend
  rw [hcalled] at hduring hkept
  generalize (db.run before).record (db.ledger .empty before) _ = l at hkept hstart
  subst hlate hafter
  have hstaged := staged_run hkept hduring hbusy hstart hx
  unfold Staged at hstaged
  constructor
  · intro htakes
    simp only [inside_of_takesBack htakes] at hstaged
    obtain ⟨-, first, body, rfl, hbegins, hworks⟩ := hstaged
    obtain ⟨hfirst, hbody⟩ := runsInside_append.mp hduring
    rw [run_append] at hx htakes hend ⊢
    have hbegan := hkept.run hfirst
    have hlast := hbegan.run hbody
    have hfollows := hlast.faithful.perform hend.1 hend.2.1
    have hdone := hlast.perform hend.1 hend.2.1
    obtain ⟨hactions, hsavepoints⟩ := hworks.takenBack hbegan hlast hx htakes
    refine ⟨first, body, rfl, hbegins, fun t ht => ?_, fun row => ?_, hactions, hsavepoints,
      fun t ht => ?_⟩
    · obtain ⟨hsame, -⟩ := hworks.restored hbegan hfollows hx htakes (hbegins.locked hbegan ht)
      exact ⟨by rw [Storage.scan_eq, Storage.scan_eq, hsame],
        fun p => by rw [Storage.get?_eq, Storage.get?_eq, hsame]⟩
    · rw [hdone.owner?_eq_some, hbegan.owner?_eq_some, hactions]
    · rcases ht with hheld | hheld
      · exact (hworks.restored hbegan hfollows hx htakes hheld).2
      · have hgoes := ends_advance hx (inside_of_takesBack htakes)
        exact (hfollows.upholds s hworks.isOpen hgoes).written t hheld
  · intro result hfinished
    have hphase : x.phase = .completed := by rw [phase, hfinished]
    simp only [hphase] at hstaged
    obtain ⟨first, body, rfl, hbegins, hlog⟩ := hstaged
    refine ⟨first, body, rfl, hbegins, ?_⟩
    rw [← hlog, perform_advance hx]
    show ((x.step s (called.run _).coordinator).2.tx s).actions = _
    rw [step_of_finished hfinished]

/-- A session that has deleted a row and set a savepoint calls a statement that inserts a row and
asks for a redo, and the second time does not ask. -/
def deletedAndMarked : List Move :=
  twoRows ++ List.replicate 4 (.advance 1) ++ [.call 1 (.savepoint "a")]

def redoneInsert : Statement :=
  ⟨.write [1], fun n => .insert 1 [] fun _ =>
    if n = 1 then .requestRedo (.done ⟨1, []⟩) else .done ⟨1, []⟩⟩

theorem statement_atomicity_redoneInsert : ∃ db called late after first body,
    openWith? .default .empty = .ok db ∧
    (db.run deletedAndMarked).perform (.call 1 (.execute redoneInsert)) = called ∧
    called.run (List.replicate 6 (.advance 1)) = late ∧ late.perform (.advance 1) = after ∧
    (called.coordinator.tx 1).actions.length = 1 ∧ (late.coordinator.tx 1).actions.length = 2 ∧
    (after.coordinator.tx 1).actions = (called.coordinator.tx 1).actions ∧
    (after.coordinator.tx 1).savepoints = (called.coordinator.tx 1).savepoints ∧
    called.RunBegins 1 redoneInsert 2 first ∧
    (((called.run (List.replicate 13 (.advance 1))).perform (.advance 1)).coordinator.tx 1).actions =
      (called.coordinator.tx 1).actions ++ (called.run first).recorded 1 (.advance 1 :: body) := by
  obtain ⟨db, hopen⟩ : ∃ db, openWith? .default .empty = .ok db := ⟨_, rfl⟩
  have hdb := openWith?_eq hopen
  obtain ⟨called, hcalled⟩ : ∃ called,
      (db.run deletedAndMarked).perform (.call 1 (.execute redoneInsert)) = called := ⟨_, rfl⟩
  obtain ⟨late, hlate⟩ : ∃ late, called.run (List.replicate 6 (.advance 1)) = late := ⟨_, rfl⟩
  obtain ⟨last, hlast⟩ : ∃ last, called.run (List.replicate 13 (.advance 1)) = last := ⟨_, rfl⟩
  have hidle : ((db.run deletedAndMarked).sessions.get? 1).any (·.isIdle) = true := by
    rw [hdb]
    decide
  obtain ⟨y, hy, hresting⟩ := (Option.any_eq_true _ _).mp hidle
  have hfirst : db.RunsInside (deletedAndMarked ++ .call 1 (.execute redoneInsert) ::
      List.replicate 6 (.advance 1) ++ [.advance 1]) := by
    rw [hdb]
    decide
  have hsecond : db.RunsInside (deletedAndMarked ++ .call 1 (.execute redoneInsert) ::
      List.replicate 13 (.advance 1) ++ [.advance 1]) := by
    rw [hdb]
    decide
  have hbusy : called.StaysBusy 1 (List.replicate 6 (.advance 1)) ∧
      called.StaysBusy 1 (List.replicate 13 (.advance 1)) := by
    rw [← hcalled, hdb]
    decide
  have hgrown : (called.coordinator.tx 1).actions.length = 1 ∧
      (late.coordinator.tx 1).actions.length = 2 := by
    rw [← hlate, ← hcalled, hdb]
    decide
  have hredo : (late.sessions.get? 1).any (·.takesBack 1 late.coordinator) = true := by
    rw [← hlate, ← hcalled, hdb]
    decide
  obtain ⟨x, hx, htakes⟩ := (Option.any_eq_true _ _).mp hredo
  have hanswered : (last.sessions.get? 1).any (fun z => z.runs == 2 && match z.activity with
      | .finished _ => true
      | _ => false) = true := by
    rw [← hlast, ← hcalled, hdb]
    decide
  obtain ⟨z, hz, hruns⟩ := (Option.any_eq_true _ _).mp hanswered
  obtain ⟨htwo, hfinished⟩ := Bool.and_eq_true_iff.mp hruns
  obtain ⟨hback, -⟩ := statement_atomicity hopen hfirst hcalled hlate rfl hy hresting hbusy.1 hx
  obtain ⟨_, _, -, hbegins, -, -, hactions, hsavepoints, -⟩ := hback htakes
  obtain ⟨-, hdone⟩ := statement_atomicity hopen hsecond hcalled hlast rfl hy hresting hbusy.2 hz
  split at hfinished
  next result hactivity =>
    obtain ⟨first, body, -, hagain, hlog⟩ := hdone result hactivity
    rw [eq_of_beq htwo] at hagain
    rw [← hlast] at hlog
    exact ⟨db, called, late, _, first, body, hopen, hcalled, hlate, rfl, hgrown.1, hgrown.2,
      hactions.trans hbegins.actions, hsavepoints.trans hbegins.savepoints, hagain, hlog⟩
  next => cases hfinished

end Database

end LockingDb
