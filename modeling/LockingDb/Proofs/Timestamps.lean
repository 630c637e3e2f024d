import LockingDb.Proofs.ClockTimes
import LockingDb.Proofs.ProvisionalCalls

namespace LockingDb

namespace TxTimes

variable {t t' : TxTimes} {p : Prop} {given : List Timestamp} {now later u : Timestamp}

/-- The times of a session are in order: no action is older than its transaction or the action
before it, none is newer than the time `now` of the clock, and no action is left of a transaction
that has ended. -/
structure Ordered (t : TxTimes) (now : Timestamp) : Prop where
  began : t.isOpen = true → t.beganAt ≤ t.actionAt
  acted : t.actionAt ≤ now
  since : ∀ u ∈ t.actions, t.beganAt ≤ u
  upTo : ∀ u ∈ t.actions, u ≤ t.actionAt
  sorted : t.actions.Pairwise (· ≤ ·)
  idle : t.isOpen = false → t.actions = []

theorem ordered_idle (hopen : t.isOpen = false) (hactions : t.actions = []) (hnow : t.actionAt ≤ now) :
    t.Ordered now := by
  refine ⟨fun hstill => ?_, hnow, ?_, ?_, ?_, fun _ => hactions⟩
  · rw [hopen] at hstill
    cases hstill
  · simp [hactions]
  · simp [hactions]
  · simp [hactions]

theorem Ordered.mono (h : t.Ordered now) (hnow : now ≤ later) : t.Ordered later :=
  ⟨h.began, Nat.le_trans h.acted hnow, h.since, h.upTo, h.sorted, h.idle⟩

/-- Times that are given out later keep the order. -/
theorem Ordered.elapses (h : t.Ordered now) (ht : t.Elapses p given t') (hp : p)
    (hgiven : ∀ u ∈ given, now ≤ u ∧ u ≤ later) (hnow : now ≤ later) : t'.Ordered later := by
  cases ht with
  | stays => exact h.mono hnow
  | starts => exact ordered_idle rfl rfl (Nat.zero_le _)
  | @opens u hclosed =>
    obtain ⟨-, hlate⟩ := hgiven u List.mem_cons_self
    have hnone := h.idle hclosed
    refine ⟨fun _ => Nat.le_refl u, hlate, ?_, ?_, h.sorted, nofun⟩
    · simp [hnone]
    · simp [hnone]
  | @moves u =>
    obtain ⟨hearly, hlate⟩ := hgiven u List.mem_cons_self
    have hmoved : t.actionAt ≤ u := Nat.le_trans h.acted hearly
    refine ⟨fun hopen => ?_, hlate, h.since, fun v hv => ?_, h.sorted, h.idle⟩
    · exact Nat.le_trans (h.began hopen) hmoved
    · exact Nat.le_trans (h.upTo v hv) hmoved
  | records hopen =>
    have hopen := hopen hp
    refine ⟨h.began, Nat.le_trans h.acted hnow, fun u hu => ?_, fun u hu => ?_, ?_, fun hclosed => ?_⟩
    · rcases List.mem_append.mp hu with hold | hnew
      · exact h.since u hold
      · rw [List.mem_singleton.mp hnew]
        exact h.began hopen
    · rcases List.mem_append.mp hu with hold | hnew
      · exact h.upTo u hold
      · rw [List.mem_singleton.mp hnew]
    · refine List.pairwise_append.mpr ⟨h.sorted, List.pairwise_singleton .., fun u hu v hv => ?_⟩
      rw [List.mem_singleton.mp hv]
      exact h.upTo u hu
    · dsimp only at hclosed
      rw [hopen] at hclosed
      cases hclosed
  | cuts =>
    refine ⟨h.began, Nat.le_trans h.acted hnow, fun u hu => ?_, fun u hu => ?_, ?_, fun hclosed => ?_⟩
    · exact h.since u (List.mem_of_mem_take hu)
    · exact h.upTo u (List.mem_of_mem_take hu)
    · exact h.sorted.sublist (List.take_sublist _ _)
    · simp [h.idle hclosed]
  | saves hkept => exact ⟨h.began, Nat.le_trans h.acted hnow, h.since, h.upTo, h.sorted, h.idle⟩
  | @ends u =>
    obtain ⟨-, hlate⟩ := hgiven u List.mem_cons_self
    exact ordered_idle rfl rfl hlate
  | @fails v u =>
    obtain ⟨-, hlate⟩ := hgiven u (by simp)
    exact ordered_idle rfl rfl hlate

end TxTimes

namespace Journal

variable {j j' : Journal} {call : LogCall}

theorem commitTimes_congr (h : j'.entries = j.entries) : j'.commitTimes = j.commitTimes := by
  have hentries (j : Journal) : j.commitTimes = j.entries.filterMap LogRecord.commitTime? := by
    rw [entries, List.filterMap_filter, commitTimes]
    refine List.filterMap_congr fun r _ => ?_
    cases r <;> rfl
  rw [hentries, hentries, h]

theorem commitTimes_write : (j.write call).2.commitTimes = j.commitTimes ++
    if (j.write call).1.isOk then call.record?.toList.filterMap LogRecord.commitTime? else [] := by
  unfold write commitTimes
  dsimp only
  cases j.faults j.calls call with
  | none => exact List.filterMap_append
  | some f => exact (List.append_nil _).symm

end Journal

namespace Coordinator

variable {c c' : Coordinator} {s x : SessionId} {now u : Timestamp} {k : CoordinatorCall}
  {calls before during : List CoordinatorCall} {storage : Storage} {journal : Journal}

theorem commitTimes_persistActions {transient : List RowId} {as : List RowAction} :
    (persistActions s transient storage as journal).2.commitTimes = journal.commitTimes := by
  induction as generalizing journal with
  | nil => rfl
  | cons a rest ih =>
    unfold persistActions
    split
    next => exact ih
    next =>
      split
      next => exact ih
      next row _ =>
        have haction : (journal.write (.action s a.type row)).2.commitTimes = journal.commitTimes := by
          have hnone : (LogCall.action s a.type row).record?.toList.filterMap
              LogRecord.commitTime? = [] := by
            cases a.type <;> rfl
          rw [Journal.commitTimes_write, hnone, ite_self, List.append_nil]
        split
        next heq =>
          rw [heq] at haction
          exact haction
        next heq =>
          rw [heq] at haction
          exact ih.trans haction

/-- To write a transaction down adds at most the time of its commit. -/
theorem commitTimes_persist (s : SessionId) (now : Timestamp) (as : List RowAction)
    (storage : Storage) (journal : Journal) : ∃ new, new.Sublist [now] ∧
    (persist s now as storage journal).2.commitTimes = journal.commitTimes ++ new := by
  unfold persist
  split
  next => exact ⟨[], List.nil_sublist _, (List.append_nil _).symm⟩
  next =>
    dsimp only
    have hactions : (persistActions s ((as.filter (·.type = .insertThenDelete)).map RowAction.row)
        storage as journal).2.commitTimes = journal.commitTimes := commitTimes_persistActions
    split
    next heq =>
      rw [heq] at hactions
      exact ⟨[], List.nil_sublist _, hactions.trans (List.append_nil _).symm⟩
    next j heq =>
      rw [heq] at hactions
      refine ⟨_, ?_, Journal.commitTimes_write.trans (congrArg (· ++ _) hactions)⟩
      split
      next => exact List.Sublist.refl _
      next => exact List.nil_sublist _

theorem commitTimes_commit : ∃ new, new.Sublist (c.given (.commit s)) ∧
    (c.commit s).2.journal.commitTimes = c.journal.commitTimes ++ new := by
  obtain ⟨new, hnew, hlogged⟩ :=
    commitTimes_persist s c.tick.1 (c.tx s).actions c.storage c.journal
  have hcommits := c.commit_commits s
  generalize c.commitEvent? s = e, (c.commit s).2 = c' at hcommits
  cases hcommits with
  | refused habort => exact ⟨[], List.nil_sublist _, (List.append_nil _).symm⟩
  | @failed f journal habort hlog =>
    have htwo : c.given (.commit s) = [c.tick.1, c.tick.2.tick.1] := by
      simp [Coordinator.given, commitTime?, habort, hlog]
    rw [hlog] at hlogged
    refine ⟨new, htwo ▸ hnew.trans ?_, ?_⟩
    · exact (List.nil_sublist _).cons_cons _
    · rw [rollback_journal]
      exact hlogged
  | @done journal habort hlog =>
    have hone : c.given (.commit s) = [c.tick.1] := by
      simp [Coordinator.given, commitTime?, habort, hlog]
    have hended (c₁ : Coordinator) (rows : List RowId) :
        ((c₁.endTx s rows).closeTx s c.tick.1).journal = c₁.journal := journal_of_data endTx_data
    rw [hlog] at hlogged
    refine ⟨new, hone ▸ hnew, ?_⟩
    rw [hended]
    exact hlogged

/-- A call adds to the log at most the time of a commit that it gives out. -/
theorem commitTimes_perform (hk : c.InOrder k) : ∃ new, new.Sublist (c.given k) ∧
    (c.perform k).journal.commitTimes = c.journal.commitTimes ++ new := by
  have hsame (h : (c.perform k).journal.commitTimes = c.journal.commitTimes) :
      ∃ new, new.Sublist (c.given k) ∧
        (c.perform k).journal.commitTimes = c.journal.commitTimes ++ new :=
    ⟨[], List.nil_sublist _, h.trans (List.append_nil _).symm⟩
  have hentries (h : (c.perform k).journal.entries = c.journal.entries) :=
    hsame (Journal.commitTimes_congr h)
  cases k with
  | commit s => exact commitTimes_commit
  | outside storage journal => exact hsame hk
  | register level => exact hentries rfl
  | change s change => exact hentries rfl
  | unregister s => exact hentries provisional_unregister.entries
  | beginTransaction s => exact hentries quiet_beginTransaction.entries
  | beginStatement s r => exact hentries (beginStatement_begins c s r).quiet.entries
  | resumeStatement s => exact hentries quiet_resumeStatement.entries
  | cancelWait s => exact hentries quiet_cancelWait.entries
  | completeStatement s => exact hentries quiet_completeStatement.entries
  | rollbackStatement s => exact hentries provisional_rollbackStatement.entries
  | prepare s => exact hentries quiet_prepare.entries
  | rollback s => exact hentries provisional_rollback.entries
  | rollbackToIndex s i => exact hentries provisional_rollbackToIndex.entries
  | rollbackToSavepoint s name => exact hentries provisional_rollbackToSavepoint.entries
  | recordInsert s store row => exact hentries provisional_recordInsert.entries
  | recordDelete s store row => exact hentries provisional_recordDelete.entries

theorem commitTimes_run (hcalls : c.Throughout InOrder calls) :
    ∃ new, new.Sublist ((c.handedOut calls).map Prod.snd) ∧
      (c.run calls).journal.commitTimes = c.journal.commitTimes ++ new := by
  induction calls generalizing c with
  | nil => exact ⟨[], List.nil_sublist _, (List.append_nil _).symm⟩
  | cons k rest ih =>
    obtain ⟨first, hfirst, hstep⟩ := commitTimes_perform hcalls.1
    obtain ⟨new, hnew, hrun⟩ := ih hcalls.2
    refine ⟨first ++ new, ?_, ?_⟩
    · rw [handedOut, List.map_append, times_handsOut]
      exact hfirst.append hnew
    · rw [run_cons, hrun, hstep, List.append_assoc]

theorem ordered_perform (h : ∀ x, (c.tx x).times.Ordered c.clock.current) (hk : c.InOrder k)
    (x : SessionId) : ((c.perform k).tx x).times.Ordered (c.perform k).clock.current := by
  have hrun : c.run [k] = c.perform k := rfl
  refine (h x).elapses elapses_perform hk (fun u hu => ?_) (hrun ▸ clock_run_le)
  have hout : (x, u) ∈ c.handedOut [k] := List.mem_append_left _ (mem_handsOut.mpr hu)
  obtain ⟨hlt, hle⟩ := mem_times_of_mem_handedOut hout
  exact ⟨Nat.le_of_lt hlt, hle⟩

theorem ordered_run (h : ∀ x, (c.tx x).times.Ordered c.clock.current)
    (hcalls : c.Throughout InOrder calls) (x : SessionId) :
    ((c.run calls).tx x).times.Ordered (c.run calls).clock.current := by
  refine hcalls.preserves (q := fun c => ∀ x, (c.tx x).times.Ordered c.clock.current) ?_ h x
  intro c k hc hk
  exact ordered_perform hc hk

/-- A transaction that stays open keeps the time at which it began. -/
theorem beganAt_run (hopen : ∀ part, part <+: during → ((c.run part).tx s).isOpen = true) :
    ((c.run during).tx s).beganAt = (c.tx s).beganAt := by
  induction during generalizing c with
  | nil => rfl
  | cons k rest ih =>
    have hstart : (c.tx s).isOpen = true := hopen [] List.nil_prefix
    have hnext : ((c.perform k).tx s).isOpen = true := hopen [k] ⟨rest, rfl⟩
    have hrest := ih (c := c.perform k) fun part hpart => hopen (k :: part) (List.cons_prefix_cons.mpr ⟨rfl, hpart⟩)
    exact hrest.trans (elapses_perform.beganAt hstart hnext)

/-- A commit that is written down takes the next time of the clock, at which the transaction ends. -/
theorem commitTime?_eq_some (h : c.commitTime? s = some now) :
    c.clock.current < now ∧ ((c.commit s).2.tx s).endedAt = now ∧ now ≤ (c.commit s).2.clock.current := by
  have hcommits := c.commit_commits s
  generalize c.commitEvent? s = e, (c.commit s).2 = c' at hcommits
  cases hcommits with
  | refused habort => simp [commitTime?, habort] at h
  | failed habort hlog => simp [commitTime?, habort, hlog] at h
  | @done journal habort hlog =>
    have hnow : c.tick.1 = now := by simpa [commitTime?, habort, hlog] using h
    rw [← hnow]
    refine ⟨c.clock.lt_tick, ?_, ?_⟩
    · rw [closeTx, tx_updateTx_self]
    · rw [clock_closeTx, clock_endTx]
      exact Nat.le_refl _

/-- A commit that succeeds has a time. -/
theorem commitTime?_of_ok (h : (c.commit s).1 = .ok true) :
    c.commitTime? s = some ((c.commit s).2.tx s).endedAt := by
  cases htime : c.commitTime? s with
  | some now => rw [(commitTime?_eq_some htime).2.1]
  | none =>
    unfold commitTime? at htime
    unfold commit at h
    split at htime
    next habort =>
      rw [if_pos habort] at h
      cases h
    next habort =>
      rw [if_neg habort] at h
      split at htime
      next heq =>
        have hlog : persist s c.tick.1 (c.tick.2.tx s).actions c.tick.2.storage c.tick.2.journal = _ :=
          heq
        dsimp only at h
        rw [hlog] at h
        cases h
      next => cases htime

/-- What is given out after a commit is later than the commit. -/
theorem commitTime?_lt (h : c.commitTime? s = some now)
    (hu : (x, u) ∈ (c.run (.commit s :: during)).handedOut calls) : now < u := by
  obtain ⟨-, -, hended⟩ := commitTime?_eq_some h
  have hrun : now ≤ (c.run (.commit s :: during)).clock.current :=
    Nat.le_trans hended (clock_run_le (c := c.perform (.commit s)))
  exact Nat.lt_of_le_of_lt hrun (mem_times_of_mem_handedOut hu).1

theorem ordered_started {clock : Clock} :
    ((started clock storage journal).tx s).times.Ordered clock.current :=
  TxTimes.ordered_idle rfl rfl (Nat.zero_le _)

/-- Whatever calls are made, if actions are recorded only in open transactions: the clock gives out
each time after the one before, and all times in the states of sessions come from there. While a
transaction is open the time at which it began stays as it is, and no action in its log is older.
The actions stand in the log in the order of their times, all before the time of its commit, and
the commits in the order of theirs. Who comes to hold a lock after a session that held it has
committed is given later times than that of the commit. -/
theorem timestamps_order_history (clock : Clock) (storage : Storage) (journal : Journal)
    {calls : List CoordinatorCall} {start : Coordinator}
    (hstart : start = started clock storage journal) (hcalls : start.Throughout InOrder calls)
    (hc : c = start.run calls) :
    (clock.current :: (start.handedOut calls).map Prod.snd).Pairwise (· < ·) ∧
    (∀ s, ∀ u ∈ (c.tx s).times.all, u = 0 ∨ (s, u) ∈ start.handedOut calls) ∧
    (∀ s, (c.tx s).isOpen = true → ∀ a ∈ (c.tx s).actions, (c.tx s).beganAt ≤ a.timestamp) ∧
    (∀ before during s, calls = before ++ during →
      (∀ part, part <+: during → ((start.run (before ++ part)).tx s).isOpen = true) →
      (c.tx s).beganAt = ((start.run before).tx s).beganAt) ∧
    (∀ s, (c.tx s).actions.Pairwise (·.timestamp ≤ ·.timestamp) ∧
      ((c.commit s).1 = .ok true → c.commitTime? s = some ((c.commit s).2.tx s).endedAt) ∧
      ∀ now, c.commitTime? s = some now →
        (∀ a ∈ (c.tx s).actions, a.timestamp < now) ∧ ((c.commit s).2.tx s).endedAt = now) ∧
    (∃ new, (clock.current :: new).Pairwise (· < ·) ∧
      c.journal.commitTimes = journal.commitTimes ++ new) ∧
    ∀ before during after s₁ s₂ t m₁ m₂ now, calls = before ++ .commit s₁ :: (during ++ after) →
      (start.run before).commitTime? s₁ = some now →
      (start.run before).locks.mode? s₁ t = some m₁ →
      (start.run (before ++ .commit s₁ :: during)).locks.mode? s₂ t = some m₂ →
      ∀ u, (s₂, u) ∈ (start.run (before ++ .commit s₁ :: during)).handedOut after → now < u := by
  have hclock : start.clock.current = clock.current := by rw [hstart]; rfl
  have hordered (s : SessionId) : (c.tx s).times.Ordered c.clock.current := by
    rw [hc]
    refine ordered_run (fun x => ?_) hcalls s
    rw [hstart]
    exact ordered_started
  have hincreasing : (clock.current :: (start.handedOut calls).map Prod.snd).Pairwise (· < ·) :=
    hclock ▸ pairwise_handedOut
  refine ⟨hincreasing, fun s u hu => ?_, fun s hopen a ha => ?_, fun before during s hsplit hopen => ?_,
    fun s => ⟨?_, commitTime?_of_ok, fun now hnow => ⟨fun a ha => ?_, ?_⟩⟩, ?_, ?_⟩
  · subst hstart hc
    exact mem_all_started hu
  · exact (hordered s).since a.timestamp (List.mem_map_of_mem ha)
  · rw [hc, hsplit, run_append]
    refine beganAt_run fun part hpart => ?_
    rw [← run_append]
    exact hopen part hpart
  · exact List.pairwise_map.mp (hordered s).sorted
  · obtain ⟨hlt, -⟩ := commitTime?_eq_some hnow
    have hlast := (hordered s).upTo a.timestamp (List.mem_map_of_mem ha)
    exact Nat.lt_of_le_of_lt (Nat.le_trans hlast (hordered s).acted) hlt
  · exact (commitTime?_eq_some hnow).2.1
  · obtain ⟨new, hnew, hlogged⟩ := commitTimes_run hcalls
    refine ⟨new, hincreasing.sublist (hnew.cons_cons _), ?_⟩
    rw [hc, hlogged, hstart]
    rfl
  · intro before during after s₁ s₂ t m₁ m₂ now hsplit hcommit _ _ u hu
    rw [run_append] at hu
    exact commitTime?_lt hcommit hu

/-- Session 1 inserts a row and commits at time 3, which grants session 2 the lock that it waits
for. -/
theorem timestamps_order_history_granted :
    (started .zero (Storage.empty.addTable 1 false) .empty).Throughout InOrder
      [.register .readCommitted, .register .readCommitted, .beginStatement 1 (.write [1]),
        .resumeStatement 1, .recordInsert 1 1 ⟨1, 1, 1, []⟩, .beginStatement 2 (.write [1]),
        .prepare 1, .commit 1, .resumeStatement 2] ∧
    (2, 4) ∈ ((started .zero (Storage.empty.addTable 1 false) .empty).run
      [.register .readCommitted, .register .readCommitted, .beginStatement 1 (.write [1]),
        .resumeStatement 1, .recordInsert 1 1 ⟨1, 1, 1, []⟩, .beginStatement 2 (.write [1]),
        .prepare 1, .commit 1]).handedOut [.resumeStatement 2] ∧
    ∀ u, (2, u) ∈ ((started .zero (Storage.empty.addTable 1 false) .empty).run
      [.register .readCommitted, .register .readCommitted, .beginStatement 1 (.write [1]),
        .resumeStatement 1, .recordInsert 1 1 ⟨1, 1, 1, []⟩, .beginStatement 2 (.write [1]),
        .prepare 1, .commit 1]).handedOut [.resumeStatement 2] → 3 < u := by
  have hcalls : (started .zero (Storage.empty.addTable 1 false) .empty).Throughout InOrder
      [.register .readCommitted, .register .readCommitted, .beginStatement 1 (.write [1]),
        .resumeStatement 1, .recordInsert 1 1 ⟨1, 1, 1, []⟩, .beginStatement 2 (.write [1]),
        .prepare 1, .commit 1, .resumeStatement 2] := by
    decide
  obtain ⟨-, -, -, -, -, -, hlater⟩ := timestamps_order_history .zero
    (Storage.empty.addTable 1 false) .empty rfl hcalls rfl
  refine ⟨hcalls, by decide, ?_⟩
  exact hlater [.register .readCommitted, .register .readCommitted, .beginStatement 1 (.write [1]),
    .resumeStatement 1, .recordInsert 1 1 ⟨1, 1, 1, []⟩, .beginStatement 2 (.write [1]),
    .prepare 1] [] [.resumeStatement 2] 1 2 1 .exclusive .exclusive 3 rfl (by decide) (by decide)
    (by decide)

end Coordinator

end LockingDb
