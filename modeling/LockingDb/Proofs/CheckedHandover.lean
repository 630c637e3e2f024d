import LockingDb.Proofs.ClockTimes
import LockingDb.Proofs.CoordinatorLocks
import LockingDb.Proofs.LockEntries
import LockingDb.Proofs.OpenTransactions

namespace LockingDb

namespace Coordinator

variable {c : Coordinator} {s : SessionId} {h : Handover}

/-- No other session has a lock, waits for one or has an open transaction. -/
def Alone (c : Coordinator) (s : SessionId) : Prop :=
  ∀ x, x ≠ s → (∀ t, c.locks.mode? x t = none) ∧ c.locks.isWaiting x = false ∧
    (c.tx x).isOpen = false

/-- What a session would hand over. -/
def leaving (c : Coordinator) (s : SessionId) : Handover :=
  ⟨c.clock.current, if (c.tx s).isOpen then [(c.tx s).beganAt] else []⟩

theorem validate_leaving (hbegan : (c.tx s).beganAt ≤ c.clock.current) :
    (c.leaving s).validate = .ok () := by
  apply Handover.validate_eq_ok.mpr
  intro t ht
  unfold leaving at ht
  split at ht
  next =>
    rw [List.mem_singleton.mp ht]
    exact hbegan
  next => cases ht

theorem handover_eq (hvalid : (c.leaving s).validate = .ok ()) : c.handover s =
    if c.locks.isIdleExcept s = true ∧ c.openCount ≤ (c.tx s).isOpen.toNat then .ok (c.leaving s)
    else .error .controlBusy := by
  have hown : (if (c.tx s).isOpen then 1 else 0) = (c.tx s).isOpen.toNat := by
    cases (c.tx s).isOpen <;> rfl
  have hbusy : (!c.locks.isIdleExcept s || decide (c.openCount > (c.tx s).isOpen.toNat)) = true ↔
      ¬(c.locks.isIdleExcept s = true ∧ c.openCount ≤ (c.tx s).isOpen.toNat) := by
    cases c.locks.isIdleExcept s <;> simp
  unfold leaving at hvalid
  simp only [handover, hown, hbusy, ite_not, hvalid, leaving]

theorem handover_eq_ok_iff (hvalid : (c.leaving s).validate = .ok ()) : c.handover s = .ok h ↔
    (c.locks.isIdleExcept s = true ∧ c.openCount ≤ (c.tx s).isOpen.toNat) ∧ h = c.leaving s := by
  rw [handover_eq hvalid]
  split
  next hidle => simp [hidle, eq_comm]
  next hbusy => simp [hbusy]

/-- The lock table and the count of open transactions tell whether other sessions are at work. -/
theorem alone_iff (hcounted : c.Counted) (hagree : c.locks.QueueAgrees) (hentered : c.locks.Entered) :
    c.Alone s ↔ c.locks.isIdleExcept s = true ∧ c.openCount ≤ (c.tx s).isOpen.toNat := by
  rw [hentered.isIdleExcept_iff hagree, hcounted.openCount_le_iff, ← forall_and]
  refine forall_congr' fun x => ?_
  tauto

/-- A coordinator that is built from a valid handover gives out later times only. -/
theorem build_locks (hvalid : h.validate = .ok ()) : ∃ next, build .locks h = .ok next ∧
    ∀ later x u, (x, u) ∈ next.handedOut later → h.time < u := by
  refine ⟨{ empty with clock := ⟨h.time⟩ }, ?_, ?_⟩
  · simp only [build, resume, hvalid]
  · intro later x u hu
    exact (mem_times_of_mem_handedOut hu).1

/-- If only registered sessions call, the count of open transactions is the number of sessions with
an open transaction, and a session may hand over if and only if no other session has a lock, waits
for one or has an open transaction. The handover is valid then and stands at the last time that was
given out, so it is built into a coordinator that gives out later times only. -/
theorem handover_checked (clock : Clock) (storage : Storage) (journal : Journal)
    {calls : List CoordinatorCall} {start : Coordinator}
    (hstart : start = started clock storage journal)
    (hcalls : start.Throughout CallsRegistered calls) (hc : c = start.run calls) (s : SessionId) :
    c.openCount = c.openSessions.length ∧
    ((∃ h, c.handover s = .ok h) ↔ c.Alone s) ∧
    (¬c.Alone s → c.handover s = .error .controlBusy) ∧
    ∀ h, c.handover s = .ok h →
      (∀ x u, (x, u) ∈ start.handedOut calls → u ≤ h.time) ∧
      h.live = (if (c.tx s).isOpen then [(c.tx s).beganAt] else []) ∧ h.validate = .ok () ∧
      ∃ next, build .locks h = .ok next ∧
        ∀ later y v, (y, v) ∈ next.handedOut later → ∀ x u, (x, u) ∈ start.handedOut calls → u < v := by
  have henrolled : c.Enrolled := by
    rw [hc]
    exact Enrolled.run (hstart ▸ enrolled_started) hcalls
  have hentered : c.locks.Entered := by
    obtain ⟨steps, hsteps⟩ := locks_run clock storage journal calls
    rw [hc, hstart, hsteps]
    exact LockTable.entered_run steps
  have hvalid : (c.leaving s).validate = .ok () := by
    apply validate_leaving
    rw [hc, hstart]
    exact mem_all_le (TxTimes.mem_all.mpr (Or.inl rfl))
  have hpast (x : SessionId) (u : Timestamp) (hu : (x, u) ∈ start.handedOut calls) :
      u ≤ c.clock.current := by
    rw [hc]
    exact (mem_times_of_mem_handedOut hu).2
  have halone : c.Alone s ↔ c.locks.isIdleExcept s = true ∧ c.openCount ≤ (c.tx s).isOpen.toNat :=
    alone_iff henrolled.counted henrolled.coherent.toQueueAgrees hentered
  have hok (h : Handover) : c.handover s = .ok h ↔ c.Alone s ∧ h = c.leaving s := by
    rw [halone]
    exact handover_eq_ok_iff hvalid
  refine ⟨counted_iff.mp henrolled.counted, ?_, ?_, ?_⟩
  · constructor
    · rintro ⟨h, hgiven⟩
      exact ((hok h).mp hgiven).1
    · intro ha
      exact ⟨c.leaving s, (hok _).mpr ⟨ha, rfl⟩⟩
  · intro hbusy
    rw [handover_eq hvalid, if_neg fun hidle => hbusy (halone.mpr hidle)]
  · intro h hgiven
    obtain ⟨-, rfl⟩ := (hok h).mp hgiven
    obtain ⟨next, hbuilt, hlater⟩ := build_locks hvalid
    refine ⟨hpast, rfl, hvalid, next, hbuilt, ?_⟩
    intro later y v hv x u hu
    exact Nat.lt_of_le_of_lt (hpast x u hu) (hlater later y v hv)

/-- Session 2 is granted its lock and commits; session 1 is left alone with an open transaction. -/
theorem handover_checked_open :
    (started .zero .empty .empty).Throughout CallsRegistered [.register .readCommitted,
      .register .readCommitted, .beginStatement 1 (.read [1]), .resumeStatement 1,
      .beginStatement 2 (.write [1]), .completeStatement 1, .resumeStatement 2, .commit 2] ∧
    ((started .zero .empty .empty).run [.register .readCommitted, .register .readCommitted,
      .beginStatement 1 (.read [1]), .resumeStatement 1, .beginStatement 2 (.write [1]),
      .completeStatement 1, .resumeStatement 2, .commit 2]).handover 1 = .ok ⟨3, [1]⟩ ∧
    ∃ next, build .locks ⟨3, [1]⟩ = .ok next ∧ ∀ later y v, (y, v) ∈ next.handedOut later →
      ∀ x u, (x, u) ∈ (started .zero .empty .empty).handedOut [.register .readCommitted,
        .register .readCommitted, .beginStatement 1 (.read [1]), .resumeStatement 1,
        .beginStatement 2 (.write [1]), .completeStatement 1, .resumeStatement 2, .commit 2] → u < v := by
  have hcalls : (started .zero .empty .empty).Throughout CallsRegistered [.register .readCommitted,
      .register .readCommitted, .beginStatement 1 (.read [1]), .resumeStatement 1,
      .beginStatement 2 (.write [1]), .completeStatement 1, .resumeStatement 2, .commit 2] := by
    decide
  have hok : ((started .zero .empty .empty).run [.register .readCommitted, .register .readCommitted,
      .beginStatement 1 (.read [1]), .resumeStatement 1, .beginStatement 2 (.write [1]),
      .completeStatement 1, .resumeStatement 2, .commit 2]).handover 1 = .ok ⟨3, [1]⟩ := by
    decide
  obtain ⟨-, -, -, hhandover⟩ := handover_checked .zero .empty .empty rfl hcalls rfl 1
  obtain ⟨-, -, -, hnext⟩ := hhandover ⟨3, [1]⟩ hok
  exact ⟨hcalls, hok, hnext⟩

end Coordinator

end LockingDb
