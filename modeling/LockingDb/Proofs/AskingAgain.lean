import LockingDb.Proofs.ChangedRequests
import LockingDb.Proofs.CoordinatorLocks

namespace LockingDb

namespace LockTable

variable {l l' : LockTable} {s x y : SessionId} {n : Nat} {w : Waiter} {r : LockRequest}

theorem Coherent.waits_acquire_between (h : l.Coherent) (hx : x ≠ s) (hy : y ≠ s) :
    (l.acquire s r).2.Waits x y ↔ l.Waits x y :=
  h.waits_between h.acquire (fun _ hx _ _ => h.queued_acquire_of_ne hx)
    (fun _ hx _ => mode?_acquire_of_ne hx) hx hy

/-- An answered request frees those who have waited for its session alone and do so no longer. -/
theorem Coherent.not_blocked_acquire_iff (h : l.Coherent) (hx : x ≠ s) :
    ¬(l.acquire s r).2.Blocked x ↔
      (∀ y, l.Waits x y → y = s) ∧ ¬(l.acquire s r).2.Waits x s := by
  constructor
  · intro hfree
    refine ⟨fun y hxy => ?_, fun hxs => hfree ⟨s, hxs⟩⟩
    by_contra hy
    exact hfree ⟨y, (h.waits_acquire_between hx hy).mpr hxy⟩
  · rintro ⟨honly, hnot⟩ ⟨y, hxy⟩
    by_cases hy : y = s
    · rw [hy] at hxy
      exact hnot hxy
    · exact hy (honly y ((h.waits_acquire_between hx hy).mp hxy))

/-- Who is told to wait has somebody to wait for. -/
theorem Coherent.blocked_of_wait (h : l.Coherent) {ahead : IdSet}
    (hv : (l.acquire s r).1 = .wait ahead) : (l.acquire s r).2.Blocked s := by
  have hout := acquire_acquires l s r
  generalize (l.acquire s r).1 = verdict, (l.acquire s r).2 = after at hout hv
  have hsome : ∀ found : IdSet, found.isEmpty = false → ∃ y, y ∈ found := by
    intro found hbusy
    simpa [IdSet.isEmpty_iff] using Bool.eq_false_iff.mp hbusy
  cases hout with
  | held hall => cases hv
  | free hmore hfree hpass => cases hv
  | behind hmore hbusy hsafe =>
    obtain ⟨y, hy⟩ := hsome _ hbusy
    exact ⟨y, (h.waits_enqueue_self (b := false) hmore).mpr hy⟩
  | barging hmore hbusy hpass hsafe =>
    obtain ⟨y, hy⟩ := hsome _ hbusy
    exact ⟨y, (h.waits_enqueue_self (b := true) hmore).mpr hy⟩
  | refused hmore hpass hcycle => cases hv

/-- To look at each session in the queue tells whether all of them are blocked. -/
theorem QueueAgrees.allBlocked_iff (h : l.QueueAgrees) :
    l.AllBlocked ↔ ∀ x ∈ l.waitingSessions, (l.blockers x).isEmpty = false := by
  have hblocked : ∀ x, (l.blockers x).isEmpty = false ↔ l.Blocked x := by
    intro x
    rw [Bool.eq_false_iff, ne_eq, IdSet.isEmpty_iff, not_forall]
    simp only [not_not]
    rfl
  simp only [AllBlocked, h.mem_waitingSessions, hblocked]
  constructor
  · rintro hall x ⟨n, w, hq⟩
    exact hall x n w hq
  · intro hall x n w hq
    exact hall x ⟨n, w, hq⟩

end LockTable

namespace Coordinator

variable {c c' : Coordinator} {s x : SessionId} {r : LockRequest} {n m : Nat} {w v : Waiter}
  {answer : Except Failure LockAnswer}

theorem coherent_locks_run (clock : Clock) (storage : Storage) (journal : Journal)
    (calls : List CoordinatorCall) :
    ((started clock storage journal).run calls).locks.Coherent := by
  obtain ⟨steps, hsteps⟩ := locks_run clock storage journal calls
  rw [hsteps]
  exact LockTable.coherent_empty.foldl_perform steps

theorem Begins.not_aborted {a : LockAnswer} (hb : Begins c s r (.ok a) c') :
    c.abortRequested s = false := by
  cases hb with
  | again habort hgranted => exact habort
  | granted habort hv => exact habort
  | waits habort hv => exact habort

/-- A grant that is remembered is not asked for again. -/
theorem beginStatement_of_remembered (habort : c.abortRequested s = false)
    (hgranted : (c.tx s).granted = some r) :
    c.beginStatement s r = (.ok .proceed, c.noted s r) := by
  have hnoted : (c.noted s r).tx s = { c.tx s with
      statementStart := (c.tx s).actions.length, request := some r } := tx_updateTx_self
  have ha : (c.noted s r).abortRequested s = false := by
    rw [abortRequested, hnoted]
    exact habort
  have hg : ((c.noted s r).tx s).granted = some r := by
    rw [hnoted]
    exact hgranted
  unfold beginStatement
  dsimp only
  rw [← noted, ha, if_neg Bool.false_ne_true, if_pos hg]

/-- A waiting session that is told to proceed stays in the queue if and only if its grant was
remembered. -/
theorem queued_of_proceed_iff (h : c.locks.Coherent) (hq : c.locks.Queued s n w)
    (hproceed : (c.beginStatement s r).1 = .ok .proceed) :
    (∃ m v, (c.beginStatement s r).2.locks.Queued s m v) ↔ (c.tx s).granted = some r := by
  have hb := beginStatement_begins c s r
  rw [hproceed] at hb
  by_cases hgranted : (c.tx s).granted = some r
  · rw [beginStatement_of_remembered hb.not_aborted hgranted]
    exact iff_of_true ⟨n, w, hq⟩ hgranted
  · refine iff_of_false ?_ hgranted
    rintro ⟨m, v, hm⟩
    generalize (c.beginStatement s r).2 = after at hb hm
    cases hb with
    | again habort hremembered => exact hgranted hremembered
    | granted habort hv =>
      obtain ⟨-, ahead, hwait⟩ := LockTable.queued_acquire h hm
      rw [hv] at hwait
      cases hwait

/-- An error leaves nobody free: either nothing has changed, or the queue has been walked. -/
theorem Begins.allBlocked_of_error {f : Failure} (hb : Begins c s r (.error f) c')
    (h : c.locks.Coherent) (hblocked : c.locks.AllBlocked) : c'.locks.AllBlocked := by
  cases hb with
  | aborted habort => exact hblocked
  | refused habort hv =>
    rw [signal_locks, promote_locks]
    exact h.acquire.allBlocked_promote

/-- An answer that is no error frees those who have waited for the session alone and do so no
longer. -/
theorem Begins.not_blocked_iff {a : LockAnswer} (hb : Begins c s r (.ok a) c')
    (h : c.locks.Coherent) (hblocked : c.locks.AllBlocked) (hm : c'.locks.Queued x m v) :
    ¬c'.locks.Blocked x ↔ x ≠ s ∧ (∀ y, c.locks.Waits x y → y = s) ∧ ¬c'.locks.Waits x s := by
  cases hb with
  | again habort hgranted =>
    obtain ⟨y, hxy⟩ := hblocked x m v hm
    refine iff_of_false (fun hfree => hfree ⟨y, hxy⟩) ?_
    rintro ⟨-, honly, hnot⟩
    rw [honly y hxy] at hxy
    exact hnot hxy
  | granted habort hv =>
    have hx : x ≠ s := by
      rintro rfl
      obtain ⟨-, ahead, hwait⟩ := LockTable.queued_acquire h hm
      rw [hv] at hwait
      cases hwait
    exact (h.not_blocked_acquire_iff hx).trans (and_iff_right hx).symm
  | waits habort hv =>
    by_cases hx : x = s
    · subst hx
      exact iff_of_false (not_not.mpr (h.blocked_of_wait hv)) fun hne => hne.1 rfl
    · exact (h.not_blocked_acquire_iff hx).trans (and_iff_right hx).symm

/-- When a session in the queue begins a statement, whatever it asks for: if it may proceed, it
leaves the queue unless its grant was remembered; those who waited for it alone and do so no longer
are left in the queue with nobody to wait for, unless it gets an error; and who else leaves the queue
has its locks. -/
theorem frees_unnoticed_iff (clock : Clock) (storage : Storage) (journal : Journal)
    (calls : List CoordinatorCall) (r : LockRequest)
    (hc : c = (started clock storage journal).run calls) (hblocked : c.locks.AllBlocked)
    (hq : c.locks.Queued s n w) :
    ((c.beginStatement s r).1 = .ok .proceed →
      ((∃ m v, (c.beginStatement s r).2.locks.Queued s m v) ↔ (c.tx s).granted = some r)) ∧
    (∀ x m v, (c.beginStatement s r).2.locks.Queued x m v →
      (¬(c.beginStatement s r).2.locks.Blocked x ↔
        x ≠ s ∧ (∃ a, (c.beginStatement s r).1 = .ok a) ∧ (∀ y, c.locks.Waits x y → y = s) ∧
          ¬(c.beginStatement s r).2.locks.Waits x s)) ∧
    ∀ x m v, x ≠ s → c.locks.Queued x m v →
      (c.beginStatement s r).2.locks.Queued x m v ∨
        (c.beginStatement s r).2.locks.holdsAll x v.request = true := by
  have h : c.locks.Coherent := hc ▸ coherent_locks_run clock storage journal calls
  refine ⟨queued_of_proceed_iff h hq, fun x m v hm => ?_, fun x m v hx hm => ?_⟩
  · have hb := beginStatement_begins c s r
    cases hanswer : (c.beginStatement s r).1 with
    | error f =>
      rw [hanswer] at hb
      refine iff_of_false (not_not.mpr (hb.allBlocked_of_error h hblocked x m v hm)) ?_
      rintro ⟨-, ⟨a, ha⟩, -⟩
      cases ha
    | ok a =>
      rw [hanswer] at hb
      rw [hb.not_blocked_iff h hblocked hm]
      have hanswered : ∃ b, Except.ok (ε := Failure) a = .ok b := ⟨a, rfl⟩
      simp only [hanswered, true_and]
  · exact (spares_beginStatement hx).served h m v hm

/-- Session 1 has a table and waits for one of 2 and another one, for which 3 waits behind it. -/
def oneInFront : List CoordinatorCall :=
  [.register .serializable, .register .serializable, .register .serializable,
    .beginStatement 2 (.write [2]), .beginStatement 1 (.write [1]), .beginStatement 1 (.write [2, 3]),
    .beginStatement 3 (.write [3])]

/-- When session 1 gets another table instead, nobody stands in the way of 3 any more. -/
theorem frees_unnoticed_iff_oneInFront :
    ((started .zero .empty .empty).run oneInFront).locks.AllBlocked ∧
    ((started .zero .empty .empty).run oneInFront).locks.Queued 1 0 ⟨1, .write [2, 3], false⟩ ∧
    (¬∃ m v, (((started .zero .empty .empty).run oneInFront).beginStatement 1
      (.write [4])).2.locks.Queued 1 m v) ∧
    ¬(((started .zero .empty .empty).run oneInFront).beginStatement 1 (.write [4])).2.locks.Blocked 3 := by
  have hblocked : ((started .zero .empty .empty).run oneInFront).locks.AllBlocked :=
    (coherent_locks_run .zero .empty .empty oneInFront).allBlocked_iff.mpr (by decide)
  have hq : ((started .zero .empty .empty).run oneInFront).locks.Queued 1 0
      ⟨1, .write [2, 3], false⟩ := by
    constructor <;> decide
  have hthird : (((started .zero .empty .empty).run oneInFront).beginStatement 1
      (.write [4])).2.locks.Queued 3 1 ⟨3, .write [3], false⟩ := by
    constructor <;> decide
  have honly : ((started .zero .empty .empty).run oneInFront).locks.blockers 3 = .ofList [1] := by
    decide
  obtain ⟨hproceed, hfreed, -⟩ :=
    frees_unnoticed_iff .zero .empty .empty oneInFront (.write [4]) rfl hblocked hq
  refine ⟨hblocked, hq, fun hqueued => ?_, (hfreed 3 1 _ hthird).mpr ⟨by decide, ⟨.proceed, by decide⟩, ?_, ?_⟩⟩
  · exact absurd ((hproceed (by decide)).mp hqueued) (by decide)
  · intro y hy
    rw [LockTable.Waits, honly] at hy
    simpa using hy
  · unfold LockTable.Waits
    decide

/-- Session 1 may proceed with its remembered grant and stays in the queue; with another table it
leaves the queue, and 3 stays in it with nobody to wait for. -/
theorem asking_again_loses_track :
    (¬∀ (calls : List CoordinatorCall) (s : SessionId) (n : Nat) (w : Waiter) (r : LockRequest),
      ((started .zero .empty .empty).run calls).locks.AllBlocked →
      ((started .zero .empty .empty).run calls).locks.Queued s n w →
      (((started .zero .empty .empty).run calls).beginStatement s r).1 = .ok .proceed →
      ∀ m v, ¬(((started .zero .empty .empty).run calls).beginStatement s r).2.locks.Queued s m v) ∧
    ¬∀ (calls : List CoordinatorCall) (s : SessionId) (n : Nat) (w : Waiter) (r : LockRequest),
      ((started .zero .empty .empty).run calls).locks.AllBlocked →
      ((started .zero .empty .empty).run calls).locks.Queued s n w →
      (((started .zero .empty .empty).run calls).beginStatement s r).2.locks.AllBlocked := by
  have hblocked : ((started .zero .empty .empty).run oneInFront).locks.AllBlocked :=
    (coherent_locks_run .zero .empty .empty oneInFront).allBlocked_iff.mpr (by decide)
  have hq : ((started .zero .empty .empty).run oneInFront).locks.Queued 1 0
      ⟨1, .write [2, 3], false⟩ := by
    constructor <;> decide
  have hstays : (((started .zero .empty .empty).run oneInFront).beginStatement 1
      (.write [1])).2.locks.Queued 1 0 ⟨1, .write [2, 3], false⟩ := by
    constructor <;> decide
  have hthird : (((started .zero .empty .empty).run oneInFront).beginStatement 1
      (.write [4])).2.locks.Queued 3 1 ⟨3, .write [3], false⟩ := by
    constructor <;> decide
  have hnobody : (((started .zero .empty .empty).run oneInFront).beginStatement 1
      (.write [4])).2.locks.blockers 3 = ∅ := by
    decide
  constructor
  · intro hclaim
    exact hclaim _ _ _ _ (.write [1]) hblocked hq (by decide) _ _ hstays
  · intro hclaim
    obtain ⟨y, hy⟩ := hclaim _ _ _ _ (.write [4]) hblocked hq _ _ _ hthird
    rw [LockTable.Waits, hnobody] at hy
    exact IdSet.not_mem_empty hy

end Coordinator

end LockingDb
