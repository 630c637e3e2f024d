import LockingDb.Proofs.Overtaking

namespace LockingDb

namespace LockTable

open Relation

variable {l l' : LockTable} {s x : SessionId} {r : LockRequest} {b : Bool} {verdict : Verdict}

/-- Another session has a lock that does not go with the request. -/
def HeldAgainst (l : LockTable) (s : SessionId) (r : LockRequest) (x : SessionId) : Prop :=
  x ≠ s ∧ l.Bars x r

/-- Another session waits with a conflicting request, in front of the one that asks if that one
waits too. -/
def QueuedAgainst (l : LockTable) (s : SessionId) (r : LockRequest) (x : SessionId) : Prop :=
  x ≠ s ∧ l.WaitsAhead x r (l.ticket.get? s)

/-- Somebody whose lock is in the way of the request waits for the session that makes it. -/
def AwaitedByHolder (l : LockTable) (s : SessionId) (r : LockRequest) : Prop :=
  ∃ x, l.HeldAgainst s r x ∧ TransGen l.Waits x s

/-- Which answer a session gets that asks for more than it has. -/
structure Decides (l : LockTable) (s : SessionId) (r : LockRequest) (verdict : Verdict) : Prop where
  granted_iff : verdict = .granted ↔
    (∀ x, ¬l.HeldAgainst s r x) ∧ ((∀ x, ¬l.QueuedAgainst s r x) ∨ l.AwaitedAhead s r)
  wait_iff : (∃ behind, verdict = .wait behind) ↔ ¬l.AwaitedByHolder s r ∧
    ((∃ x, l.HeldAgainst s r x) ∨ (∃ x, l.QueuedAgainst s r x) ∧ ¬l.AwaitedAhead s r)
  deadlock_iff : (∃ ahead, verdict = .deadlock ahead) ↔ l.AwaitedByHolder s r

/-- What becomes of the session that has got its answer. -/
def Outcome (l : LockTable) (s : SessionId) (r : LockRequest) (l' : LockTable) : Verdict → Prop
  | .granted => l'.holdsAll s r = true ∧ Keeps s l l' ∧ l'.isWaiting s = false
  | .wait behind =>
    (∀ t, l'.mode? s t = l.mode? s t) ∧
    (∃ b, l'.Queued s (l.ticketFor s) ⟨s, r, b⟩) ∧
    behind.toList ≠ [] ∧ behind.toList.Pairwise (· < ·) ∧ s ∉ behind ∧ l'.blockers s = behind ∧
    ∀ x, x ∈ behind ↔ l.HeldAgainst s r x ∨ (l.QueuedAgainst s r x ∧ ¬l.AwaitedAhead s r)
  | .deadlock ahead =>
    (∀ t, l'.mode? s t = l.mode? s t) ∧ l'.isWaiting s = false ∧
    ∀ x, x ∈ ahead ↔ l.HeldAgainst s r x ∨ l.QueuedAgainst s r x

/-- The session has the locks that it had and the place in the queue, if any, that it had. -/
def Untouched (x : SessionId) (l l' : LockTable) : Prop :=
  (∀ t, l'.mode? x t = l.mode? x t) ∧ ∀ n w, l'.Queued x n w ↔ l.Queued x n w

theorem Coherent.mem_obstacles (h : l.Coherent) :
    x ∈ l.obstacles s r ↔ l.HeldAgainst s r x ∨ l.QueuedAgainst s r x := by
  rw [obstacles, IdSet.mem_union, h.mem_conflictingHolders, h.mem_queuedAhead]
  rfl

/-- Somebody else reaches the session by one edge at least. -/
theorem wouldDeadlock_iff_awaited {found : IdSet} (hne : s ∉ found) :
    l.wouldDeadlock s found = true ↔ ∃ x ∈ found, TransGen l.Waits x s :=
  closesCycle_iff_awaited.trans (or_iff_right hne)

theorem Coherent.not_mem_behind (h : l.Coherent) : s ∉ l.behind s r b :=
  fun hs => (h.mem_behind.mp hs).1 rfl

theorem Coherent.wouldDeadlock_holders (h : l.Coherent) :
    l.wouldDeadlock s (l.conflictingHolders s r) = true ↔ l.AwaitedByHolder s r := by
  refine (wouldDeadlock_iff_awaited (h.not_mem_behind (b := true))).trans ?_
  exact exists_congr fun x => and_congr_left' h.mem_conflictingHolders

theorem Coherent.wouldDeadlock_obstacles (h : l.Coherent) :
    l.wouldDeadlock s (l.obstacles s r) = true ↔ l.AwaitedByHolder s r ∨ l.AwaitedAhead s r := by
  refine (wouldDeadlock_iff_awaited (h.not_mem_behind (b := false))).trans ?_
  refine (exists_congr fun x => and_congr_left' h.mem_obstacles).trans ?_
  simp only [or_and_right, exists_or]
  exact or_congr_right (exists_congr fun x => and_assoc)

theorem Coherent.isEmpty_holders (h : l.Coherent) :
    (l.conflictingHolders s r).isEmpty = true ↔ ∀ x, ¬l.HeldAgainst s r x := by
  rw [IdSet.isEmpty_iff]
  simp only [h.mem_conflictingHolders]
  rfl

theorem Coherent.isEmpty_obstacles (h : l.Coherent) : (l.obstacles s r).isEmpty = true ↔
    (∀ x, ¬l.HeldAgainst s r x) ∧ ∀ x, ¬l.QueuedAgainst s r x := by
  rw [IdSet.isEmpty_iff]
  simp only [h.mem_obstacles, not_or, forall_and]

theorem decides_granted (hfree : ∀ x, ¬l.HeldAgainst s r x)
    (hpass : (∀ x, ¬l.QueuedAgainst s r x) ∨ l.AwaitedAhead s r) : l.Decides s r .granted where
  granted_iff := iff_of_true rfl ⟨hfree, hpass⟩
  wait_iff := by
    refine iff_of_false nofun fun ⟨_, hwait⟩ => ?_
    rcases hwait with ⟨x, hx⟩ | ⟨⟨x, hx⟩, hnot⟩
    · exact hfree x hx
    · exact hpass.elim (fun hnone => hnone x hx) hnot
  deadlock_iff := iff_of_false nofun fun ⟨x, hx, _⟩ => hfree x hx

theorem decides_wait {behind : IdSet} (hsafe : ¬l.AwaitedByHolder s r)
    (hbusy : (∃ x, l.HeldAgainst s r x) ∨ (∃ x, l.QueuedAgainst s r x) ∧ ¬l.AwaitedAhead s r) :
    l.Decides s r (.wait behind) where
  granted_iff := by
    refine iff_of_false nofun fun ⟨hfree, hpass⟩ => ?_
    rcases hbusy with ⟨x, hx⟩ | ⟨⟨x, hx⟩, hnot⟩
    · exact hfree x hx
    · exact hpass.elim (fun hnone => hnone x hx) hnot
  wait_iff := iff_of_true ⟨behind, rfl⟩ ⟨hsafe, hbusy⟩
  deadlock_iff := iff_of_false nofun hsafe

theorem decides_deadlock {ahead : IdSet} (hcycle : l.AwaitedByHolder s r) :
    l.Decides s r (.deadlock ahead) where
  granted_iff := by
    obtain ⟨x, hx, -⟩ := hcycle
    exact iff_of_false nofun fun ⟨hfree, _⟩ => hfree x hx
  wait_iff := iff_of_false nofun fun ⟨hsafe, _⟩ => hsafe hcycle
  deadlock_iff := iff_of_true ⟨ahead, rfl⟩ hcycle

theorem Coherent.decides (h : l.Coherent) (hmore : l.holdsAll s r = false) :
    l.Decides s r (l.acquire s r).1 := by
  have hout := acquire_acquires l s r
  generalize (l.acquire s r).1 = verdict, (l.acquire s r).2 = after at hout
  cases hout with
  | held hall =>
    rw [hmore] at hall
    cases hall
  | free _ hfree hpass =>
    have hfree := h.isEmpty_holders.mp hfree
    refine decides_granted hfree ?_
    rcases hpass with hempty | hpass
    · exact Or.inl (h.isEmpty_obstacles.mp hempty).2
    · refine Or.inr ((h.wouldDeadlock_obstacles.mp hpass).resolve_left ?_)
      rintro ⟨x, hx, -⟩
      exact hfree x hx
  | behind _ hbusy hsafe =>
    obtain ⟨hholders, hahead⟩ : ¬l.AwaitedByHolder s r ∧ ¬l.AwaitedAhead s r := by
      rw [← not_or, ← h.wouldDeadlock_obstacles, hsafe]
      exact Bool.false_ne_true
    refine decides_wait hholders ?_
    have hsome := Bool.eq_false_iff.mp hbusy
    rw [ne_eq, h.isEmpty_obstacles, not_and_or, not_forall_not, not_forall_not] at hsome
    exact hsome.imp_right fun hqueued => ⟨hqueued, hahead⟩
  | barging _ hbusy hpass hsafe =>
    refine decides_wait ?_ (Or.inl ?_)
    · rw [← h.wouldDeadlock_holders, hsafe]
      exact Bool.false_ne_true
    · have hsome := Bool.eq_false_iff.mp hbusy
      rwa [ne_eq, h.isEmpty_holders, not_forall_not] at hsome
  | refused _ hpass hcycle => exact decides_deadlock (h.wouldDeadlock_holders.mp hcycle)

/-- Who is queued waits for exactly those that the answer names. -/
theorem Coherent.blockers_enqueue (h : l.Coherent) (hmore : l.holdsAll s r = false) :
    (l.enqueue s r b).blockers s = l.behind s r b := by
  ext x
  exact h.waits_enqueue_self hmore

theorem Coherent.outcome_enqueue (h : l.Coherent) (hmore : l.holdsAll s r = false)
    (hbusy : (l.behind s r b).isEmpty = false)
    (hpasses : ∀ x, l.QueuedAgainst s r x → (b = false ↔ ¬l.AwaitedAhead s r)) :
    l.Outcome s r (l.enqueue s r b) (.wait (l.behind s r b)) := by
  refine ⟨fun t => mode?_enqueue, ⟨b, h.queued_enqueue.mpr (Or.inr ⟨rfl, rfl, rfl⟩)⟩, ?_,
    (l.behind s r b).increasing, h.not_mem_behind, h.blockers_enqueue hmore, fun x => ?_⟩
  · intro hnil
    rw [IdSet.isEmpty, hnil] at hbusy
    cases hbusy
  · rw [h.mem_behind, and_or_left, and_left_comm, and_comm (a := b = false)]
    exact or_congr_right (and_congr_right fun hx => hpasses x hx)

theorem Coherent.outcome (h : l.Coherent) (hmore : l.holdsAll s r = false) :
    l.Outcome s r (l.acquire s r).2 (l.acquire s r).1 := by
  have hout := acquire_acquires l s r
  generalize (l.acquire s r).1 = verdict, (l.acquire s r).2 = after at hout
  have hleaves : (l.withdraw s).2.isWaiting s = false :=
    h.withdraw.isWaiting_eq_false.mpr fun n w hq => (h.queued_withdraw.mp hq).1 rfl
  cases hout with
  | held hall =>
    rw [hmore] at hall
    cases hall
  | free _ hfree _ =>
    have hafter := h.grantNow (h.grantable_iff.mpr hfree)
    refine ⟨holdsAll_grantNow, keeps_grantNow, hafter.isWaiting_eq_false.mpr fun n w hq => ?_⟩
    exact ((queued_grantNow h.toQueueAgrees).mp hq).1 rfl
  | behind _ hbusy hsafe =>
    refine h.outcome_enqueue (b := false) hmore hbusy fun _ _ => iff_of_true rfl fun hahead => ?_
    rw [h.wouldDeadlock_obstacles.mpr (Or.inr hahead)] at hsafe
    cases hsafe
  | barging _ hbusy hpass hsafe =>
    have hholders : ¬l.AwaitedByHolder s r := by
      rw [← h.wouldDeadlock_holders, hsafe]
      exact Bool.false_ne_true
    have hahead := (h.wouldDeadlock_obstacles.mp hpass).resolve_left hholders
    exact h.outcome_enqueue (b := true) hmore hbusy fun _ _ => iff_of_false nofun (not_not.mpr hahead)
  | refused _ hpass hcycle =>
    exact ⟨fun t => mode?_withdraw, hleaves, fun x => h.mem_obstacles⟩

theorem Coherent.untouched_acquire (h : l.Coherent) (hx : x ≠ s) :
    Untouched x l (l.acquire s r).2 :=
  ⟨fun _ => mode?_acquire_of_ne hx, fun _ _ => h.queued_acquire_of_ne hx⟩

/-- Whatever was asked of the lock table before, a session that asks for more than it has is refused
if a holder in its way waits for it. It is granted if no holder is in its way and nobody in front of
it, or if it may pass those in front because one of them waits for it. Otherwise it waits, for those
that the answer names. Nobody else loses or gains anything. -/
theorem acquire_law (steps : List LockStep) (s : SessionId) (r : LockRequest)
    (hmore : (run steps).holdsAll s r = false) :
    (run steps).Decides s r ((run steps).acquire s r).1 ∧
    (run steps).Outcome s r ((run steps).acquire s r).2 ((run steps).acquire s r).1 ∧
    ∀ x, x ≠ s → Untouched x (run steps) ((run steps).acquire s r).2 :=
  have h : (run steps).Coherent := coherent_run_steps
  ⟨h.decides hmore, h.outcome hmore, fun _ hx => h.untouched_acquire hx⟩

/-- Session 2 waits for the writers of both tables. The writer of the first asks for the second and
waits for session 3 alone. -/
theorem acquire_law_passing :
    (run [.acquire 1 (.write [1]), .acquire 3 (.write [2]), .acquire 2 (.write [1, 2])]).holdsAll 1
      (.write [2]) = false ∧
    (run [.acquire 1 (.write [1]), .acquire 3 (.write [2]), .acquire 2 (.write [1, 2])]).Outcome 1
      (.write [2]) ((run [.acquire 1 (.write [1]), .acquire 3 (.write [2]),
        .acquire 2 (.write [1, 2])]).acquire 1 (.write [2])).2 (.wait (.ofList [3])) := by
  have hmore : (run [.acquire 1 (.write [1]), .acquire 3 (.write [2]),
      .acquire 2 (.write [1, 2])]).holdsAll 1 (.write [2]) = false := by
    decide
  have hverdict : ((run [.acquire 1 (.write [1]), .acquire 3 (.write [2]),
      .acquire 2 (.write [1, 2])]).acquire 1 (.write [2])).1 = .wait (.ofList [3]) := by
    decide
  exact ⟨hmore, hverdict ▸ (acquire_law _ 1 (.write [2]) hmore).2.1⟩

end LockTable

end LockingDb
