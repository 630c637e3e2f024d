import LockingDb.Proofs.CoordinatorCalls
import LockingDb.Proofs.OwnCalls

namespace LockingDb

namespace Coordinator

variable {c c' : Coordinator} {s x : SessionId} {r : LockRequest}
  {awaiting awaiting' : IdMap LockRequest} {answer : Except Failure LockAnswer}

/-- Nobody waits who need not, and every session that waits knows it: it has been told so last, or
it has been told to give up. -/
structure Vigilant (c : Coordinator) (awaiting : IdMap LockRequest) : Prop where
  settled : c.locks.Settled
  covered : ∀ s, c.Covered s
  aware : ∀ s n w, c.locks.Queued s n w →
    awaiting.get? s = some w.request ∨ c.abortRequested s = true
  known : ∀ s n w, c.locks.Queued s n w → s < c.nextSession
  registered_lt : ∀ s ∈ c.registered, s < c.nextSession

/-- A session that waits asks for nothing else, unless it has been told to give up. -/
def AsksAgain (c : Coordinator) (s : SessionId) (r : LockRequest) : Prop :=
  ∀ n w, c.locks.Queued s n w → c.abortRequested s = true ∨ w.request = r

theorem AsksAgain.same (h : c.AsksAgain s r) (habort : c.abortRequested s = false) :
    ∀ q ∈ c.locks.awaited? s, q = r := by
  intro q hq
  obtain ⟨n, w, hw, rfl⟩ := LockTable.awaited?_eq_some.mp hq
  rcases h n w hw with ha | hr
  · rw [habort] at ha
    cases ha
  · exact hr

theorem Begins.settled (hb : Begins c s r answer c') (h : c.locks.Settled)
    (hagain : c.AsksAgain s r) : c'.locks.Settled := by
  cases hb with
  | aborted habort => exact h
  | again habort hgranted => exact h
  | granted habort hv =>
    exact h.acquire (hagain.same habort) fun _ hd => by
      rw [hv] at hd
      cases hd
  | waits habort hv =>
    exact h.acquire (hagain.same habort) fun _ hd => by
      rw [hv] at hd
      cases hd
  | refused habort hv =>
    rw [signal_locks]
    exact settled_promote h.toCoherent.acquire (h.acyclic.acquire h.toCoherent (hagain.same habort))

/-- After a statement is begun, its session is in the queue only if it knows. -/
theorem Begins.aware (hb : Begins c s r answer c') (h : c.locks.Settled) (hcovered : c.Covered s)
    (hagain : c.AsksAgain s r) {n : Nat} {w : Waiter} (hq : c'.locks.Queued s n w) :
    (answer = .ok .mustWait ∧ w.request = r) ∨ c'.abortRequested s = true := by
  cases hb with
  | aborted habort => exact Or.inr ((proceeds_noted.queued h n w hq).2 habort)
  | again habort hgranted =>
    rcases hagain n w hq with ha | rfl
    · exact Or.inr ((proceeds_noted.queued h n w hq).2 ha)
    · have hmore := h.unserved s n w hq
      rw [hcovered w.request hgranted] at hmore
      cases hmore
  | granted habort hv =>
    obtain ⟨-, behind, hwait⟩ := LockTable.queued_acquire h.toCoherent hq
    rw [hv] at hwait
    cases hwait
  | waits habort hv => exact Or.inl ⟨rfl, (LockTable.queued_acquire h.toCoherent hq).1⟩
  | refused habort hv =>
    refine Or.inr ?_
    rw [abortRequested, tx_signal_self]
    rfl

/-- A call is judged by what it does to the session that makes it. -/
theorem Vigilant.of_call (hv : c.Vigilant awaiting) (hothers : ∀ x, x ≠ s → Spares x c c')
    (hmember : s ∈ c.registered) (hsettled : c'.locks.Settled) (hcovered : c'.Covered s)
    (hawaiting : ∀ x, x ≠ s → awaiting'.get? x = awaiting.get? x)
    (haware : ∀ n w, c'.locks.Queued s n w →
      awaiting'.get? s = some w.request ∨ c'.abortRequested s = true) :
    c'.Vigilant awaiting' := by
  have hroster : c'.nextSession = c.nextSession := (hothers (s + 1) (Nat.succ_ne_self s)).nextSession
  refine ⟨hsettled, fun x => ?_, fun x n w hq => ?_, fun x n w hq => ?_, fun x hx => ?_⟩
  · by_cases hx : x = s
    · exact hx ▸ hcovered
    · exact (hothers x hx).retains.covered (hv.covered x)
  · by_cases hx : x = s
    · subst hx
      exact haware n w hq
    · have hothers := hothers x hx
      rw [hawaiting x hx, hothers.abortRequested]
      exact hv.aware x n w (hothers.queued hv.settled.toCoherent n w hq)
  · rw [hroster]
    by_cases hx : x = s
    · exact hx ▸ hv.registered_lt s hmember
    · exact hv.known x n w ((hothers x hx).queued hv.settled.toCoherent n w hq)
  · rw [hroster]
    by_cases hxs : x = s
    · exact hxs ▸ hv.registered_lt s hmember
    · exact hv.registered_lt x ((hothers x hxs).registered.mp hx)

/-- A call that is no new request leaves nobody waiting without knowing, if its session does not
wait or stops waiting by it. -/
theorem Vigilant.of_steady (hv : c.Vigilant awaiting) (hothers : ∀ x, x ≠ s → Spares x c c')
    (hsteady : Steady s c c') (hmember : s ∈ c.registered)
    (hstops : awaiting.get? s = none ∨ ∀ n w, ¬c'.locks.Queued s n w) :
    c'.Vigilant (awaiting.erase s) := by
  refine hv.of_call hothers hmember (hsteady.settled hv.settled) (hsteady.covered (hv.covered s))
    (fun x hx => by rw [IdMap.get?_erase, if_neg hx]) (fun n w hq => ?_)
  rcases hstops with hnone | hgone
  · obtain ⟨hbefore, habort⟩ := hsteady.queued hv.settled n w hq
    rcases hv.aware s n w hbefore with hsome | ha
    · rw [hnone] at hsome
      cases hsome
    · exact Or.inr (habort ha)
  · exact absurd hq (hgone n w)

theorem Vigilant.beginStatement (hv : c.Vigilant awaiting) (hmember : s ∈ c.registered)
    (hfits : ∀ q ∈ awaiting.get? s, r = q) :
    (c.beginStatement s r).2.Vigilant (c.awaitingAfter awaiting (.beginStatement s r)) := by
  have hb := beginStatement_begins c s r
  have hagain : c.AsksAgain s r := fun n w hq => by
    rcases hv.aware s n w hq with hsome | ha
    · exact Or.inr (hfits w.request hsome).symm
    · exact Or.inl ha
  have hawaiting : ∀ x, x ≠ s →
      (c.awaitingAfter awaiting (.beginStatement s r)).get? x = awaiting.get? x := fun x hx => by
    unfold awaitingAfter
    dsimp only
    split
    next => rw [IdMap.get?_insert, if_neg hx]
    next => rw [IdMap.get?_erase, if_neg hx]
  refine hv.of_call (fun x hx => spares_beginStatement hx) hmember (hb.settled hv.settled hagain)
    (hb.covered (hv.covered s)) hawaiting (fun n w hq => ?_)
  rcases hb.aware hv.settled (hv.covered s) hagain hq with ⟨hwait, hr⟩ | ha
  · refine Or.inl ?_
    simp only [awaitingAfter, hwait, IdMap.get?_insert_self, hr]
  · exact Or.inr ha

theorem StateChange.apply_keeps (k : StateChange) (tx : SessionTx) :
    (k.apply tx).granted = tx.granted ∧ (tx.signals.abort = true → (k.apply tx).signals.abort = true) := by
  cases k with
  | isolation level =>
    unfold StateChange.apply SessionTx.setIsolation
    dsimp only
    split <;> exact ⟨rfl, id⟩
  | readOnly on =>
    unfold StateChange.apply SessionTx.setReadOnly
    dsimp only
    split <;> exact ⟨rfl, id⟩
  | raiseAbort => exact ⟨rfl, fun _ => rfl⟩
  | isolationDefault level => exact ⟨rfl, id⟩
  | readOnlyDefault on => exact ⟨rfl, id⟩
  | savepoint name => exact ⟨rfl, id⟩
  | truncateSavepoints length => exact ⟨rfl, id⟩
  | requestRedo => exact ⟨rfl, id⟩
  | takeRedo => exact ⟨rfl, id⟩

theorem Vigilant.change (hv : c.Vigilant awaiting) (k : StateChange) :
    (c.updateTx s k.apply).Vigilant awaiting := by
  obtain ⟨hgranted, habort⟩ := StateChange.apply_keeps k (c.tx s)
  refine ⟨hv.settled, fun x => ?_, fun x n w hq => ?_, hv.known, hv.registered_lt⟩
  · by_cases hx : x = s
    · subst hx
      refine (hv.covered x).of_keeps ?_ (.refl x c.locks)
      rw [tx_updateTx_self]
      exact hgranted
    · exact (spares_updateTx hx).retains.covered (hv.covered x)
  · refine (hv.aware x n w hq).imp_right fun ha => ?_
    by_cases hx : x = s
    · subst hx
      rw [abortRequested, tx_updateTx_self]
      exact habort ha
    · exact (spares_updateTx hx).abortRequested.trans ha

theorem Vigilant.register (hv : c.Vigilant awaiting) (level : IsolationLevel) :
    (c.register level).2.Vigilant awaiting := by
  have hothers : ∀ x, x ≠ c.nextSession → (c.register level).2.tx x = c.tx x := fun x hx =>
    tx_setTx_of_ne hx
  have hself : (c.register level).2.tx c.nextSession = .fresh c.nextSession level := tx_setTx_self
  refine ⟨hv.settled, fun x => ?_, fun x n w hq => ?_, fun x n w hq => ?_, fun x hx => ?_⟩
  · by_cases hx : x = c.nextSession
    · subst hx
      intro r hr
      rw [hself] at hr
      cases hr
    · exact (hv.covered x).of_keeps (by rw [hothers x hx]) (.refl x c.locks)
  · have hne : x ≠ c.nextSession := Nat.ne_of_lt (hv.known x n w hq)
    rw [abortRequested, hothers x hne]
    exact hv.aware x n w hq
  · exact Nat.lt_succ_of_lt (hv.known x n w hq)
  · rcases IdSet.mem_insert.mp hx with rfl | hx
    · exact Nat.lt_succ_self c.nextSession
    · exact Nat.lt_succ_of_lt (hv.registered_lt x hx)

theorem Vigilant.perform (hv : c.Vigilant awaiting) {k : CoordinatorCall}
    (hk : c.Admits awaiting k) : (c.perform k).Vigilant (c.awaitingAfter awaiting k) := by
  -- Those who must wait ask again, cancel their wait or go away; all other calls are made by
  -- sessions that do not wait.
  have hquiet {s : SessionId} {c' : Coordinator} (hcaller : k.caller? = some s)
      (hothers : ∀ x, x ≠ s → Spares x c c') (hsteady : Steady s c c')
      (hno : ∀ r, k.fitsWait r = false) : c'.Vigilant (awaiting.erase s) := by
    obtain ⟨hmember, hfits⟩ := hk s hcaller
    refine hv.of_steady hothers hsteady hmember (Or.inl ?_)
    refine Option.eq_none_iff_forall_not_mem.mpr fun r hr => ?_
    have hfit := hfits r hr
    rw [hno r] at hfit
    cases hfit
  have hcoherent := hv.settled.toCoherent
  cases k with
  | register level => exact hv.register level
  | unregister s =>
    exact hv.of_steady (fun x hx => spares_unregister hx) steady_unregister (hk s rfl).1
      (Or.inr fun _ _ => not_queued_unregister hv.settled)
  | beginTransaction s =>
    exact hquiet rfl (fun x hx => spares_beginTransaction hx) proceeds_beginTransaction.toSteady fun _ => rfl
  | beginStatement s r =>
    refine hv.beginStatement (hk s rfl).1 fun q hq => ?_
    simpa [CoordinatorCall.fitsWait] using (hk s rfl).2 q hq
  | resumeStatement s =>
    exact hquiet rfl (fun x hx => spares_resumeStatement hx) proceeds_resumeStatement.toSteady fun _ => rfl
  | cancelWait s =>
    exact hv.of_steady (fun x hx => spares_cancelWait hx) proceeds_cancelWait.toSteady (hk s rfl).1
      (Or.inr fun _ _ => not_queued_cancelWait hcoherent)
  | completeStatement s =>
    exact hquiet rfl (fun x hx => spares_completeStatement hx) proceeds_completeStatement.toSteady fun _ => rfl
  | rollbackStatement s =>
    exact hquiet rfl (fun x hx => spares_rollbackStatement hx) proceeds_rollbackStatement.toSteady fun _ => rfl
  | prepare s => exact hquiet rfl (fun x hx => spares_prepare hx) proceeds_prepare.toSteady fun _ => rfl
  | commit s => exact hquiet rfl (fun x hx => spares_commit hx) steady_commit fun _ => rfl
  | rollback s =>
    exact hv.of_steady (fun x hx => spares_rollback hx) steady_rollback (hk s rfl).1
      (Or.inr fun _ _ => not_queued_rollback hcoherent)
  | rollbackToIndex s i =>
    exact hquiet rfl (fun x hx => spares_rollbackToIndex hx) proceeds_rollbackToIndex.toSteady fun _ => rfl
  | rollbackToSavepoint s name =>
    exact hquiet rfl (fun x hx => spares_rollbackToSavepoint hx) proceeds_rollbackToSavepoint.toSteady
      fun _ => rfl
  | recordInsert s store row =>
    exact hquiet rfl (fun x hx => spares_recordInsert hx) proceeds_recordInsert.toSteady fun _ => rfl
  | recordDelete s store row =>
    exact hquiet rfl (fun x hx => spares_recordDelete hx) proceeds_recordDelete.toSteady fun _ => rfl
  | change s k => exact hv.change k
  | outside storage journal =>
    exact ⟨hv.settled, hv.covered, hv.aware, hv.known, hv.registered_lt⟩

/-- A call leaves all but its caller alone. -/
theorem spares_call {k : CoordinatorCall} (hcaller : k.caller? = some s) (hx : x ≠ s) :
    Spares x c (c.perform k) := by
  cases k with
  | register level => cases hcaller
  | change y k => cases hcaller
  | outside storage journal => cases hcaller
  | unregister y => cases hcaller; exact spares_unregister hx
  | beginTransaction y => cases hcaller; exact spares_beginTransaction hx
  | beginStatement y r => cases hcaller; exact spares_beginStatement hx
  | resumeStatement y => cases hcaller; exact spares_resumeStatement hx
  | cancelWait y => cases hcaller; exact spares_cancelWait hx
  | completeStatement y => cases hcaller; exact spares_completeStatement hx
  | rollbackStatement y => cases hcaller; exact spares_rollbackStatement hx
  | prepare y => cases hcaller; exact spares_prepare hx
  | commit y => cases hcaller; exact spares_commit hx
  | rollback y => cases hcaller; exact spares_rollback hx
  | rollbackToIndex y i => cases hcaller; exact spares_rollbackToIndex hx
  | rollbackToSavepoint y name => cases hcaller; exact spares_rollbackToSavepoint hx
  | recordInsert y store row => cases hcaller; exact spares_recordInsert hx
  | recordDelete y store row => cases hcaller; exact spares_recordDelete hx

/-- What a call has to do with a session: it is the session's own, or it registers the session or
changes its state, or the state stays but for the latch. -/
inductive Concerns (x : SessionId) (c : Coordinator) : CoordinatorCall → Prop where
  | own {k : CoordinatorCall} (hcaller : k.caller? = some x) : Concerns x c k
  | registers {level : IsolationLevel} (htx : (c.perform (.register level)).tx x = .fresh x level) :
      Concerns x c (.register level)
  | changes {change : StateChange}
      (htx : (c.perform (.change x change)).tx x = change.apply (c.tx x)) :
      Concerns x c (.change x change)
  | spares {k : CoordinatorCall} (htx : ((c.perform k).tx x).unlatched = (c.tx x).unlatched) :
      Concerns x c k

theorem concerns_perform (x : SessionId) (c : Coordinator) (k : CoordinatorCall) :
    Concerns x c k := by
  have hsame (htx : (c.perform k).tx x = c.tx x) : Concerns x c k := .spares (by rw [htx])
  cases hcaller : k.caller? with
  | some s =>
    by_cases hx : x = s
    · exact .own (hx ▸ hcaller)
    · exact .spares (spares_call hcaller hx).tx
  | none =>
    cases k with
    | register level =>
      by_cases hx : x = c.nextSession
      · subst hx
        exact .registers tx_setTx_self
      · exact hsame (tx_setTx_of_ne hx)
    | change y change =>
      by_cases hx : x = y
      · subst hx
        exact .changes tx_updateTx_self
      · exact hsame (tx_setTx_of_ne hx)
    | outside storage journal => exact hsame rfl
    | _ => cases hcaller

theorem spares_perform {k : CoordinatorCall} (hk : ∀ s ∈ k.caller?, x ≠ s) :
    LockTable.Spares x c.locks (c.perform k).locks := by
  cases hcaller : k.caller? with
  | some s => exact (spares_call hcaller (hk s hcaller)).toSpares
  | none =>
    cases k with
    | register level => exact .refl x c.locks
    | change y k => exact .refl x c.locks
    | outside storage journal => exact .refl x c.locks
    | _ => cases hcaller

theorem vigilant_started {clock : Clock} {storage : Storage} {journal : Journal} :
    (started clock storage journal).Vigilant ∅ where
  settled := LockTable.settled_empty
  covered _ _ := nofun
  aware s n w hq := by cases hq.1
  known s n w hq := by cases hq.1
  registered_lt := nofun

theorem Vigilant.run (hv : c.Vigilant awaiting) {calls : List CoordinatorCall}
    (hcalls : c.Patient awaiting calls) : ∃ awaiting', (c.run calls).Vigilant awaiting' := by
  induction calls generalizing c awaiting with
  | nil => exact ⟨awaiting, hv⟩
  | cons k rest ih => exact ih (hv.perform hcalls.1) hcalls.2

theorem Patient.of_append {calls rest : List CoordinatorCall}
    (h : c.Patient awaiting (calls ++ rest)) : c.Patient awaiting calls := by
  induction calls generalizing c awaiting with
  | nil => trivial
  | cons k calls ih => exact ⟨h.1, ih h.2⟩

/-- If those who must wait do nothing but wait, then after every call each session in the queue has
somebody to wait for, and whom the call of another has taken out of the queue has its locks. -/
theorem no_missed_grant (clock : Clock) (storage : Storage) (journal : Journal)
    {calls : List CoordinatorCall} {k : CoordinatorCall}
    (h : (started clock storage journal).Patient ∅ (calls ++ [k])) :
    (∀ s ∈ ((started clock storage journal).run (calls ++ [k])).locks.waitingSessions,
      (((started clock storage journal).run (calls ++ [k])).locks.blockers s).isEmpty = false) ∧
    ∀ s n w, ((started clock storage journal).run calls).locks.Queued s n w → k.caller? ≠ some s →
      ((started clock storage journal).run (calls ++ [k])).locks.Queued s n w ∨
      ((started clock storage journal).run (calls ++ [k])).locks.holdsAll s w.request = true := by
  obtain ⟨_, hafter⟩ := vigilant_started.run h
  obtain ⟨_, hbefore⟩ := vigilant_started.run h.of_append
  constructor
  · intro s hs
    obtain ⟨n, w, hq⟩ := hafter.settled.mem_waitingSessions.mp hs
    obtain ⟨y, hy⟩ := hafter.settled.allBlocked s n w hq
    exact Bool.eq_false_iff.mpr fun hempty => IdSet.isEmpty_iff.mp hempty y hy
  · intro s n w hq hcaller
    have hspares : LockTable.Spares s ((started clock storage journal).run calls).locks
        (((started clock storage journal).run calls).perform k).locks :=
      spares_perform fun x hx hs => hcaller (hs ▸ hx)
    rw [run, List.foldl_append]
    exact hspares.served hbefore.settled.toCoherent n w hq

/-- Session 2 is refused a wait that would close a cycle and rolls back, which grants session 3; in
the end session 4 waits for session 3. -/
theorem no_missed_grant_refused :
    (started .zero .empty .empty).Patient ∅ ([.register .readCommitted, .register .serializable,
      .register .readCommitted, .register .readCommitted, .beginStatement 1 (.write [1]),
      .resumeStatement 1, .beginStatement 2 (.write [2]), .resumeStatement 2,
      .beginStatement 3 (.write [2]), .beginStatement 1 (.read [2]), .beginStatement 4 (.read [2]),
      .beginStatement 2 (.read [1]), .change 4 .raiseAbort] ++ [.rollback 2]) ∧
    (((started .zero .empty .empty).run ([.register .readCommitted, .register .serializable,
      .register .readCommitted, .register .readCommitted, .beginStatement 1 (.write [1]),
      .resumeStatement 1, .beginStatement 2 (.write [2]), .resumeStatement 2,
      .beginStatement 3 (.write [2]), .beginStatement 1 (.read [2]), .beginStatement 4 (.read [2]),
      .beginStatement 2 (.read [1]), .change 4 .raiseAbort] ++ [.rollback 2])).locks.blockers
        4).isEmpty = false := by
  have hcalls : (started .zero .empty .empty).Patient ∅ ([.register .readCommitted,
      .register .serializable, .register .readCommitted, .register .readCommitted,
      .beginStatement 1 (.write [1]), .resumeStatement 1, .beginStatement 2 (.write [2]),
      .resumeStatement 2, .beginStatement 3 (.write [2]), .beginStatement 1 (.read [2]),
      .beginStatement 4 (.read [2]), .beginStatement 2 (.read [1]), .change 4 .raiseAbort] ++
      [.rollback 2]) := by
    decide
  exact ⟨hcalls, (no_missed_grant .zero .empty .empty hcalls).1 4 (by decide)⟩

end Coordinator

end LockingDb
