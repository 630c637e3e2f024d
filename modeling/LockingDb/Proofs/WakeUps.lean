import LockingDb.Proofs.NoMissedGrant
import Mathlib.Logic.Basic

namespace LockingDb

/-- How a wait ends depends on the abort signal and on the latch alone. -/
theorem Signals.settled?_eq_released {g : Signals} :
    g.settled? = some .released ↔ g.abort = false ∧ g.latch = 0 := by
  unfold settled?
  cases habort : g.abort with
  | true => simp
  | false => by_cases hlatch : g.latch = 0 <;> simp [hlatch]

theorem Signals.settled?_eq_cancelled {g : Signals} :
    g.settled? = some .cancelled ↔ g.abort = true := by
  unfold settled?
  cases habort : g.abort with
  | true => simp
  | false => by_cases hlatch : g.latch = 0 <;> simp [hlatch]

theorem LockTable.acquire_of_holdsAll {l : LockTable} {s : SessionId} {r : LockRequest}
    (hall : l.holdsAll s r = true) : (l.acquire s r).1 = .granted := by
  unfold acquire
  rw [if_pos hall]

namespace Coordinator

variable {c c' : Coordinator} {s : SessionId} {r : LockRequest} {awaiting : IdMap LockRequest}

/-- A session that was told to wait is in the queue with its latch set, or it has the locks that it
asked for and its latch is down. -/
structure Awaits (c : Coordinator) (s : SessionId) (r : LockRequest) : Prop where
  registered : s ∈ c.registered
  asks : ∀ n w, c.locks.Queued s n w → w.request = r
  latch : (c.tx s).signals.latch = if c.locks.isWaiting s = true then 1 else 0
  served : c.locks.isWaiting s = false → c.locks.holdsAll s r = true

theorem Awaits.of_same (h : c.Awaits s r) (hlocks : c'.locks = c.locks)
    (hlatch : (c'.tx s).signals.latch = (c.tx s).signals.latch) (hmember : s ∈ c'.registered) :
    c'.Awaits s r := by
  have hwaits : (c'.tx s).signals.latch = if c'.locks.isWaiting s = true then 1 else 0 := by
    rw [hlatch, hlocks]
    exact h.latch
  exact ⟨hmember, hlocks ▸ h.asks, hwaits, hlocks ▸ h.served⟩

/-- Others take a session out of the queue only with all its locks, and then wake it once. -/
theorem Awaits.of_spares (h : c.Awaits s r) (hcoherent : c.locks.Coherent) (hspares : Spares s c c') :
    c'.Awaits s r := by
  have hcoherent' := hspares.coherent hcoherent
  have hwakes := hspares.wakes hcoherent h.registered
  unfold Wakes at hwakes
  have hlatch := h.latch
  have hmember : s ∈ c'.registered := hspares.registered.mpr h.registered
  have hasks (n : Nat) (w : Waiter) (hq : c'.locks.Queued s n w) : w.request = r :=
    h.asks n w (hspares.queued hcoherent n w hq)
  cases hbefore : c.locks.isWaiting s with
  | false =>
    have hafter := hspares.not_waiting hcoherent hbefore
    have hheld : c'.locks.holdsAll s r = true := hspares.keeps.holdsAll (h.served hbefore)
    refine ⟨hmember, hasks, ?_, fun _ => hheld⟩
    rw [hwakes, hlatch, hbefore, hafter]
    rfl
  | true =>
    refine ⟨hmember, hasks, ?_, fun hafter => ?_⟩
    · rw [hwakes, hlatch, hbefore]
      cases c'.locks.isWaiting s <;> rfl
    · obtain ⟨n, w, hq⟩ := hcoherent.isWaiting_iff.mp hbefore
      obtain rfl := h.asks n w hq
      rcases hspares.served hcoherent n w hq with hstill | hall
      · exact absurd hstill (hcoherent'.isWaiting_eq_false.mp hafter n w)
      · exact hall

/-- A session that is told to wait is in the queue. -/
theorem awaits_of_mustWait (hcoherent : c.locks.Coherent) (hmember : s ∈ c.registered)
    (hwait : (c.beginStatement s r).1 = .ok .mustWait) : (c.beginStatement s r).2.Awaits s r := by
  have hb := beginStatement_begins c s r
  rw [hwait] at hb
  generalize (c.beginStatement s r).2 = c' at hb
  cases hb with
  | waits habort hv =>
    obtain ⟨n, w, hq⟩ := LockTable.queued_of_wait hcoherent hv
    have hin : (c.locks.acquire s r).2.isWaiting s = true :=
      hcoherent.acquire.isWaiting_iff.mpr ⟨n, w, hq⟩
    refine ⟨hmember, fun m v hv => (LockTable.queued_acquire hcoherent hv).1, ?_, fun hout => ?_⟩
    · rw [tx_signal_self, signal_locks, hin]
      rfl
    · rw [signal_locks, hin] at hout
      cases hout

theorem StateChange.apply_latch (k : StateChange) (tx : SessionTx) :
    (k.apply tx).signals.latch = tx.signals.latch := by
  cases k with
  | isolation level =>
    unfold StateChange.apply SessionTx.setIsolation
    dsimp only
    split <;> rfl
  | readOnly on =>
    unfold StateChange.apply SessionTx.setReadOnly
    dsimp only
    split <;> rfl
  | _ => rfl

/-- Whatever others do, and whatever is changed in the state of a session, its wait goes on or ends
with all that it asked for. -/
theorem Awaits.perform (h : c.Awaits s r) (hv : c.Vigilant awaiting) {k : CoordinatorCall}
    (hk : k.caller? ≠ some s) : (c.perform k).Awaits s r := by
  cases hcaller : k.caller? with
  | some y =>
    have hne : s ≠ y := fun hs => hk (hs ▸ hcaller)
    exact h.of_spares hv.settled.toCoherent (spares_call hcaller hne)
  | none =>
    cases k with
    | register level =>
      have hlt := hv.registered_lt s h.registered
      have htx : (c.register level).2.tx s = c.tx s := tx_setTx_of_ne (Nat.ne_of_lt hlt)
      have hmember : s ∈ (c.register level).2.registered :=
        IdSet.mem_insert.mpr (Or.inr h.registered)
      exact h.of_same rfl (congrArg (fun tx => tx.signals.latch) htx) hmember
    | change y change =>
      refine h.of_same rfl ?_ h.registered
      show ((c.updateTx y change.apply).tx s).signals.latch = (c.tx s).signals.latch
      by_cases hs : s = y
      · subst hs
        rw [tx_updateTx_self]
        exact StateChange.apply_latch change (c.tx s)
      · exact congrArg (fun tx => tx.signals.latch) (tx_setTx_of_ne hs)
    | outside storage journal => exact h.of_same rfl rfl h.registered
    | _ => cases hcaller

theorem Awaits.run (h : c.Awaits s r) (hv : c.Vigilant awaiting) {calls : List CoordinatorCall}
    (hcalls : c.Patient awaiting calls) (hothers : ∀ k ∈ calls, k.caller? ≠ some s) :
    (c.run calls).Awaits s r := by
  induction calls generalizing c awaiting with
  | nil => exact h
  | cons k rest ih =>
    have hnext := h.perform hv (hothers k List.mem_cons_self)
    exact ih hnext (hv.perform hcalls.1) hcalls.2 fun j hj => hothers j (List.mem_cons_of_mem k hj)

/-- A session that has all locks of a request is told to go on with it. -/
theorem proceeds_of_holdsAll (hall : c.locks.holdsAll s r = true)
    (habort : c.abortRequested s = false) : (c.beginStatement s r).1 = .ok .proceed := by
  have hgranted := LockTable.acquire_of_holdsAll hall
  have hb := beginStatement_begins c s r
  generalize (c.beginStatement s r).1 = answer, (c.beginStatement s r).2 = c' at hb
  cases hb with
  | aborted ha =>
    rw [habort] at ha
    cases ha
  | again ha hg => rfl
  | granted ha hv => rfl
  | waits ha hv =>
    rw [hgranted] at hv
    cases hv
  | refused ha hv =>
    rw [hgranted] at hv
    cases hv

theorem Vigilant.run_append (hv : c.Vigilant awaiting) {before rest : List CoordinatorCall}
    (hcalls : c.Patient awaiting (before ++ rest)) :
    ∃ awaiting', (c.run before).Vigilant awaiting' ∧ (c.run before).Patient awaiting' rest := by
  induction before generalizing c awaiting with
  | nil => exact ⟨awaiting, hv, hcalls⟩
  | cons k before ih => exact ih (hv.perform hcalls.1) hcalls.2

theorem Awaits.xor (h : c.Awaits s r) (hcoherent : c.locks.Coherent) :
    Xor (∃ n w, c.locks.Queued s n w ∧ w.request = r ∧ (c.tx s).signals.latch = 1)
      ((∀ n w, ¬c.locks.Queued s n w) ∧ (c.tx s).signals.latch = 0 ∧
        c.locks.holdsAll s r = true) := by
  have hlatch := h.latch
  cases hwaits : c.locks.isWaiting s with
  | true =>
    obtain ⟨n, w, hq⟩ := hcoherent.isWaiting_iff.mp hwaits
    rw [hwaits] at hlatch
    exact Or.inl ⟨⟨n, w, hq, h.asks n w hq, hlatch⟩, fun ⟨hout, _⟩ => hout n w hq⟩
  | false =>
    have hout := hcoherent.isWaiting_eq_false.mp hwaits
    rw [hwaits] at hlatch
    exact Or.inr ⟨⟨hout, hlatch, h.served hwaits⟩, fun ⟨n, w, hq, _⟩ => hout n w hq⟩

/-- The latch is down as soon as the session has all its locks, and not before. -/
theorem Awaits.latch_eq_zero (h : c.Awaits s r) (hcoherent : c.locks.Coherent) :
    (c.tx s).signals.latch = 0 ↔ c.locks.holdsAll s r = true := by
  have hlatch := h.latch
  cases hwaits : c.locks.isWaiting s with
  | true =>
    obtain ⟨n, w, hq⟩ := hcoherent.isWaiting_iff.mp hwaits
    obtain rfl := h.asks n w hq
    have hmore := hcoherent.unserved s n w hq
    simp [hlatch, hwaits, hmore]
  | false => simp [hlatch, hwaits, h.served hwaits]

/-- From the moment when a session is told to wait to its own next call it is in the queue with its
latch set, or out of it with its latch down and all its locks, and not both. So its wait ends by a
release when it has all its locks, and then it may go on, unless it was told to give up. -/
theorem wait_ends_with_grant (clock : Clock) (storage : Storage) (journal : Journal)
    {before during : List CoordinatorCall}
    (hpatient : (started clock storage journal).Patient ∅ (before ++ .beginStatement s r :: during))
    (hwait : (((started clock storage journal).run before).beginStatement s r).1 = .ok .mustWait)
    (hothers : ∀ k ∈ during, k.caller? ≠ some s)
    (hc : c = (started clock storage journal).run (before ++ .beginStatement s r :: during)) :
    Xor (∃ n w, c.locks.Queued s n w ∧ w.request = r ∧ (c.tx s).signals.latch = 1)
      ((∀ n w, ¬c.locks.Queued s n w) ∧ (c.tx s).signals.latch = 0 ∧
        c.locks.holdsAll s r = true) ∧
    ((c.tx s).signals.settled? = some .released ↔
      c.abortRequested s = false ∧ c.locks.holdsAll s r = true) ∧
    ((c.tx s).signals.settled? = some .cancelled ↔ c.abortRequested s = true) ∧
    (c.locks.holdsAll s r = true → c.abortRequested s = false →
      (c.beginStatement s r).1 = .ok .proceed) := by
  obtain ⟨awaiting, hv, hadmits, hrest⟩ := vigilant_started.run_append hpatient
  obtain ⟨hmember, -⟩ := hadmits s rfl
  have hstart := awaits_of_mustWait hv.settled.toCoherent hmember hwait
  have hafter := hv.perform hadmits
  have hend := Awaits.run hstart hafter hrest hothers
  obtain ⟨_, hlast⟩ := hafter.run hrest
  have hrun : c = (((started clock storage journal).run before).perform
      (.beginStatement s r)).run during := by
    rw [hc, run, List.foldl_append]
    rfl
  have hawaits : c.Awaits s r := hrun ▸ hend
  have hcoherent : c.locks.Coherent := hrun ▸ hlast.settled.toCoherent
  refine ⟨hawaits.xor hcoherent, ?_, Signals.settled?_eq_cancelled, proceeds_of_holdsAll⟩
  rw [Signals.settled?_eq_released, hawaits.latch_eq_zero hcoherent]
  rfl

/-- Session 2 waits behind the writer, session 1, and behind session 3, which has asked to write
before. Session 3 gives up its place and session 1 commits. -/
theorem wait_ends_with_grant_committed :
    (started .zero .empty .empty).Patient ∅ ([.register .readCommitted, .register .serializable,
      .register .readCommitted, .beginStatement 1 (.write [1]), .resumeStatement 1,
      .beginStatement 3 (.write [1])] ++ .beginStatement 2 (.read [1]) ::
      [.cancelWait 3, .commit 1]) ∧
    ((((started .zero .empty .empty).run ([.register .readCommitted, .register .serializable,
      .register .readCommitted, .beginStatement 1 (.write [1]), .resumeStatement 1,
      .beginStatement 3 (.write [1])] ++ .beginStatement 2 (.read [1]) ::
      [.cancelWait 3, .commit 1])).tx 2).signals.settled? = some .released) := by
  have hpatient : (started .zero .empty .empty).Patient ∅ ([.register .readCommitted,
      .register .serializable, .register .readCommitted, .beginStatement 1 (.write [1]),
      .resumeStatement 1, .beginStatement 3 (.write [1])] ++ .beginStatement 2 (.read [1]) ::
      [.cancelWait 3, .commit 1]) := by
    decide
  obtain ⟨-, hreleased, -⟩ := wait_ends_with_grant .zero .empty .empty hpatient (by decide)
    (by decide) rfl
  exact ⟨hpatient, hreleased.mpr (by decide)⟩

end Coordinator

end LockingDb
