import LockingDb.Proofs.LockCoherence

namespace LockingDb

namespace LockTable

variable {l l' : LockTable} {s x : SessionId} {t : TableId} {r : LockRequest} {b : Bool}
  {m : LockMode} {locks : IdMap LockMode} {tables : List TableId} {granted : List SessionId}

/-- Each session listed among the holders has a lock. -/
def Entered (l : LockTable) : Prop := ∀ s locks, l.held.get? s = some locks → locks.isEmpty = false

theorem Entered.of_held (h : l.Entered) (hheld : l'.held = l.held) : l'.Entered := by
  intro s locks hs
  rw [hheld] at hs
  exact h s locks hs

theorem Entered.erase (h : l.Entered) : ({ l with held := l.held.erase s } : LockTable).Entered := by
  intro x locks hx
  simp only [IdMap.get?_erase] at hx
  split at hx
  next => cases hx
  next => exact h x locks hx

theorem Entered.insert (h : l.Entered) (hsome : locks.isEmpty = false) :
    ({ l with held := l.held.insert s locks } : LockTable).Entered := by
  intro x entry hx
  simp only [IdMap.get?_insert] at hx
  split at hx
  next =>
    cases hx
    exact hsome
  next => exact h x entry hx

theorem withdraw_held : (l.withdraw s).2.held = l.held := by
  unfold withdraw
  split <;> rfl

theorem enqueue_held : (l.enqueue s r b).held = l.held := by
  unfold enqueue
  split <;> rfl

theorem setMode_held_of_ne (hx : x ≠ s) : (l.setMode s t m).held.get? x = l.held.get? x := by
  simp [setMode, IdMap.get?_insert, hx]

theorem grantWrite_held_of_ne (hx : x ≠ s) : (l.grantWrite s t).held.get? x = l.held.get? x := by
  unfold grantWrite
  rw [setMode_held_of_ne hx, dropReader_held]

theorem grantRead_held_of_ne (hx : x ≠ s) : (l.grantRead s t).held.get? x = l.held.get? x := by
  unfold grantRead
  split
  next => rfl
  next => exact setMode_held_of_ne hx

theorem grant_held_of_ne (hx : x ≠ s) : (l.grant s r).held.get? x = l.held.get? x := by
  let Same := fun l' : LockTable => l'.held.get? x = l.held.get? x
  have hwrites : Same (r.writes.toList.foldl (fun l t => l.grantWrite s t)
      { l with held := l.held.insert s (l.locksOf s) }) := by
    refine List.foldlRecOn (motive := Same) _ _ ?_ fun l' hl' t _ => ?_
    · simp [Same, IdMap.get?_insert, hx]
    · exact (grantWrite_held_of_ne hx).trans hl'
  exact List.foldlRecOn (motive := Same) _ _ hwrites fun l' hl' t _ =>
    (grantRead_held_of_ne hx).trans hl'

/-- Who does not have all locks of a request gets one when the request is granted. -/
theorem some_mode?_grantNow (hmore : l.holdsAll s r = false) :
    ∃ t, ((l.grantNow s r).mode? s t).isSome = true := by
  have hafter : (l.grantNow s r).holdsAll s r = true := holdsAll_grant
  obtain ⟨hwrites, hreads⟩ := holdsAll_iff.mp hafter
  apply not_not.mp
  intro hnone
  have hall : l.holdsAll s r = true := by
    refine holdsAll_iff.mpr ⟨fun t ht => ?_, fun t ht => ?_⟩
    · exact absurd ⟨t, Option.isSome_of_eq_some (hwrites t ht)⟩ hnone
    · exact absurd ⟨t, hreads t ht⟩ hnone
  rw [hall] at hmore
  cases hmore

theorem Entered.grantNow (h : l.Entered) (hmore : l.holdsAll s r = false) :
    (l.grantNow s r).Entered := by
  intro x locks hx
  by_cases hxs : x = s
  · subst hxs
    obtain ⟨t, ht⟩ := some_mode?_grantNow hmore
    refine Bool.eq_false_iff.mpr fun hempty => ?_
    rw [mode?_def, hx, Option.bind_some, IdMap.isEmpty_iff.mp hempty t] at ht
    cases ht
  · rw [LockTable.grantNow, grant_held_of_ne hxs, withdraw_held] at hx
    exact h x locks hx

theorem Entered.acquire (h : l.Entered) : (l.acquire s r).2.Entered := by
  have hout := acquire_acquires l s r
  generalize (l.acquire s r).1 = verdict, (l.acquire s r).2 = after at hout
  cases hout with
  | held hall => exact h.of_held withdraw_held
  | free hmore hfree hpass => exact h.grantNow hmore
  | behind hmore hbusy hsafe => exact h.of_held enqueue_held
  | barging hmore hbusy hpass hsafe => exact h.of_held enqueue_held
  | refused hmore hpass hcycle => exact h.of_held withdraw_held

theorem Entered.releaseAll (h : l.Entered) : (l.releaseAll s).2.Entered := by
  unfold LockTable.releaseAll
  split
  next => exact h
  next locks _ => exact h.erase.of_held (foldl_unlock_held locks.entries)

theorem Entered.releaseShared (h : l.Entered) : (l.releaseShared s tables).2.Entered := by
  unfold LockTable.releaseShared
  dsimp only
  refine Entered.of_held ?_ (foldl_dropReader_held _)
  split
  next => exact h
  next =>
    split
    next => exact h.erase
    next hleft => exact h.insert (Bool.eq_false_iff.mpr hleft)

-- The request of a waiter is not empty, since the waiter does not have all its locks.
theorem Entered.promotes (hp : Promotes l granted l') (hc : l.Coherent) (h : l.Entered) :
    l'.Entered := by
  induction hp with
  | done => exact h
  | grant hw hfree _ ih =>
    have hmore := hc.unserved _ _ _ (hc.queued hw)
    exact ih (hc.grantNow (hc.grantable_of_isFree hfree)) (h.grantNow hmore)

theorem Entered.perform (h : l.Entered) (hc : l.Coherent) (k : LockStep) : (l.perform k).Entered := by
  cases k with
  | acquire s r => exact h.acquire
  | withdraw s => exact h.of_held withdraw_held
  | releaseAll s => exact h.releaseAll
  | releaseShared s tables => exact h.releaseShared
  | promote => exact Entered.promotes promote_promotes hc h

theorem entered_run (steps : List LockStep) : (run steps).Entered := by
  have hboth : (run steps).Coherent ∧ (run steps).Entered := by
    unfold run
    refine List.foldlRecOn (motive := fun l : LockTable => l.Coherent ∧ l.Entered) _ _
      ⟨coherent_empty, nofun⟩ ?_
    rintro l ⟨hc, h⟩ k -
    exact ⟨hc.perform k, h.perform hc k⟩
  exact hboth.2

theorem Entered.not_mem_held_keys (h : l.Entered) :
    s ∉ l.held.keys ↔ ∀ t, l.mode? s t = none := by
  rw [IdMap.mem_keys, Option.not_isSome_iff_eq_none]
  constructor
  · intro hs t
    rw [mode?_def, hs]
    rfl
  · intro hnone
    cases hs : l.held.get? s with
    | none => rfl
    | some locks =>
      have hempty : locks.isEmpty = true := by
        apply IdMap.isEmpty_iff.mpr
        intro t
        have ht := hnone t
        rwa [mode?_def, hs] at ht
      rw [h s locks hs] at hempty
      cases hempty

/-- The check for idleness is exact: it passes if no other session has a lock or waits for one. -/
theorem Entered.isIdleExcept_iff (h : l.Entered) (hq : l.QueueAgrees) : l.isIdleExcept s = true ↔
    ∀ x, x ≠ s → (∀ t, l.mode? x t = none) ∧ l.isWaiting x = false := by
  have hwaiting : (∀ w ∈ l.queue.values, w.session = s) ↔ ∀ x ∈ l.waitingSessions, x = s := by
    simp [waitingSessions]
  simp only [isIdleExcept, Bool.and_eq_true, List.all_eq_true, beq_iff_eq]
  rw [hwaiting, ← forall_and]
  refine forall_congr' fun x => ?_
  rw [← h.not_mem_held_keys, ← Bool.not_eq_true, hq.isWaiting_iff, ← hq.mem_waitingSessions, imp_and]
  exact and_congr not_imp_not.symm not_imp_not.symm

end LockTable

end LockingDb
