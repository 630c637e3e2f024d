import LockingDb.Proofs.AcquireLaw
import LockingDb.Proofs.AskingAgain

namespace LockingDb

theorem IdMap.filterMap_keys {α : Type} (m : IdMap α) : m.keys.filterMap m.get? = m.values := by
  unfold keys values
  rw [List.filterMap_map, ← List.filterMap_eq_map]
  exact List.filterMap_congr fun e he => mem_entries.mp he

namespace LockTable

variable {l l' : LockTable} {s x : SessionId} {n m : Nat} {w : Waiter} {r : LockRequest}
  {granted : List SessionId}

/-- Who may still be granted, first come first. -/
def inLine (l : LockTable) (tickets : List Nat) : List SessionId :=
  (tickets.filterMap l.queue.get?).map Waiter.session

theorem inLine_keys : l.inLine l.queue.keys = l.waitingSessions := by
  rw [inLine, IdMap.filterMap_keys, waitingSessions]

theorem Queued.grantNow_queue (hq : l.Queued s n w) :
    (l.grantNow s r).queue = l.queue.erase n := by
  have hsame : (l.grantNow s r).queue = (l.withdraw s).2.queue := congrArg Prod.fst grant_line
  rw [hsame]
  simp [withdraw, hq.1]

/-- A grant takes one ticket out of the queue and leaves the others in their order. -/
theorem Queued.inLine_grantNow (hq : l.Queued s n w) {tickets : List Nat} (hn : n ∉ tickets) :
    (l.grantNow s r).inLine tickets = l.inLine tickets := by
  unfold inLine
  rw [hq.grantNow_queue]
  congr 1
  refine List.filterMap_congr fun m hm => ?_
  have hne : m ≠ n := fun heq => hn (heq ▸ hm)
  rw [IdMap.get?_erase, if_neg hne]

theorem Coherent.sublist_promoteFrom (h : l.Coherent) {tickets : List Nat} (honce : tickets.Nodup) :
    (l.promoteFrom tickets).1.Sublist (l.inLine tickets) := by
  induction tickets generalizing l with
  | nil => exact List.Sublist.slnil
  | cons n rest ih =>
    obtain ⟨hn, hrest⟩ := List.nodup_cons.mp honce
    unfold promoteFrom
    split
    next hnone =>
      have hline : l.inLine (n :: rest) = l.inLine rest := by simp [inLine, hnone]
      rw [hline]
      exact ih h hrest
    next w hw =>
      have hline : l.inLine (n :: rest) = w.session :: l.inLine rest := by simp [inLine, hw]
      rw [hline]
      split
      next hfree =>
        have hafter := h.grantNow (h.grantable_of_isFree hfree)
        have hlater := ih hafter hrest
        rw [(h.queued hw).inLine_grantNow hn] at hlater
        exact hlater.cons_cons w.session
      next => exact (ih h hrest).cons w.session

theorem Coherent.sublist_promote (h : l.Coherent) : l.promote.1.Sublist l.waitingSessions :=
  inLine_keys (l := l) ▸ h.sublist_promoteFrom l.queue.nodup_keys

theorem Untouched.refl (x : SessionId) (l : LockTable) : Untouched x l l :=
  ⟨fun _ => rfl, fun _ _ => Iff.rfl⟩

theorem Untouched.trans {l₂ : LockTable} (h : Untouched x l l') (h₂ : Untouched x l' l₂) :
    Untouched x l l₂ :=
  ⟨fun t => (h₂.1 t).trans (h.1 t), fun n w => (h₂.2 n w).trans (h.2 n w)⟩

theorem Coherent.untouched_grantNow (h : l.Coherent) (hx : x ≠ s) :
    Untouched x l (l.grantNow s r) :=
  ⟨fun _ => mode?_grantNow_of_ne hx,
    fun _ _ => (queued_grantNow h.toQueueAgrees).trans (and_iff_right hx)⟩

/-- Who is passed over has the locks and the place that it had. -/
theorem Promotes.untouched (hp : Promotes l granted l') (h : l.Coherent) (hx : x ∉ granted) :
    Untouched x l l' := by
  induction hp with
  | done => exact .refl x _
  | grant hw hfree _ ih =>
    obtain ⟨hne, hrest⟩ := not_or.mp (List.mem_cons.not.mp hx)
    exact (h.untouched_grantNow hne).trans (ih (h.grantNow (h.grantable_of_isFree hfree)) hrest)

/-- Who is granted has waited, and has all that it waited for and no place in the queue. -/
theorem Promotes.served_whole (hp : Promotes l granted l') (h : l.Coherent) (hx : x ∈ granted) :
    ∃ n w, l.Queued x n w ∧ l'.holdsAll x w.request = true ∧ l'.isWaiting x = false := by
  obtain ⟨hbefore, hafter⟩ := ((hp.granted_once h).2 x).mp hx
  obtain ⟨n, w, hq⟩ := h.isWaiting_iff.mp hbefore
  have hout := (h.promotes hp).isWaiting_eq_false.mp hafter n w
  exact ⟨n, w, hq, (hp.served h hq).resolve_left hout, hafter⟩

/-- Where nobody is free, a walk over the queue changes nothing. -/
theorem Coherent.promoteFrom_of_allBlocked (h : l.Coherent) (hall : l.AllBlocked)
    (tickets : List Nat) : l.promoteFrom tickets = ([], l) := by
  induction tickets with
  | nil => rfl
  | cons n rest ih =>
    unfold promoteFrom
    split
    next => exact ih
    next w hw =>
      have hq := h.queued hw
      rw [if_neg]
      · exact ih
      · rw [h.isFree_iff hq]
        exact not_not.mpr (hall _ n w hq)

/-- A walk over the queue after which nothing is left to do. -/
structure Sweeps (l : LockTable) (granted : List SessionId) (l' : LockTable) : Prop where
  in_order : granted.Sublist l.waitingSessions
  served : ∀ s ∈ granted, ∃ n w, l.Queued s n w ∧ l'.holdsAll s w.request = true ∧
    Keeps s l l' ∧ l'.isWaiting s = false
  passed : ∀ s, s ∉ granted → Untouched s l l'
  blocked : ∀ s ∈ l'.waitingSessions, (l'.blockers s).isEmpty = false
  done : l'.promote = ([], l')

/-- Whatever was asked of the lock table before, one walk over the queue grants all that can be
granted: who is granted gets its whole request, first come first, who is not keeps what it has and
has somebody to wait for, and a second walk does nothing. -/
theorem sweeps_promote (steps : List LockStep) :
    (run steps).Sweeps (run steps).promote.1 (run steps).promote.2 := by
  have h : (run steps).Coherent := coherent_run_steps
  have hp : Promotes (run steps) (run steps).promote.1 (run steps).promote.2 := promote_promotes
  have hafter := h.promotes hp
  refine ⟨h.sublist_promote, fun s hs => ?_, fun s hs => hp.untouched h hs, ?_, ?_⟩
  · obtain ⟨n, w, hq, hall, hout⟩ := hp.served_whole h hs
    exact ⟨n, w, hq, hall, hp.keeps, hout⟩
  · exact hafter.allBlocked_iff.mp h.allBlocked_promote
  · exact hafter.promoteFrom_of_allBlocked h.allBlocked_promote _

end LockTable

end LockingDb
