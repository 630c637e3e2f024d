import LockingDb.Proofs.LockCoherence
import Mathlib.Logic.Relation

namespace LockingDb

namespace LockTable

open Relation

variable {l l' : LockTable} {s x y : SessionId} {n : Nat} {w : Waiter} {r : LockRequest}
  {behind : IdSet} {q next : WaitSearch}

def Waits (l : LockTable) (x y : SessionId) : Prop := y ∈ l.blockers x

/-- The session waits with a conflicting request, in front of a ticket if one is given. -/
def WaitsAhead (l : LockTable) (y : SessionId) (r : LockRequest) (before : Option Nat) : Prop :=
  ∃ n w, l.Queued y n w ∧ before.all (n < ·) = true ∧ w.request.conflictsWith r = true

theorem QueueAgrees.mem_queuedAhead (h : l.QueueAgrees) {before : Option Nat} :
    y ∈ l.queuedAhead s r before ↔ y ≠ s ∧ l.WaitsAhead y r before := by
  simp only [queuedAhead, IdSet.mem_ofList, List.mem_map, List.mem_filter, Bool.and_eq_true,
    bne_iff_ne, Prod.exists, IdMap.mem_entries]
  constructor
  · rintro ⟨n, w, ⟨hw, ⟨hbefore, hne⟩, hconflict⟩, rfl⟩
    exact ⟨hne, n, w, h.queued hw, hbefore, hconflict⟩
  · rintro ⟨hne, n, w, hq, hbefore, hconflict⟩
    have hs := h.session hq
    exact ⟨n, w, ⟨hq.2, ⟨hbefore, hs.symm ▸ hne⟩, hconflict⟩, hs⟩

/-- A session waits for those whose locks are in its way, and for those in front of it unless it
may pass them. -/
theorem Coherent.waits_iff (h : l.Coherent) :
    l.Waits x y ↔ y ≠ x ∧ ∃ n w, l.Queued x n w ∧
      (l.Bars y w.request ∨ (w.barging = false ∧ l.WaitsAhead y w.request (some n))) := by
  constructor
  · intro hy
    unfold Waits blockers at hy
    split at hy
    next => exact absurd hy IdSet.not_mem_empty
    next n hn =>
      split at hy
      next => exact absurd hy IdSet.not_mem_empty
      next w hw =>
        dsimp only at hy
        split at hy
        next =>
          obtain ⟨hne, hbars⟩ := h.mem_conflictingHolders.mp hy
          exact ⟨hne, n, w, ⟨hn, hw⟩, Or.inl hbars⟩
        next hb =>
          rcases IdSet.mem_union.mp hy with hy | hy
          · obtain ⟨hne, hbars⟩ := h.mem_conflictingHolders.mp hy
            exact ⟨hne, n, w, ⟨hn, hw⟩, Or.inl hbars⟩
          · obtain ⟨hne, hahead⟩ := h.mem_queuedAhead.mp hy
            exact ⟨hne, n, w, ⟨hn, hw⟩, Or.inr ⟨Bool.eq_false_iff.mpr hb, hahead⟩⟩
  · rintro ⟨hne, n, w, ⟨hn, hw⟩, hcause⟩
    unfold Waits blockers
    simp only [hn, hw]
    rcases hcause with hbars | ⟨hb, hahead⟩
    · have hy := h.mem_conflictingHolders.mpr ⟨hne, hbars⟩
      split
      · exact hy
      · exact IdSet.mem_union.mpr (Or.inl hy)
    · rw [hb]
      exact IdSet.mem_union.mpr (Or.inr (h.mem_queuedAhead.mpr ⟨hne, hahead⟩))

theorem Waits.ticketed (h : l.Waits x y) : (l.ticket.get? x).isSome = true := by
  unfold Waits blockers at h
  split at h
  next => exact absurd h IdSet.not_mem_empty
  next n hn => simp [hn]

/-- Who is waited for by a session that has been looked at has been looked at too, or will be. -/
def Explored (l : LockTable) (q : WaitSearch) : Prop :=
  ∀ x ∈ q.visited, ∀ y, l.Waits x y → y ∈ q.visited ∨ y ∈ q.stack

theorem mem_blockers_reverse_append {rest : List SessionId} :
    y ∈ (l.blockers x).toList.reverse ++ rest ↔ l.Waits x y ∨ y ∈ rest := by
  rw [List.mem_append, List.mem_reverse, IdSet.mem_toList, Waits]

/-- A way from a session that has been looked at to one that has not goes over the stack. -/
theorem Explored.leaves (h : l.Explored q) (hs : ¬s ∈ q.visited) (hx : x ∈ q.visited)
    (hpath : ReflTransGen l.Waits x s) :
    ∃ y ∈ q.stack, ¬y ∈ q.visited ∧ ReflTransGen l.Waits y s := by
  induction hpath using ReflTransGen.head_induction_on with
  | refl => exact absurd hx hs
  | @head x z hxz hzs ih =>
    by_cases hz : z ∈ q.visited
    · exact ih hz
    · exact ⟨z, (h x hx z hxz).resolve_left hz, hz, hzs⟩

theorem look_answers {answer : Bool} (h : l.look s q = .inl answer) :
    answer = true ↔ ∃ x ∈ q.stack, ReflTransGen l.Waits x s := by
  unfold look at h
  split at h
  next hstack =>
    cases h
    simp [hstack]
  next x rest hstack =>
    split at h
    next hs =>
      cases h
      exact iff_of_true rfl ⟨x, hstack ▸ List.mem_cons_self, hs ▸ .refl⟩
    next => split at h <;> cases h

theorem Explored.look (h : l.Explored q) (hnext : l.look s q = .inr next) : l.Explored next := by
  obtain ⟨x, rest, hstack, -, ⟨hx, rfl⟩ | ⟨-, rfl⟩⟩ := look_goes_on hnext
  · intro u hu y huy
    rcases h u hu y huy with hy | hy
    · exact .inl hy
    · rcases List.mem_cons.mp (hstack ▸ hy) with rfl | hrest
      · exact .inl hx
      · exact .inr hrest
  · intro u hu y huy
    rcases IdSet.mem_insert.mp hu with rfl | hu
    · exact .inr (mem_blockers_reverse_append.mpr (.inl huy))
    · rcases h u hu y huy with hy | hy
      · exact .inl (IdSet.mem_insert.mpr (.inr hy))
      · rcases List.mem_cons.mp (hstack ▸ hy) with rfl | hrest
        · exact .inl (IdSet.mem_insert.mpr (.inl rfl))
        · exact .inr (mem_blockers_reverse_append.mpr (.inr hrest))

theorem look_not_visited (hs : ¬s ∈ q.visited) (hnext : l.look s q = .inr next) :
    ¬s ∈ next.visited := by
  obtain ⟨x, rest, -, hxs, ⟨-, rfl⟩ | ⟨-, rfl⟩⟩ := look_goes_on hnext
  · exact hs
  · intro hin
    rcases IdSet.mem_insert.mp hin with rfl | hin
    · exact hxs rfl
    · exact hs hin

/-- A look that finds no answer leaves a way to the session from the stack if there was one. A session
that has been looked at may be passed over: the ways from it go over the rest of the stack. -/
theorem Explored.look_reaches (h : l.Explored q) (hs : ¬s ∈ q.visited)
    (hnext : l.look s q = .inr next) :
    (∃ x ∈ next.stack, ReflTransGen l.Waits x s) ↔ ∃ x ∈ q.stack, ReflTransGen l.Waits x s := by
  obtain ⟨x, rest, hstack, hxs, ⟨hx, rfl⟩ | ⟨-, rfl⟩⟩ := look_goes_on hnext
  · constructor
    · rintro ⟨y, hy, hpath⟩
      exact ⟨y, hstack ▸ List.mem_cons_of_mem x hy, hpath⟩
    · rintro ⟨y, hy, hpath⟩
      rcases List.mem_cons.mp (hstack ▸ hy) with rfl | hrest
      · obtain ⟨z, hz, hzv, hzs⟩ := h.leaves hs hx hpath
        rcases List.mem_cons.mp (hstack ▸ hz) with rfl | hrest
        · exact absurd hx hzv
        · exact ⟨z, hrest, hzs⟩
      · exact ⟨y, hrest, hpath⟩
  · simp only [mem_blockers_reverse_append, hstack, List.mem_cons]
    constructor
    · rintro ⟨y, hxy | hrest, hpath⟩
      · exact ⟨x, .inl rfl, .head hxy hpath⟩
      · exact ⟨y, .inr hrest, hpath⟩
    · rintro ⟨y, rfl | hrest, hpath⟩
      · obtain rfl | ⟨z, hyz, hzs⟩ := hpath.cases_head
        · exact absurd rfl hxs
        · exact ⟨z, .inl hyz, hzs⟩
      · exact ⟨y, .inr hrest, hpath⟩

/-- The induction is on the looks that are left: each one keeps what is explored, and the ways from the
stack to the session, until the answer tells whether there is one. -/
theorem Explored.search_iff (h : l.Explored q) (hs : ¬s ∈ q.visited) :
    l.search s q = true ↔ ∃ x ∈ q.stack, ReflTransGen l.Waits x s := by
  induction q using search.induct l s with
  | case1 q answer hanswer =>
    rw [search_of_answer hanswer]
    exact look_answers hanswer
  | case2 q next hnext _ ih =>
    rw [search_of_next hnext, ih (h.look hnext) (look_not_visited hs hnext)]
    exact h.look_reaches hs hnext

theorem closesCycle_iff {behind : List SessionId} :
    l.closesCycle s behind = true ↔ ∃ x ∈ behind, ReflTransGen l.Waits x s := by
  have hstart : l.Explored ⟨∅, behind.reverse⟩ := fun x hx => absurd hx IdSet.not_mem_empty
  rw [closesCycle, hstart.search_iff IdSet.not_mem_empty]
  simp only [List.mem_reverse]

theorem closesCycle_iff_awaited {behind : List SessionId} :
    l.closesCycle s behind = true ↔ s ∈ behind ∨ ∃ x ∈ behind, TransGen l.Waits x s := by
  simp only [closesCycle_iff, reflTransGen_iff_eq_or_transGen, and_or_left, exists_or]
  refine or_congr_left ⟨?_, fun hs => ⟨s, hs, rfl⟩⟩
  rintro ⟨x, hx, rfl⟩
  exact hx

/-- The search finds a way to the session if and only if there is one. -/
theorem wouldDeadlock_iff_reaches :
    l.wouldDeadlock s behind = true ↔ ∃ x ∈ behind, ReflTransGen l.Waits x s :=
  closesCycle_iff

end LockTable

end LockingDb
