import LockingDb.LockTable

namespace LockingDb

/-- A search along the wait-for edges: the sessions looked at so far, and those still to be looked
at, the next one first. -/
structure WaitSearch where
  visited : IdSet
  stack : List SessionId
  deriving DecidableEq

namespace LockTable

/-- The sessions that a queued session waits for, as holders and queue are now. -/
def blockers (l : LockTable) (s : SessionId) : IdSet :=
  match l.ticket.get? s with
  | none => ∅
  | some n =>
    match l.queue.get? n with
    | none => ∅
    | some w =>
      let holders := l.conflictingHolders s w.request
      if w.barging then holders else holders ∪ l.queuedAhead s w.request (some n)

/-- One look of a search for a session: the answer, or how the search goes on. A session met for the
first time leads to those that it waits for, the last of them to be looked at next. -/
def look (l : LockTable) (s : SessionId) (q : WaitSearch) : Bool ⊕ WaitSearch :=
  match q.stack with
  | [] => .inl false
  | x :: rest =>
    if x = s then .inl true
    else if x ∈ q.visited then .inr ⟨q.visited, rest⟩
    else .inr ⟨q.visited.insert x, (l.blockers x).toList.reverse ++ rest⟩

/-- The number of wait-for edges out of sessions not looked at yet. Only sessions with a ticket
wait. -/
def edgesLeft (l : LockTable) (visited : IdSet) : Nat :=
  (l.ticket.keys.flatMap fun x => if x ∈ visited then [] else (l.blockers x).toList).length

/-- The looks that a search can take before it ends: an edge puts one session on the stack, and it
does so once. -/
def looksLeft (l : LockTable) (q : WaitSearch) : Nat := q.stack.length + l.edgesLeft q.visited

theorem length_flatMap_insert {x : Nat} {visited : IdSet} {f : Nat → List Nat} {ks : List Nat}
    (hks : ks.Nodup) (hx : ¬x ∈ visited) :
    (ks.flatMap fun k => if k ∈ visited.insert x then [] else f k).length +
        (if x ∈ ks then (f x).length else 0) =
      (ks.flatMap fun k => if k ∈ visited then [] else f k).length := by
  induction ks with
  | nil => rfl
  | cons k rest ih =>
    obtain ⟨hk, hrest⟩ := List.nodup_cons.mp hks
    have hih := ih hrest
    simp only [List.flatMap_cons, List.length_append, List.mem_cons, IdSet.mem_insert] at hih ⊢
    by_cases hkx : k = x
    · subst hkx
      simp only [hk, hx, true_or, if_true, if_false, List.length_nil] at hih ⊢
      omega
    · simp only [hkx, Ne.symm hkx, false_or] at hih ⊢
      omega

theorem blockers_of_no_ticket {l : LockTable} {x : SessionId} (h : l.ticket.get? x = none) :
    l.blockers x = ∅ := by
  simp [blockers, h]

theorem edgesLeft_insert {l : LockTable} {x : SessionId} {visited : IdSet} (hx : ¬x ∈ visited) :
    l.edgesLeft (visited.insert x) + (l.blockers x).toList.length = l.edgesLeft visited := by
  have hsum := length_flatMap_insert (f := fun k => (l.blockers k).toList) l.ticket.nodup_keys hx
  have hedges : (if x ∈ l.ticket.keys then (l.blockers x).toList.length else 0) =
      (l.blockers x).toList.length := by
    split
    next => rfl
    next hno =>
      have hticket : l.ticket.get? x = none := by simpa [IdMap.mem_keys] using hno
      rw [blockers_of_no_ticket hticket]
      rfl
  rw [hedges] at hsum
  exact hsum

theorem look_goes_on {l : LockTable} {s : SessionId} {q next : WaitSearch}
    (h : l.look s q = .inr next) : ∃ x rest, q.stack = x :: rest ∧ x ≠ s ∧
      (x ∈ q.visited ∧ next = ⟨q.visited, rest⟩ ∨
        ¬x ∈ q.visited ∧ next = ⟨q.visited.insert x, (l.blockers x).toList.reverse ++ rest⟩) := by
  unfold look at h
  split at h
  next => cases h
  next x rest hstack =>
    split at h
    next => cases h
    next hs =>
      split at h
      next hx =>
        cases h
        exact ⟨x, rest, hstack, hs, .inl ⟨hx, rfl⟩⟩
      next hx =>
        cases h
        exact ⟨x, rest, hstack, hs, .inr ⟨hx, rfl⟩⟩

theorem looksLeft_look {l : LockTable} {s : SessionId} {q next : WaitSearch}
    (h : l.look s q = .inr next) : l.looksLeft next + 1 = l.looksLeft q := by
  obtain ⟨x, rest, hstack, -, ⟨-, rfl⟩ | ⟨hx, rfl⟩⟩ := look_goes_on h
  · simp only [looksLeft, hstack, List.length_cons]
    omega
  · have hedges := l.edgesLeft_insert hx
    simp only [looksLeft, hstack, List.length_cons, List.length_append, List.length_reverse]
    omega

/-- Looks until there is an answer: a way along the wait-for edges leads to the session. -/
@[semireducible] def search (l : LockTable) (s : SessionId) (q : WaitSearch) : Bool :=
  match h : l.look s q with
  | .inl answer => answer
  | .inr next =>
    have := looksLeft_look h
    l.search s next
termination_by l.looksLeft q

theorem search_of_answer {l : LockTable} {s : SessionId} {q : WaitSearch} {answer : Bool}
    (h : l.look s q = .inl answer) : l.search s q = answer := by
  rw [search]
  split
  next hfound => exact Sum.inl.inj (hfound.symm.trans h)
  next hnext => cases hnext.symm.trans h

theorem search_of_next {l : LockTable} {s : SessionId} {q next : WaitSearch}
    (h : l.look s q = .inr next) : l.search s q = l.search s next := by
  rw [search]
  split
  next hfound => cases hfound.symm.trans h
  next hnext =>
    cases hnext.symm.trans h
    rfl

/-- Waiting behind the given sessions would close a cycle. -/
def closesCycle (l : LockTable) (s : SessionId) (behind : List SessionId) : Bool :=
  l.search s ⟨∅, behind.reverse⟩

def wouldDeadlock (l : LockTable) (s : SessionId) (behind : IdSet) : Bool :=
  l.closesCycle s behind.toList

end LockTable

end LockingDb
