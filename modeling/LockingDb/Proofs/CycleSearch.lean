import LockingDb.Proofs.WaitGraph

namespace LockingDb

namespace LockTable

open Relation

variable {l : LockTable} {s : SessionId} {q : WaitSearch} {n : Nat} {behind : List SessionId}

/-- A number of looks of a search, one after another. There is none after the answer. -/
def looks (l : LockTable) (s : SessionId) : Nat → WaitSearch → Bool ⊕ WaitSearch
  | 0, q => .inr q
  | n + 1, q =>
    match l.look s q with
    | .inl answer => .inl answer
    | .inr next => l.looks s n next

/-- As many looks as are left, and one more, end a search. -/
theorem looks_of_left (h : l.looksLeft q < n) : l.looks s n q = .inl (l.search s q) := by
  induction n generalizing q with
  | zero => exact absurd h (Nat.not_lt_zero _)
  | succ n ih =>
    unfold looks
    cases hlook : l.look s q with
    | inl answer => rw [search_of_answer hlook]
    | inr next =>
      have hleft := looksLeft_look hlook
      rw [search_of_next hlook]
      exact ih (by omega)

/-- The search for a cycle ends, whatever waits for what: after at most one look for each session to
wait behind, one for each wait-for edge, and a last one. It answers that a cycle would be closed
exactly if the session is to wait behind itself or behind somebody who waits for it, directly or
through others. -/
theorem cycle_search_exact (l : LockTable) (s : SessionId) (behind : List SessionId) :
    l.looks s (behind.length + l.edgesLeft ∅ + 1) ⟨∅, behind.reverse⟩ =
        .inl (l.closesCycle s behind) ∧
      (l.closesCycle s behind = true ↔ s ∈ behind ∨ ∃ x ∈ behind, TransGen l.Waits x s) ∧
      l.wouldDeadlock s (.ofList behind) = l.closesCycle s behind := by
  refine ⟨looks_of_left ?_, closesCycle_iff_awaited, ?_⟩
  · simp [looksLeft]
  · rw [Bool.eq_iff_iff, wouldDeadlock_iff_reaches, closesCycle_iff]
    simp only [IdSet.mem_ofList]

/-- Sessions 1 and 2 wait for each other, and a search for a third one ends. -/
example :
    let l := (run [.acquire 1 (.write [1]), .acquire 2 (.write [2]),
      .acquire 1 (.write [2])]).enqueue 2 (.write [1]) false
    l.closesCycle 1 [2] = true ∧ l.closesCycle 3 [1, 2, 1] = false := by decide

end LockTable

end LockingDb
