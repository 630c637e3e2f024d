import LockingDb.Clock
import LockingDb.Failure

namespace LockingDb

/-- What one coordinator leaves to the next: the clock, and when the transactions began that are
still open. -/
structure Handover where
  time : Timestamp
  live : List Timestamp
  deriving DecidableEq, Inhabited

namespace Handover

/-- No open transaction began after the time of the clock. -/
def validate (h : Handover) : Except Failure Unit :=
  match h.live.find? (h.time < ·) with
  | none => .ok ()
  | some t =>
    .error (.internal ("transaction timestamp " ++ toString t ++
      " is ahead of the clock at " ++ toString h.time))

theorem validate_eq_ok {h : Handover} : h.validate = .ok () ↔ ∀ t ∈ h.live, t ≤ h.time := by
  unfold validate
  split
  next hf => simpa using hf
  next t hf =>
    have ht : h.time < t := by simpa using List.find?_some hf
    simp only [reduceCtorEq, false_iff]
    exact fun hall => absurd (hall t (List.mem_of_find?_eq_some hf)) (Nat.not_le.mpr ht)

end Handover

end LockingDb
