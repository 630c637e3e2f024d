import LockingDb.Proofs.LockModes

namespace LockingDb

namespace LockTable

variable {l l' : LockTable} {s x : SessionId} {n m : Nat} {w v : Waiter} {r : LockRequest}

/-- The session waits under the ticket for what the waiter asks. -/
def Queued (l : LockTable) (s : SessionId) (n : Nat) (w : Waiter) : Prop :=
  l.ticket.get? s = some n ∧ l.queue.get? n = some w

/-- Queue and tickets are inverse to each other, and no ticket has been used before. -/
structure QueueAgrees (l : LockTable) : Prop where
  ticket_iff : ∀ s n, l.ticket.get? s = some n ↔ ∃ w, l.queue.get? n = some w ∧ w.session = s
  ticket_lt : ∀ s n, l.ticket.get? s = some n → n < l.nextTicket

theorem queued_congr (h : l'.line = l.line) : l'.Queued s n w ↔ l.Queued s n w := by
  obtain ⟨hqueue, hticket, -⟩ : l'.queue = l.queue ∧ l'.ticket = l.ticket ∧
      l'.nextTicket = l.nextTicket := by
    simpa [line] using h
  rw [Queued, hqueue, hticket, Queued]

theorem QueueAgrees.congr (h : l.QueueAgrees) (hline : l'.line = l.line) : l'.QueueAgrees := by
  obtain ⟨hqueue, hticket, hnext⟩ : l'.queue = l.queue ∧ l'.ticket = l.ticket ∧
      l'.nextTicket = l.nextTicket := by
    simpa [line] using hline
  refine ⟨fun s n => ?_, fun s n => ?_⟩
  · rw [hqueue, hticket]
    exact h.ticket_iff s n
  · rw [hticket, hnext]
    exact h.ticket_lt s n

theorem QueueAgrees.queued (h : l.QueueAgrees) (hw : l.queue.get? n = some w) :
    l.Queued w.session n w :=
  ⟨(h.ticket_iff _ _).mpr ⟨w, hw, rfl⟩, hw⟩

theorem QueueAgrees.ticketed (h : l.QueueAgrees) (hs : l.ticket.get? s = some n) :
    ∃ w, l.Queued s n w := by
  obtain ⟨w, hw, -⟩ := (h.ticket_iff s n).mp hs
  exact ⟨w, hs, hw⟩

theorem QueueAgrees.session (h : l.QueueAgrees) (hq : l.Queued s n w) : w.session = s := by
  obtain ⟨v, hv, hs⟩ := (h.ticket_iff s n).mp hq.1
  rwa [Option.some.inj (hq.2.symm.trans hv)]

theorem Queued.unique (hq : l.Queued s n w) (hp : l.Queued s m v) : n = m ∧ w = v := by
  have hn : n = m := Option.some.inj (hq.1.symm.trans hp.1)
  subst hn
  exact ⟨rfl, Option.some.inj (hq.2.symm.trans hp.2)⟩

theorem QueueAgrees.same_session (h : l.QueueAgrees) (hq : l.Queued s n w) (hp : l.Queued x n v) :
    s = x := by
  rw [← h.session hq, ← h.session hp, Option.some.inj (hq.2.symm.trans hp.2)]

theorem QueueAgrees.mem_waitingSessions (h : l.QueueAgrees) :
    s ∈ l.waitingSessions ↔ ∃ n w, l.Queued s n w := by
  unfold waitingSessions
  rw [List.mem_map]
  constructor
  · rintro ⟨w, hw, rfl⟩
    obtain ⟨n, hn⟩ := IdMap.mem_values.mp hw
    exact ⟨n, w, h.queued hn⟩
  · rintro ⟨n, w, hq⟩
    exact ⟨w, IdMap.mem_values.mpr ⟨n, hq.2⟩, h.session hq⟩

theorem QueueAgrees.isWaiting_iff (h : l.QueueAgrees) :
    l.isWaiting s = true ↔ ∃ n w, l.Queued s n w := by
  unfold isWaiting
  rw [IdMap.contains_eq, Option.isSome_iff_exists]
  constructor
  · rintro ⟨n, hn⟩
    exact ⟨n, h.ticketed hn⟩
  · rintro ⟨n, w, hq⟩
    exact ⟨n, hq.1⟩

theorem QueueAgrees.isWaiting_eq_false (h : l.QueueAgrees) :
    l.isWaiting s = false ↔ ∀ n w, ¬l.Queued s n w := by
  rw [← Bool.not_eq_true, h.isWaiting_iff]
  simp only [not_exists]

theorem mode?_withdraw {u : TableId} : (l.withdraw s).2.mode? x u = l.mode? x u := by
  unfold withdraw
  split <;> rfl

theorem HoldersAgree.withdraw (h : l.HoldersAgree) : (l.withdraw s).2.HoldersAgree := by
  unfold LockTable.withdraw
  split
  next => exact h
  next => exact ⟨h.writer_iff, h.reader_iff, h.reader_exists, h.writer_alone⟩

theorem QueueAgrees.queued_withdraw (h : l.QueueAgrees) :
    (l.withdraw s).2.Queued x n w ↔ x ≠ s ∧ l.Queued x n w := by
  cases hs : l.ticket.get? s with
  | none =>
    have hsame : (l.withdraw s).2 = l := by simp [withdraw, hs]
    rw [hsame]
    refine ⟨fun hq => ⟨fun hx => ?_, hq⟩, fun hq => hq.2⟩
    rw [hx, Queued, hs] at hq
    cases hq.1
  | some k =>
    have hout : (l.withdraw s).2 =
        { l with queue := l.queue.erase k, ticket := l.ticket.erase s } := by
      simp [withdraw, hs]
    rw [hout]
    simp only [Queued, IdMap.get?_erase]
    by_cases hx : x = s
    · simp [hx]
    · simp only [hx, if_false, ne_eq, not_false_eq_true, true_and]
      refine and_congr_right fun ht => ?_
      have hn : n ≠ k := by
        rintro rfl
        obtain ⟨v, hv⟩ := h.ticketed ht
        obtain ⟨w, hw⟩ := h.ticketed hs
        exact hx (h.same_session hv hw)
      rw [if_neg hn]

theorem QueueAgrees.withdraw_flag (h : l.QueueAgrees) :
    (l.withdraw s).1 = true ↔ ∃ n w, l.Queued s n w := by
  unfold withdraw
  split
  next hnone => simp [Queued, hnone]
  next n hsome =>
    obtain ⟨w, hw⟩ := h.ticketed hsome
    simp only [IdMap.contains_eq, hw.2, Option.isSome_some, true_iff]
    exact ⟨n, w, hw⟩

theorem QueueAgrees.withdraw (h : l.QueueAgrees) : (l.withdraw s).2.QueueAgrees := by
  cases hs : l.ticket.get? s with
  | none => rwa [show (l.withdraw s).2 = l by simp [LockTable.withdraw, hs]]
  | some k =>
    have hout : (l.withdraw s).2 =
        { l with queue := l.queue.erase k, ticket := l.ticket.erase s } := by
      simp [LockTable.withdraw, hs]
    obtain ⟨old, hold⟩ := h.ticketed hs
    rw [hout]
    refine ⟨fun x n => ?_, fun x n hx => ?_⟩
    · simp only [IdMap.get?_erase]
      by_cases hn : n = k
      · subst hn
        have hx : x ≠ s → l.ticket.get? x ≠ some n := by
          intro hne hx
          obtain ⟨v, hv⟩ := h.ticketed hx
          exact hne (h.same_session hv hold)
        by_cases hxs : x = s <;> simp [hxs, hx]
      · rw [if_neg hn, ← h.ticket_iff]
        by_cases hxs : x = s
        · simp [hxs, hs, Ne.symm hn]
        · simp [hxs]
    · rw [IdMap.get?_erase] at hx
      split at hx
      · cases hx
      · exact h.ticket_lt x n hx

section Enqueue

variable {b : Bool}

theorem mode?_enqueue {u : TableId} : (l.enqueue s r b).mode? x u = l.mode? x u := by
  unfold enqueue
  split <;> rfl

theorem HoldersAgree.enqueue (h : l.HoldersAgree) : (l.enqueue s r b).HoldersAgree := by
  unfold LockTable.enqueue
  split <;> exact ⟨h.writer_iff, h.reader_iff, h.reader_exists, h.writer_alone⟩

/-- The ticket under which a session waits once it has asked. -/
def ticketFor (l : LockTable) (s : SessionId) : Nat := (l.ticket.get? s).getD l.nextTicket

theorem QueueAgrees.ticketFor_ne (h : l.QueueAgrees) (hx : x ≠ s) (hq : l.Queued x n w) :
    n ≠ l.ticketFor s := by
  rintro rfl
  cases hs : l.ticket.get? s with
  | none =>
    have hlt := h.ticket_lt x _ hq.1
    simp [ticketFor, hs] at hlt
  | some k =>
    have hk : l.ticketFor s = k := by simp [ticketFor, hs]
    obtain ⟨v, hv⟩ := h.ticketed hs
    rw [hk] at hq
    exact hx (h.same_session hq hv)

theorem enqueue_queue : (l.enqueue s r b).queue = l.queue.insert (l.ticketFor s) ⟨s, r, b⟩ := by
  cases hs : l.ticket.get? s <;> simp [enqueue, ticketFor, hs]

theorem enqueue_ticket {x : SessionId} :
    (l.enqueue s r b).ticket.get? x = if x = s then some (l.ticketFor s) else l.ticket.get? x := by
  cases hs : l.ticket.get? s with
  | none => simp [enqueue, ticketFor, hs, IdMap.get?_insert]
  | some k =>
    by_cases hx : x = s
    · simp [enqueue, ticketFor, hs, hx]
    · simp [enqueue, hs, hx]

theorem QueueAgrees.queued_enqueue (h : l.QueueAgrees) :
    (l.enqueue s r b).Queued x n w ↔
      (x ≠ s ∧ l.Queued x n w) ∨ (x = s ∧ n = l.ticketFor s ∧ w = ⟨s, r, b⟩) := by
  rw [Queued, enqueue_queue, enqueue_ticket, IdMap.get?_insert]
  by_cases hx : x = s
  · by_cases hn : n = l.ticketFor s
    · simp [hx, hn, eq_comm]
    · simp [hx, hn, Ne.symm hn]
  · simp only [hx, if_false, ne_eq, not_false_eq_true, true_and, false_and, or_false]
    constructor
    · rintro ⟨ht, hw⟩
      obtain ⟨v, hv⟩ := h.ticketed ht
      rw [if_neg (h.ticketFor_ne hx hv)] at hw
      exact ⟨ht, hw⟩
    · intro hq
      rw [if_neg (h.ticketFor_ne hx hq)]
      exact hq

theorem QueueAgrees.enqueue (h : l.QueueAgrees) : (l.enqueue s r b).QueueAgrees := by
  -- Who is in the queue already keeps its ticket, and nobody else has it.
  refine ⟨fun x n => ?_, fun x n hx => ?_⟩
  · rw [enqueue_queue, enqueue_ticket, IdMap.get?_insert]
    by_cases hn : n = l.ticketFor s
    · by_cases hx : x = s
      · simp [hn, hx]
      · have hne : l.ticket.get? x ≠ some (l.ticketFor s) := by
          intro ht
          obtain ⟨v, hv⟩ := h.ticketed ht
          exact h.ticketFor_ne hx hv rfl
        simp [hn, hx, hne, Ne.symm hx]
    · rw [if_neg hn, ← h.ticket_iff]
      by_cases hx : x = s
      · have hold : l.ticket.get? s ≠ some n := by
          intro ht
          exact hn (by simp [ticketFor, ht])
        simp [hx, hold, Ne.symm hn]
      · simp [hx]
  · rw [enqueue_ticket] at hx
    cases hs : l.ticket.get? s with
    | none =>
      have hnext : (l.enqueue s r b).nextTicket = l.nextTicket + 1 := by simp [LockTable.enqueue, hs]
      have hfor : l.ticketFor s = l.nextTicket := by simp [ticketFor, hs]
      rw [hnext]
      split at hx
      · have hn := Option.some.inj hx
        omega
      · have hlt := h.ticket_lt x n hx
        omega
    | some k =>
      have hnext : (l.enqueue s r b).nextTicket = l.nextTicket := by simp [LockTable.enqueue, hs]
      have hfor : l.ticketFor s = k := by simp [ticketFor, hs]
      rw [hnext]
      split at hx
      · exact h.ticket_lt s n (by rw [hs, ← hfor, Option.some.inj hx])
      · exact h.ticket_lt x n hx

end Enqueue

end LockTable

end LockingDb
