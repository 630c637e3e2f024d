import LockingDb.Proofs.WaitGraph

namespace LockingDb

namespace LockTable

open Relation

variable {l l' : LockTable} {s x y : SessionId} {n : Nat} {w : Waiter} {r : LockRequest} {b : Bool}

/-- Nobody waits, directly or through others, for itself. -/
def Acyclic (l : LockTable) : Prop := ∀ s, ¬TransGen l.Waits s s

/-- What a session waits for, if it does. -/
def awaited? (l : LockTable) (s : SessionId) : Option LockRequest :=
  ((l.ticket.get? s).bind l.queue.get?).map Waiter.request

/-- A session that waits asks for nothing but what it waits for. -/
def Repeats (l : LockTable) : LockStep → Prop
  | .acquire s r => ∀ q ∈ l.awaited? s, q = r
  | _ => True

instance (l : LockTable) (k : LockStep) : Decidable (l.Repeats k) :=
  match k with
  | .acquire s r => inferInstanceAs (Decidable (∀ q ∈ l.awaited? s, q = r))
  | .withdraw _ | .releaseAll _ | .releaseShared _ _ | .promote => inferInstanceAs (Decidable True)

def RepeatsAll : LockTable → List LockStep → Prop
  | _, [] => True
  | l, k :: rest => l.Repeats k ∧ (l.perform k).RepeatsAll rest

instance : (l : LockTable) → (steps : List LockStep) → Decidable (l.RepeatsAll steps)
  | _, [] => inferInstanceAs (Decidable True)
  | l, k :: rest =>
    have := instDecidableRepeatsAll (l.perform k) rest
    inferInstanceAs (Decidable (l.Repeats k ∧ (l.perform k).RepeatsAll rest))

theorem Queued.awaited (hq : l.Queued s n w) : l.awaited? s = some w.request := by
  simp [awaited?, hq.1, hq.2]

theorem acyclic_empty : empty.Acyclic := by
  intro s hs
  obtain ⟨x, hx, -⟩ := TransGen.head'_iff.mp hs
  exact absurd hx.ticketed (by simp [empty])

/-- New edges into a session that does not wait close no cycle. -/
theorem Acyclic.of_edges (ha : l.Acyclic)
    (hedges : ∀ x y, l'.Waits x y → l.Waits x y ∨ ∀ z, ¬l'.Waits y z) : l'.Acyclic := by
  have hold : ∀ {x y}, TransGen l'.Waits x y → (∃ z, l'.Waits y z) → TransGen l.Waits x y := by
    intro x y hxy
    induction hxy with
    | @single y hxy =>
      rintro ⟨z, hz⟩
      exact .single ((hedges x y hxy).resolve_right fun hsink => hsink z hz)
    | @tail y z _ hyz ih =>
      rintro ⟨u, hu⟩
      exact (ih ⟨z, hyz⟩).tail ((hedges y z hyz).resolve_right fun hsink => hsink u hu)
  intro s hs
  obtain ⟨x, hx, -⟩ := TransGen.head'_iff.mp hs
  exact ha s (hold hs ⟨x, hx⟩)

/-- New edges out of one session close no cycle if no way leads back to it. -/
theorem Acyclic.of_source (ha : l.Acyclic) (targets : IdSet)
    (hedges : ∀ x y, l'.Waits x y → (x ≠ s ∧ l.Waits x y) ∨ (x = s ∧ y ∈ targets))
    (hsafe : ∀ y ∈ targets, ¬ReflTransGen l.Waits y s) : l'.Acyclic := by
  -- A way in the new graph is one in the old graph before it first comes to `s` and after it last
  -- leaves `s`.
  have hbefore : ∀ {x y}, TransGen l'.Waits x y → TransGen l.Waits x y ∨ ReflTransGen l.Waits x s := by
    intro x y hxy
    induction hxy with
    | single hxy =>
      rcases hedges _ _ hxy with ⟨-, hxy⟩ | ⟨rfl, -⟩
      · exact Or.inl (.single hxy)
      · exact Or.inr .refl
    | tail _ hyz ih =>
      rcases ih with hxy | hxs
      · rcases hedges _ _ hyz with ⟨-, hyz⟩ | ⟨rfl, -⟩
        · exact Or.inl (hxy.tail hyz)
        · exact Or.inr hxy.to_reflTransGen
      · exact Or.inr hxs
  have hafter : ∀ {x y}, TransGen l'.Waits x y →
      TransGen l.Waits x y ∨ ∃ z ∈ targets, ReflTransGen l.Waits z y := by
    intro x y hxy
    induction hxy with
    | single hxy =>
      rcases hedges _ _ hxy with ⟨-, hxy⟩ | ⟨-, hy⟩
      · exact Or.inl (.single hxy)
      · exact Or.inr ⟨_, hy, .refl⟩
    | tail _ hyz ih =>
      rcases hedges _ _ hyz with ⟨-, hyz⟩ | ⟨-, hz⟩
      · rcases ih with hxy | ⟨u, hu, huy⟩
        · exact Or.inl (hxy.tail hyz)
        · exact Or.inr ⟨u, hu, huy.tail hyz⟩
      · exact Or.inr ⟨_, hz, .refl⟩
  intro c hc
  rcases hbefore hc with hcc | hcs
  · exact ha c hcc
  · rcases hafter hc with hcc | ⟨z, hz, hzc⟩
    · exact ha c hcc
    · exact hsafe z hz (hzc.trans hcs)

/-- Edges go where fewer wait and nobody holds more. -/
theorem Coherent.waits_of_less (h : l.Coherent) (h' : l'.Coherent)
    (hqueue : ∀ x n w, l'.Queued x n w → l.Queued x n w) (hkeeps : Keeps y l' l)
    (hxy : l'.Waits x y) : l.Waits x y := by
  obtain ⟨hne, n, w, hq, hcause⟩ := h'.waits_iff.mp hxy
  refine h.waits_iff.mpr ⟨hne, n, w, hqueue x n w hq, ?_⟩
  rcases hcause with hbars | ⟨hb, m, v, hm, hlt, hconflict⟩
  · exact Or.inl (hkeeps.bars hbars)
  · exact Or.inr ⟨hb, m, v, hqueue y m v hm, hlt, hconflict⟩

theorem Acyclic.of_less (ha : l.Acyclic) (h : l.Coherent) (h' : l'.Coherent)
    (hqueue : ∀ x n w, l'.Queued x n w → l.Queued x n w) (hkeeps : ∀ x, Keeps x l' l) :
    l'.Acyclic :=
  ha.of_edges fun _ y hxy => Or.inl (h.waits_of_less h' hqueue (hkeeps y) hxy)

theorem Acyclic.withdraw (ha : l.Acyclic) (h : l.Coherent) : (l.withdraw s).2.Acyclic :=
  ha.of_less h h.withdraw (fun _ _ _ hq => (h.queued_withdraw.mp hq).2)
    (fun _ => keeps_of_eq fun _ => mode?_withdraw.symm)

theorem Acyclic.releaseAll (ha : l.Acyclic) (h : l.Coherent) : (l.releaseAll s).2.Acyclic :=
  ha.of_less h h.releaseAll (fun _ _ _ => (queued_congr releaseAll_line).mp)
    (fun _ => keeps_before_releaseAll)

theorem Acyclic.releaseShared (ha : l.Acyclic) (h : l.Coherent) {tables : List TableId} :
    (l.releaseShared s tables).2.Acyclic :=
  ha.of_less h h.releaseShared (fun _ _ _ => (queued_congr releaseShared_line).mp)
    (fun _ => keeps_before_releaseShared)

theorem Acyclic.grantNow (ha : l.Acyclic) (h : l.Coherent) (hg : l.Grantable s r) :
    (l.grantNow s r).Acyclic := by
  have h' := h.grantNow hg
  refine ha.of_edges fun x y hxy => ?_
  by_cases hy : y = s
  · right
    intro z hz
    obtain ⟨-, n, w, hq, -⟩ := h'.waits_iff.mp hz
    exact ((queued_grantNow h.toQueueAgrees).mp hq).1 hy
  · left
    refine h.waits_of_less h' (fun _ _ _ hq => ((queued_grantNow h.toQueueAgrees).mp hq).2) ?_ hxy
    exact keeps_of_eq fun _ => (mode?_grantNow_of_ne hy).symm

/-- What stands in the way of a request: the holders alone if it is barging. -/
def behind (l : LockTable) (s : SessionId) (r : LockRequest) : Bool → IdSet
  | true => l.conflictingHolders s r
  | false => l.obstacles s r

theorem Coherent.mem_behind (h : l.Coherent) : y ∈ l.behind s r b ↔
    y ≠ s ∧ (l.Bars y r ∨ (b = false ∧ l.WaitsAhead y r (l.ticket.get? s))) := by
  cases b with
  | true => simp [behind, h.mem_conflictingHolders]
  | false =>
    simp only [behind, obstacles, IdSet.mem_union, h.mem_conflictingHolders, h.mem_queuedAhead]
    simp [and_or_left]

/-- In front of the own ticket means in front of the session. -/
theorem Coherent.waitsAhead_ticketFor (h : l.Coherent) {q : LockRequest} :
    l.WaitsAhead y q (some (l.ticketFor s)) ↔ l.WaitsAhead y q (l.ticket.get? s) := by
  cases hs : l.ticket.get? s with
  | some k => simp [ticketFor, hs]
  | none =>
    have hall : ∀ n w, l.Queued y n w → n < l.ticketFor s := by
      intro n w hq
      simpa [ticketFor, hs] using h.ticket_lt y n hq.1
    constructor
    · rintro ⟨n, w, hq, -, hconflict⟩
      exact ⟨n, w, hq, rfl, hconflict⟩
    · rintro ⟨n, w, hq, -, hconflict⟩
      exact ⟨n, w, hq, by simpa using hall n w hq, hconflict⟩

theorem Coherent.waitsAhead_enqueue_of_ne (h : l.Coherent) {q : LockRequest} {before : Option Nat}
    (hy : y ≠ s) : (l.enqueue s r b).WaitsAhead y q before ↔ l.WaitsAhead y q before := by
  unfold WaitsAhead
  simp only [h.queued_enqueue, hy, ne_eq, not_false_eq_true, true_and, false_and, or_false]

/-- A session that has asked waits for what stood in the way of its request. -/
theorem Coherent.waits_enqueue_self (h : l.Coherent) (hmore : l.holdsAll s r = false) :
    (l.enqueue s r b).Waits s y ↔ y ∈ l.behind s r b := by
  rw [(h.enqueue hmore).waits_iff, h.mem_behind]
  refine and_congr_right fun hy => ?_
  have hbars : (l.enqueue s r b).Bars y r ↔ l.Bars y r :=
    ⟨(keeps_of_eq fun _ => mode?_enqueue.symm).bars, (keeps_of_eq fun _ => mode?_enqueue).bars⟩
  constructor
  · rintro ⟨n, w, hq, hcause⟩
    obtain ⟨hne, -⟩ | ⟨-, rfl, rfl⟩ := h.queued_enqueue.mp hq
    · exact absurd rfl hne
    · rwa [hbars, h.waitsAhead_enqueue_of_ne hy, h.waitsAhead_ticketFor] at hcause
  · intro hcause
    refine ⟨_, _, h.queued_enqueue.mpr (Or.inr ⟨rfl, rfl, rfl⟩), ?_⟩
    rwa [hbars, h.waitsAhead_enqueue_of_ne hy, h.waitsAhead_ticketFor]

/-- In front of the others a session waits as before, if its request is not another one. -/
theorem Coherent.waitsAhead_enqueue_self (h : l.Coherent) {q : LockRequest}
    (hsame : ∀ q ∈ l.awaited? s, q = r) (hq : l.Queued x n w) :
    (l.enqueue s r b).WaitsAhead s q (some n) ↔ l.WaitsAhead s q (some n) := by
  constructor
  · rintro ⟨m, v, hm, hlt, hconflict⟩
    obtain ⟨hne, -⟩ | ⟨-, rfl, rfl⟩ := h.queued_enqueue.mp hm
    · exact absurd rfl hne
    have hlt : l.ticketFor s < n := by simpa using hlt
    cases hs : l.ticket.get? s with
    | none =>
      have hnext := h.ticket_lt x n hq.1
      simp only [ticketFor, hs, Option.getD_none] at hlt
      omega
    | some k =>
      obtain ⟨v, hv⟩ := h.ticketed hs
      have hk : l.ticketFor s = k := by simp [ticketFor, hs]
      have hr := hsame v.request (by simp [hv.awaited])
      exact ⟨k, v, hv, by simpa [hk] using hlt, by rw [hr]; exact hconflict⟩
  · rintro ⟨m, v, hm, hlt, hconflict⟩
    have hk : l.ticketFor s = m := by simp [ticketFor, hm.1]
    have hr := hsame v.request (by simp [hm.awaited])
    rw [hr] at hconflict
    exact ⟨m, ⟨s, r, b⟩, h.queued_enqueue.mpr (Or.inr ⟨rfl, hk.symm, rfl⟩), hlt, hconflict⟩

theorem Coherent.waits_enqueue_of_ne (h : l.Coherent) (hmore : l.holdsAll s r = false)
    (hsame : ∀ q ∈ l.awaited? s, q = r) (hx : x ≠ s) :
    (l.enqueue s r b).Waits x y ↔ l.Waits x y := by
  rw [(h.enqueue hmore).waits_iff, h.waits_iff]
  refine and_congr_right fun _ => exists_congr fun n => exists_congr fun w => ?_
  have hqueued : (l.enqueue s r b).Queued x n w ↔ l.Queued x n w := by
    simp [h.queued_enqueue, hx]
  rw [hqueued]
  refine and_congr_right fun hq => or_congr ?_ (and_congr_right fun _ => ?_)
  · exact ⟨(keeps_of_eq fun _ => mode?_enqueue.symm).bars, (keeps_of_eq fun _ => mode?_enqueue).bars⟩
  · by_cases hy : y = s
    · rw [hy]
      exact h.waitsAhead_enqueue_self hsame hq
    · exact h.waitsAhead_enqueue_of_ne hy

theorem Acyclic.enqueue (ha : l.Acyclic) (h : l.Coherent) (hmore : l.holdsAll s r = false)
    (hsame : ∀ q ∈ l.awaited? s, q = r) (hsafe : l.wouldDeadlock s (l.behind s r b) = false) :
    (l.enqueue s r b).Acyclic := by
  refine ha.of_source (s := s) (l.behind s r b) (fun x y hxy => ?_) (fun y hy hpath => ?_)
  · by_cases hx : x = s
    · subst hx
      exact Or.inr ⟨rfl, (h.waits_enqueue_self hmore).mp hxy⟩
    · exact Or.inl ⟨hx, (h.waits_enqueue_of_ne hmore hsame hx).mp hxy⟩
  · have hfound := wouldDeadlock_iff_reaches.mpr ⟨y, hy, hpath⟩
    rw [hsafe] at hfound
    cases hfound

theorem Acyclic.acquire (ha : l.Acyclic) (h : l.Coherent) (hsame : ∀ q ∈ l.awaited? s, q = r) :
    (l.acquire s r).2.Acyclic := by
  have hout := acquire_acquires l s r
  generalize (l.acquire s r).1 = verdict, (l.acquire s r).2 = after at hout
  cases hout with
  | held hall => exact ha.withdraw h
  | free hmore hfree hpass => exact ha.grantNow h (h.grantable_iff.mpr hfree)
  | behind hmore hbusy hsafe => exact ha.enqueue h hmore hsame hsafe
  | barging hmore hbusy hpass hsafe => exact ha.enqueue h hmore hsame hsafe
  | refused hmore hpass hcycle => exact ha.withdraw h

theorem Acyclic.promotes {granted : List SessionId} (hp : Promotes l granted l') (ha : l.Acyclic)
    (h : l.Coherent) : l'.Acyclic := by
  induction hp with
  | done => exact ha
  | grant hw hfree _ ih =>
    have hg := h.grantable_of_isFree hfree
    exact ih (ha.grantNow h hg) (h.grantNow hg)

theorem Acyclic.perform (ha : l.Acyclic) (h : l.Coherent) {k : LockStep} (hk : l.Repeats k) :
    (l.perform k).Acyclic := by
  cases k with
  | acquire s r => exact ha.acquire h hk
  | withdraw s => exact ha.withdraw h
  | releaseAll s => exact ha.releaseAll h
  | releaseShared s tables => exact ha.releaseShared h
  | promote => exact ha.promotes promote_promotes h

theorem Acyclic.foldl_perform (ha : l.Acyclic) (h : l.Coherent) {steps : List LockStep}
    (hsteps : l.RepeatsAll steps) : (steps.foldl LockTable.perform l).Acyclic := by
  induction steps generalizing l with
  | nil => exact ha
  | cons k rest ih => exact ih (ha.perform h hsteps.1) (h.perform k) hsteps.2

/-- If those who wait ask for nothing else, nobody ever waits for itself. -/
theorem acyclic_run {steps : List LockStep} (hsteps : empty.RepeatsAll steps) :
    (run steps).Acyclic :=
  acyclic_empty.foldl_perform coherent_empty hsteps

/-- Sessions 4 and 1 pass a waiter that waits for them, one of these asks again, and 4 is refused a
wait that would close a cycle. -/
theorem acyclic_run_passing :
    empty.RepeatsAll [.acquire 4 (.write [1]), .acquire 2 (.write [3]), .acquire 2 (.write [1, 2]),
      .acquire 4 (.write [2]), .acquire 2 (.write [1, 2]), .acquire 1 (.write [5]),
      .acquire 3 (.write [5, 6]), .acquire 1 (.write [3, 6]), .acquire 4 (.write [3]),
      .withdraw 3, .promote] ∧
    (run [.acquire 4 (.write [1]), .acquire 2 (.write [3]), .acquire 2 (.write [1, 2]),
      .acquire 4 (.write [2]), .acquire 2 (.write [1, 2]), .acquire 1 (.write [5]),
      .acquire 3 (.write [5, 6]), .acquire 1 (.write [3, 6]), .acquire 4 (.write [3]),
      .withdraw 3, .promote]).Acyclic :=
  have hsteps : empty.RepeatsAll [.acquire 4 (.write [1]), .acquire 2 (.write [3]),
      .acquire 2 (.write [1, 2]), .acquire 4 (.write [2]), .acquire 2 (.write [1, 2]),
      .acquire 1 (.write [5]), .acquire 3 (.write [5, 6]), .acquire 1 (.write [3, 6]),
      .acquire 4 (.write [3]), .withdraw 3, .promote] := by
    decide
  ⟨hsteps, acyclic_run hsteps⟩

end LockTable

end LockingDb
