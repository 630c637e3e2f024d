import LockingDb.Proofs.Bystander
import Mathlib.Data.List.Induction

namespace LockingDb

namespace LockTable

open Relation

variable {l l' : LockTable} {s x y : SessionId} {n : Nat} {w : Waiter} {r q : LockRequest}
  {granted : List SessionId} {steps before before' during : List LockStep} {k : LockStep}

/-- One of those in front of a request that conflict with it waits for the session that makes it. -/
def AwaitedAhead (l : LockTable) (s : SessionId) (r : LockRequest) : Prop :=
  ∃ y, y ≠ s ∧ l.WaitsAhead y r (l.ticket.get? s) ∧ TransGen l.Waits y s

/-- The call gives a session the locks of a request that it does not have yet. -/
def Grants (l : LockTable) : LockStep → SessionId → LockRequest → Prop
  | .acquire x q, s, r =>
    x = s ∧ q = r ∧ (l.acquire s r).1 = .granted ∧ l.holdsAll s r = false
  | .promote, s, r => s ∈ l.promote.1 ∧ l.awaited? s = some r
  | .withdraw _, _, _ | .releaseAll _, _, _ | .releaseShared _ _, _, _ => False

/-- The last request of a session in the calls `steps` is made after the calls `before`. -/
def AsksLast (steps before : List LockStep) (s : SessionId) (r : LockRequest) : Prop :=
  ∃ during, steps = before ++ .acquire s r :: during ∧ ∀ q, .acquire s q ∉ during

theorem AsksLast.append (h : AsksLast steps before s r) (hk : ∀ q, k ≠ .acquire s q) :
    AsksLast (steps ++ [k]) before s r := by
  obtain ⟨during, rfl, hnone⟩ := h
  refine ⟨during ++ [k], by simp, fun q hq => ?_⟩
  rcases List.mem_append.mp hq with hq | hq
  · exact hnone q hq
  · exact hk q (List.mem_singleton.mp hq).symm

theorem asksLast_acquire : AsksLast (steps ++ [.acquire s r]) steps s r :=
  ⟨[], rfl, fun _ => List.not_mem_nil⟩

/-- Of two requests that are both the last one, neither comes before the other. -/
theorem AsksLast.unique (h : AsksLast steps before s r) (h' : AsksLast steps before' s q) :
    before' = before ∧ q = r := by
  obtain ⟨during, hsteps, hnone⟩ := h
  obtain ⟨during', hsteps', hnone'⟩ := h'
  rw [hsteps] at hsteps'
  rcases List.append_eq_append_iff.mp hsteps' with ⟨between, hbefore, hrest⟩ | ⟨between, hbefore, hrest⟩
  · cases between with
    | nil => simp_all
    | cons j between =>
      obtain ⟨-, rfl⟩ := List.cons_eq_cons.mp hrest
      exact absurd (List.mem_append_right between List.mem_cons_self) (hnone q)
  · cases between with
    | nil => simp_all
    | cons j between =>
      obtain ⟨-, rfl⟩ := List.cons_eq_cons.mp hrest
      exact absurd (List.mem_append_right between List.mem_cons_self) (hnone' r)

theorem run_append : run (steps ++ [k]) = (run steps).perform k := by
  simp [run, List.foldl_append]

theorem coherent_run_steps : (run steps).Coherent := coherent_empty.foldl_perform steps

/-- A request passes those in front of it only if one of them waits for it. -/
theorem Coherent.awaitedAhead (h : l.Coherent) (hpass : l.wouldDeadlock s (l.obstacles s r) = true)
    (hholders : ∀ x ∈ l.conflictingHolders s r, ¬ReflTransGen l.Waits x s) :
    l.AwaitedAhead s r := by
  obtain ⟨y, hy, hpath⟩ := wouldDeadlock_iff_reaches.mp hpass
  rcases IdSet.mem_union.mp hy with hy | hy
  · exact absurd hpath (hholders y hy)
  · obtain ⟨hne, hahead⟩ := h.mem_queuedAhead.mp hy
    refine ⟨y, hne, hahead, ?_⟩
    rcases reflTransGen_iff_eq_or_transGen.mp hpath with heq | hpath
    · exact absurd heq.symm hne
    · exact hpath

theorem waitsAhead_of_queued {ticket : Option Nat} (hqueued : ∀ n w, l'.Queued y n w → l.Queued y n w)
    (hy : l'.WaitsAhead y r ticket) : l.WaitsAhead y r ticket := by
  obtain ⟨n, w, hq, hahead⟩ := hy
  exact ⟨n, w, hqueued n w hq, hahead⟩

/-- A request that is granted at once while somebody stays in front of it. -/
theorem Coherent.awaitedAhead_of_acquire (h : l.Coherent) (hv : (l.acquire s r).1 = .granted)
    (hmore : l.holdsAll s r = false) (hy : y ≠ s)
    (hahead : (l.acquire s r).2.WaitsAhead y r (l.ticket.get? s)) : l.AwaitedAhead s r := by
  have hout := acquire_acquires l s r
  generalize (l.acquire s r).1 = verdict, (l.acquire s r).2 = after at hout hv hahead
  subst hv
  cases hout with
  | held hall =>
    rw [hmore] at hall
    cases hall
  | free hmore hfree hpass =>
    have hbefore : l.WaitsAhead y r (l.ticket.get? s) :=
      waitsAhead_of_queued (fun _ _ hq => ((queued_grantNow h.toQueueAgrees).mp hq).2) hahead
    have hobstacle : y ∈ l.obstacles s r :=
      IdSet.mem_union.mpr (Or.inr (h.mem_queuedAhead.mpr ⟨hy, hbefore⟩))
    rcases hpass with hempty | hpass
    · exact absurd hobstacle (IdSet.isEmpty_iff.mp hempty y)
    · exact h.awaitedAhead hpass fun x hx => absurd hx (IdSet.isEmpty_iff.mp hfree x)

/-- A waiter that is let pass is in the queue because somebody in front of it waits for it. -/
theorem Coherent.awaitedAhead_of_barging (h : l.Coherent) (hq : (l.acquire s r).2.Queued s n w)
    (hb : w.barging = true) : l.AwaitedAhead s r := by
  have hout := acquire_acquires l s r
  generalize (l.acquire s r).1 = verdict, (l.acquire s r).2 = after at hout hq
  cases hout with
  | held hall => exact absurd rfl (h.queued_withdraw.mp hq).1
  | free hmore hfree hpass => exact absurd rfl ((queued_grantNow h.toQueueAgrees).mp hq).1
  | behind hmore hbusy hsafe =>
    obtain ⟨hne, -⟩ | ⟨-, -, rfl⟩ := h.queued_enqueue.mp hq
    · exact absurd rfl hne
    · cases hb
  | barging hmore hbusy hpass hsafe =>
    refine h.awaitedAhead hpass fun x hx hpath => ?_
    have hfound := wouldDeadlock_iff_reaches.mpr ⟨x, hx, hpath⟩
    rw [hsafe] at hfound
    cases hfound
  | refused hmore hpass hcycle => exact absurd rfl (h.queued_withdraw.mp hq).1

/-- Only its own requests change what a session waits for. -/
theorem Coherent.queued_perform (h : l.Coherent) (hk : ∀ q, k ≠ .acquire s q)
    (hq : (l.perform k).Queued s n w) : l.Queued s n w := by
  cases k with
  | acquire x q =>
    have hx : s ≠ x := fun hs => hk q (by rw [hs])
    exact (spares_acquire hx).queued h n w hq
  | withdraw x => exact (h.queued_withdraw.mp hq).2
  | releaseAll x => exact (queued_congr releaseAll_line).mp hq
  | releaseShared x tables => exact (queued_congr releaseShared_line).mp hq
  | promote => exact promote_promotes.queued h hq

/-- The mark that lets a waiter pass others goes back to its last request. -/
theorem awaitedAhead_of_barging (hq : (run steps).Queued s n w) (hb : w.barging = true) :
    ∃ before, AsksLast steps before s w.request ∧ (run before).AwaitedAhead s w.request := by
  induction steps using List.reverseRecOn with
  | nil => cases hq.1
  | append_singleton steps k ih =>
    rw [run_append] at hq
    by_cases hk : ∃ q, k = .acquire s q
    · obtain ⟨q, rfl⟩ := hk
      obtain ⟨rfl, -⟩ := queued_acquire coherent_run_steps hq
      exact ⟨steps, asksLast_acquire, coherent_run_steps.awaitedAhead_of_barging hq hb⟩
    · have hk : ∀ q, k ≠ .acquire s q := not_exists.mp hk
      obtain ⟨before, hlast, hcause⟩ := ih (coherent_run_steps.queued_perform hk hq)
      exact ⟨before, hlast.append hk, hcause⟩

/-- Who is granted from the queue without the mark has nobody in front of it any more. -/
theorem Promotes.not_waitsAhead (hp : Promotes l granted l') (h : l.Coherent) (hs : s ∈ granted)
    (hq : l.Queued s n w) (hb : w.barging = false) (hy : y ≠ s) :
    ¬l'.WaitsAhead y w.request (some n) := by
  induction hp with
  | done => cases hs
  | @grant l l' m v granted hv hfree rest ih =>
    have hafter := h.grantNow (h.grantable_of_isFree hfree)
    have hgranted {x : SessionId} {i : Nat} {u : Waiter} :=
      queued_grantNow (s := v.session) (r := v.request) (x := x) (n := i) (w := u) h.toQueueAgrees
    by_cases hsv : s = v.session
    · have hm := h.queued hv
      rw [← hsv] at hm
      obtain ⟨rfl, rfl⟩ := hq.unique hm
      intro hahead
      have hbefore : l.WaitsAhead y w.request (some n) := waitsAhead_of_queued
        (fun _ _ hl => (hgranted.mp (rest.queued hafter hl)).2) hahead
      have hmem := h.mem_queuedAhead.mpr ⟨hsv ▸ hy, hbefore⟩
      have hnone : (l.queuedAhead w.session w.request (some n)).isEmpty = true := by
        simpa [isFree, hb] using (Bool.and_eq_true_iff.mp hfree).2
      exact IdSet.isEmpty_iff.mp hnone y hmem
    · have hrest : s ∈ granted := (List.mem_cons.mp hs).resolve_left hsv
      exact ih hafter hrest (hgranted.mpr ⟨hsv, hq⟩)

theorem awaitedAhead_of_grants (hg : (run steps).Grants k s r) (hy : y ≠ s)
    (hahead : (run (steps ++ [k])).WaitsAhead y r ((run steps).ticket.get? s)) :
    ∃ before, AsksLast (steps ++ [k]) before s r ∧ (run before).AwaitedAhead s r := by
  rw [run_append] at hahead
  cases k with
  | acquire x q =>
    obtain ⟨rfl, rfl, hv, hmore⟩ := hg
    exact ⟨steps, asksLast_acquire, coherent_run_steps.awaitedAhead_of_acquire hv hmore hy hahead⟩
  | promote =>
    obtain ⟨hs, hawaited⟩ := hg
    obtain ⟨n, w, hq, rfl⟩ := awaited?_eq_some.mp hawaited
    cases hb : w.barging with
    | true =>
      obtain ⟨before, hlast, hcause⟩ := awaitedAhead_of_barging hq hb
      exact ⟨before, hlast.append nofun, hcause⟩
    | false =>
      rw [hq.1] at hahead
      exact absurd hahead (promote_promotes.not_waitsAhead coherent_run_steps hs hq hb hy)
  | withdraw x => cases hg
  | releaseAll x => cases hg
  | releaseShared x tables => cases hg

/-- Whatever is asked of the lock table, who is granted a request while somebody with a conflicting
one stays in front of it was waited for by somebody in front when it asked last. If nobody was,
nobody is passed. -/
theorem no_overtaking (steps : List LockStep) (k : LockStep) (s y : SessionId) (r : LockRequest)
    (hy : y ≠ s) (hahead : (run (steps ++ [k])).WaitsAhead y r ((run steps).ticket.get? s)) :
    ((run steps).Grants k s r →
      ∃ before, AsksLast (steps ++ [k]) before s r ∧ (run before).AwaitedAhead s r) ∧
    ∀ before q, AsksLast (steps ++ [k]) before s q → ¬(run before).AwaitedAhead s q →
      ¬(run steps).Grants k s r := by
  refine ⟨fun hg => awaitedAhead_of_grants hg hy hahead, fun before q hlast hnobody hg => ?_⟩
  obtain ⟨before', hlast', hcause⟩ := awaitedAhead_of_grants hg hy hahead
  obtain ⟨rfl, rfl⟩ := hlast.unique hlast'
  exact hnobody hcause

/-- Session 2 waits for the writer of table 1, which asks for table 2 and passes session 2 when the
writer of that table has gone. -/
theorem no_overtaking_promoted :
    (run ([.acquire 1 (.write [1]), .acquire 3 (.write [2]), .acquire 2 (.write [1, 2]),
      .acquire 1 (.write [2]), .releaseAll 3] ++ [.promote])).WaitsAhead 2 (.write [2])
      ((run [.acquire 1 (.write [1]), .acquire 3 (.write [2]), .acquire 2 (.write [1, 2]),
        .acquire 1 (.write [2]), .releaseAll 3]).ticket.get? 1) ∧
    ∃ before, AsksLast ([.acquire 1 (.write [1]), .acquire 3 (.write [2]),
      .acquire 2 (.write [1, 2]), .acquire 1 (.write [2]), .releaseAll 3] ++ [.promote]) before 1
      (.write [2]) ∧ (run before).AwaitedAhead 1 (.write [2]) := by
  have hahead : (run ([.acquire 1 (.write [1]), .acquire 3 (.write [2]),
      .acquire 2 (.write [1, 2]), .acquire 1 (.write [2]), .releaseAll 3] ++
      [.promote])).WaitsAhead 2 (.write [2]) ((run [.acquire 1 (.write [1]),
        .acquire 3 (.write [2]), .acquire 2 (.write [1, 2]), .acquire 1 (.write [2]),
        .releaseAll 3]).ticket.get? 1) :=
    ⟨0, ⟨2, .write [1, 2], false⟩, ⟨by decide, by decide⟩, by decide, by decide⟩
  have hgrants : (run [.acquire 1 (.write [1]), .acquire 3 (.write [2]),
      .acquire 2 (.write [1, 2]), .acquire 1 (.write [2]), .releaseAll 3]).Grants .promote 1
      (.write [2]) := ⟨by decide, by decide⟩
  exact ⟨hahead, (no_overtaking _ .promote 1 2 (.write [2]) (by decide) hahead).1 hgrants⟩

end LockTable

end LockingDb
