import LockingDb.Proofs.NoWaitCycle

namespace LockingDb

namespace LockTable

open Relation

variable {l l' : LockTable} {s x y : SessionId} {n : Nat} {w : Waiter} {r : LockRequest} {b : Bool}

/-- The session waits behind the ticket and would wait for its owner if that asked for `r`. -/
def HeldUp (l : LockTable) (n : Nat) (r : LockRequest) (x : SessionId) : Prop :=
  ∃ m v, l.Queued x m v ∧ n < m ∧ v.barging = false ∧ r.conflictsWith v.request = true

/-- A way along which nobody reaches `s` is not changed by edges that end or begin in `s`. -/
theorem reflTransGen_of_avoids
    (hrest : ∀ x y, x ≠ s → y ≠ s → l.Waits x y → l'.Waits x y)
    (hsafe : ¬ReflTransGen l.Waits y s) (hpath : ReflTransGen l.Waits y x) :
    ReflTransGen l'.Waits y x := by
  induction hpath with
  | refl => exact .refl
  | @tail z u hyz hzu ih =>
    have hz : z ≠ s := by
      rintro rfl
      exact hsafe hyz
    have hu : u ≠ s := by
      rintro rfl
      exact hsafe (hyz.tail hzu)
    exact ih.tail (hrest z u hz hu hzu)

/-- A way from a session to another one leads through `s` or is made of edges that avoid it. -/
theorem transGen_or_through (hrest : ∀ x y, x ≠ s → y ≠ s → l'.Waits x y → l.Waits x y)
    (hpath : TransGen l'.Waits x y) :
    TransGen l.Waits x y ∨ (ReflTransGen l'.Waits x s ∧ ReflTransGen l'.Waits s y) := by
  induction hpath with
  | @single y hxy =>
    by_cases hx : x = s
    · subst hx
      exact Or.inr ⟨.refl, .single hxy⟩
    by_cases hy : y = s
    · subst hy
      exact Or.inr ⟨.single hxy, .refl⟩
    exact Or.inl (.single (hrest x y hx hy hxy))
  | @tail y z hxy hyz ih =>
    rcases ih with hold | ⟨hxs, hsy⟩
    · by_cases hy : y = s
      · subst hy
        exact Or.inr ⟨hxy.to_reflTransGen, .single hyz⟩
      by_cases hz : z = s
      · subst hz
        exact Or.inr ⟨hxy.to_reflTransGen.tail hyz, .refl⟩
      exact Or.inl (hold.tail (hrest y z hy hz hyz))
    · exact Or.inr ⟨hxs, hsy.tail hyz⟩

/-- New edges out of one session and into it close a cycle if and only if an old way leads from
those that it waits for to those that now wait for it. -/
theorem Acyclic.iff_of_exchange (ha : l.Acyclic) {targets : IdSet} {held : SessionId → Prop}
    (hout : ∀ y, l'.Waits s y ↔ y ∈ targets)
    (hin : ∀ x, x ≠ s → l'.Waits x s → l.Waits x s ∨ held x)
    (hheld : ∀ x, held x → l'.Waits x s)
    (hrest : ∀ x y, x ≠ s → y ≠ s → (l'.Waits x y ↔ l.Waits x y))
    (hsafe : ∀ y ∈ targets, ¬ReflTransGen l.Waits y s) :
    l'.Acyclic ↔ ∀ x, held x → ∀ y ∈ targets, ¬ReflTransGen l.Waits y x := by
  constructor
  · intro hacyclic x hx y hy hpath
    have hkept := reflTransGen_of_avoids (fun x y hx hy => (hrest x y hx hy).mpr) (hsafe y hy) hpath
    have hback : ReflTransGen l'.Waits y s := hkept.tail (hheld x hx)
    exact hacyclic s (TransGen.head' ((hout y).mpr hy) hback)
  · intro hnone
    -- From a session that `s` waits for only old edges can be taken, and none of these leads back.
    have hold : ∀ y ∈ targets, ∀ z, ReflTransGen l'.Waits y z → ReflTransGen l.Waits y z := by
      intro y hy z hpath
      induction hpath with
      | refl => exact .refl
      | @tail z u _ hzu ih =>
        have hz : z ≠ s := by
          rintro rfl
          exact hsafe y hy ih
        by_cases hu : u = s
        · subst hu
          rcases hin z hz hzu with hzs | hzh
          · exact absurd (ih.tail hzs) (hsafe y hy)
          · exact absurd ih (hnone z hzh y hy)
        · exact ih.tail ((hrest z u hz hu).mp hzu)
    have hself : ¬TransGen l'.Waits s s := by
      intro hs
      obtain ⟨y, hsy, hys⟩ := TransGen.head'_iff.mp hs
      have hy := (hout y).mp hsy
      exact hsafe y hy (hold y hy s hys)
    intro c hc
    rcases transGen_or_through (fun x y hx hy => (hrest x y hx hy).mp) hc with hcc | ⟨hcs, hsc⟩
    · exact ha c hcc
    · exact hself (TransGen.trans_right hsc (hc.trans_left hcs))

/-- Who is queued behind the session and did not wait for it may do so now. -/
theorem Coherent.waits_enqueue_into (h : l.Coherent) (hmore : l.holdsAll s r = false) (hx : x ≠ s) :
    (l.enqueue s r b).Waits x s ↔
      (∃ n w, l.Queued x n w ∧ l.Bars s w.request) ∨ l.HeldUp (l.ticketFor s) r x := by
  rw [(h.enqueue hmore).waits_iff]
  have hqueued : ∀ m v, (l.enqueue s r b).Queued x m v ↔ l.Queued x m v := by
    intro m v
    simp [h.queued_enqueue, hx]
  have hbars : ∀ q, (l.enqueue s r b).Bars s q ↔ l.Bars s q := fun q =>
    ⟨(keeps_of_eq fun _ => mode?_enqueue.symm).bars, (keeps_of_eq fun _ => mode?_enqueue).bars⟩
  have hahead : ∀ m q, (l.enqueue s r b).WaitsAhead s q (some m) ↔
      l.ticketFor s < m ∧ r.conflictsWith q = true := by
    intro m q
    constructor
    · rintro ⟨k, v, hk, hlt, hconflict⟩
      obtain ⟨hne, -⟩ | ⟨-, rfl, rfl⟩ := h.queued_enqueue.mp hk
      · exact absurd rfl hne
      · exact ⟨by simpa using hlt, hconflict⟩
    · rintro ⟨hlt, hconflict⟩
      exact ⟨_, _, h.queued_enqueue.mpr (Or.inr ⟨rfl, rfl, rfl⟩), by simpa using hlt, hconflict⟩
  simp only [hqueued, hbars, hahead]
  constructor
  · rintro ⟨-, m, v, hm, hb | ⟨hbarging, hlt, hconflict⟩⟩
    · exact Or.inl ⟨m, v, hm, hb⟩
    · exact Or.inr ⟨m, v, hm, hlt, hbarging, hconflict⟩
  · rintro (⟨m, v, hm, hb⟩ | ⟨m, v, hm, hlt, hbarging, hconflict⟩)
    · exact ⟨Ne.symm hx, m, v, hm, Or.inl hb⟩
    · exact ⟨Ne.symm hx, m, v, hm, Or.inr ⟨hbarging, hlt, hconflict⟩⟩

/-- If only `s` changes its locks and its place in the queue, the edges between the others stay as
they are. -/
theorem Coherent.waits_between (h : l.Coherent) (h' : l'.Coherent)
    (hqueue : ∀ x, x ≠ s → ∀ n w, l'.Queued x n w ↔ l.Queued x n w)
    (hmode : ∀ x, x ≠ s → ∀ t, l'.mode? x t = l.mode? x t) (hx : x ≠ s) (hy : y ≠ s) :
    l'.Waits x y ↔ l.Waits x y := by
  have hbars : ∀ q, l'.Bars y q ↔ l.Bars y q := fun q =>
    ⟨(keeps_of_eq fun t => (hmode y hy t).symm).bars, (keeps_of_eq (hmode y hy)).bars⟩
  rw [h'.waits_iff, h.waits_iff]
  simp only [WaitsAhead, hqueue x hx, hqueue y hy, hbars]

theorem Coherent.waits_enqueue_between (h : l.Coherent) (hmore : l.holdsAll s r = false)
    (hx : x ≠ s) (hy : y ≠ s) : (l.enqueue s r b).Waits x y ↔ l.Waits x y := by
  refine h.waits_between (h.enqueue hmore) (fun x hx n w => ?_) (fun x hx t => mode?_enqueue) hx hy
  simp [h.queued_enqueue, hx]

theorem Acyclic.enqueue_iff (ha : l.Acyclic) (h : l.Coherent) (hmore : l.holdsAll s r = false)
    (hq : l.Queued s n w) (hsafe : l.wouldDeadlock s (l.behind s r b) = false) :
    (l.enqueue s r b).Acyclic ↔
      ∀ x, l.HeldUp n r x → ∀ y ∈ l.behind s r b, ¬ReflTransGen l.Waits y x := by
  have hticket : l.ticketFor s = n := by simp [ticketFor, hq.1]
  refine ha.iff_of_exchange (s := s) (fun y => h.waits_enqueue_self hmore) (fun x hx hxs => ?_)
    (fun x hx => ?_) (fun x y hx hy => h.waits_enqueue_between hmore hx hy) (fun y hy hpath => ?_)
  · rcases (h.waits_enqueue_into hmore hx).mp hxs with ⟨m, v, hm, hbars⟩ | hheld
    · exact Or.inl (h.waits_iff.mpr ⟨Ne.symm hx, m, v, hm, Or.inl hbars⟩)
    · exact Or.inr (hticket ▸ hheld)
  · obtain ⟨m, v, hm, hlt, -⟩ := id hx
    have hne : x ≠ s := by
      rintro rfl
      have hsame := (hq.unique hm).1
      omega
    exact (h.waits_enqueue_into hmore hne).mpr (Or.inr (hticket.symm ▸ hx))
  · have hfound := wouldDeadlock_iff_reaches.mpr ⟨y, hy, hpath⟩
    rw [hsafe] at hfound
    cases hfound

/-- The cycle check sees the queue as it was: a request is refused if and only if a holder in its
way waits for the session already. -/
theorem deadlock_iff : (∃ ahead, (l.acquire s r).1 = .deadlock ahead) ↔
    l.holdsAll s r = false ∧ ∃ x ∈ l.conflictingHolders s r, ReflTransGen l.Waits x s := by
  rw [← wouldDeadlock_iff_reaches]
  have hout := acquire_acquires l s r
  generalize (l.acquire s r).1 = verdict, (l.acquire s r).2 = after at hout
  cases hout with
  | held hall => simp [hall]
  | free hmore hfree hpass =>
    have hnone : l.wouldDeadlock s (l.conflictingHolders s r) = false := by
      rw [Bool.eq_false_iff, ne_eq, wouldDeadlock_iff_reaches]
      rintro ⟨x, hx, -⟩
      exact IdSet.isEmpty_iff.mp hfree x hx
    simp [hnone]
  | behind hmore hbusy hsafe =>
    have hnone : l.wouldDeadlock s (l.conflictingHolders s r) = false := by
      rw [Bool.eq_false_iff, ne_eq, wouldDeadlock_iff_reaches]
      rintro ⟨x, hx, hpath⟩
      have hx : x ∈ l.obstacles s r := IdSet.mem_union.mpr (Or.inl hx)
      have hfound := wouldDeadlock_iff_reaches.mpr ⟨x, hx, hpath⟩
      rw [hsafe] at hfound
      cases hfound
    simp [hnone]
  | barging hmore hbusy hpass hsafe => simp [hsafe]
  | refused hmore hpass hcycle => simp [hmore, hcycle]

/-- A session in the queue that asks for something else closes a cycle if and only if it is told to
wait for somebody who waits, directly or through others, for one of those that are held up by its new
request; a request is refused only for those who wait for the session already. -/
theorem changed_request_acyclic_iff {steps : List LockStep} (ha : (run steps).Acyclic)
    (hq : (run steps).Queued s n w) (r : LockRequest) :
    (((run steps).acquire s r).2.Acyclic ↔
      ∀ ahead, ((run steps).acquire s r).1 = .wait ahead →
        ∀ x, (run steps).HeldUp n r x → ∀ y ∈ ahead, ¬ReflTransGen (run steps).Waits y x) ∧
    ((∃ ahead, ((run steps).acquire s r).1 = .deadlock ahead) ↔
      (run steps).holdsAll s r = false ∧
        ∃ x ∈ (run steps).conflictingHolders s r, ReflTransGen (run steps).Waits x s) ∧
    ∀ ahead, ((run steps).acquire s r).1 = .wait ahead →
      ∃ b, ((run steps).acquire s r).2.Queued s n ⟨s, r, b⟩ := by
  have h : (run steps).Coherent := coherent_empty.foldl_perform steps
  generalize run steps = l at *
  refine ⟨?_, deadlock_iff, ?_⟩
  · have hout := acquire_acquires l s r
    generalize (l.acquire s r).1 = verdict, (l.acquire s r).2 = after at hout
    cases hout with
    | held hall => exact iff_of_true (ha.withdraw h) nofun
    | free hmore hfree hpass =>
      exact iff_of_true (ha.grantNow h (h.grantable_iff.mpr hfree)) nofun
    | behind hmore hbusy hsafe =>
      rw [ha.enqueue_iff (b := false) h hmore hq hsafe]
      constructor
      · rintro hnone ahead ⟨⟩
        exact hnone
      · intro hnone
        exact hnone _ rfl
    | barging hmore hbusy hpass hsafe =>
      rw [ha.enqueue_iff (b := true) h hmore hq hsafe]
      constructor
      · rintro hnone ahead ⟨⟩
        exact hnone
      · intro hnone
        exact hnone _ rfl
    | refused hmore hpass hcycle => exact iff_of_true (ha.withdraw h) nofun
  · have hticket : l.ticketFor s = n := by simp [ticketFor, hq.1]
    have hafter : ∀ b, (l.enqueue s r b).Queued s n ⟨s, r, b⟩ := fun b =>
      h.queued_enqueue.mpr (Or.inr ⟨rfl, hticket.symm, rfl⟩)
    intro ahead hwait
    have hout := acquire_acquires l s r
    generalize (l.acquire s r).1 = verdict, (l.acquire s r).2 = after at hout hwait
    cases hout with
    | held hall => cases hwait
    | free hmore hfree hpass => cases hwait
    | behind hmore hbusy hsafe => exact ⟨false, hafter false⟩
    | barging hmore hbusy hpass hsafe => exact ⟨true, hafter true⟩
    | refused hmore hpass hcycle => cases hwait

/-- Sessions 1 and 3 wait for one table of 9 each, and 3 has a table too. -/
def twoWaiters : List LockStep :=
  [.acquire 9 (.write [1, 3]), .acquire 3 (.write [2]), .acquire 1 (.write [3]),
    .acquire 3 (.write [1])]

/-- Session 1 waits for 9 with its old request and with the new one, which holds up 3. -/
theorem changed_request_acyclic_iff_heldUp :
    (run twoWaiters).Acyclic ∧ (run twoWaiters).Queued 1 0 ⟨1, .write [3], false⟩ ∧
      ((run twoWaiters).acquire 1 (.write [1])).2.Acyclic := by
  have ha : (run twoWaiters).Acyclic := acyclic_empty.foldl_perform coherent_empty (by decide)
  have hq : (run twoWaiters).Queued 1 0 ⟨1, .write [3], false⟩ := by
    constructor <;> decide
  have hanswer : ((run twoWaiters).acquire 1 (.write [1])).1 = .wait (.ofList [9]) := by decide
  have hidle : (run twoWaiters).ticket.get? 9 = none := by decide
  refine ⟨ha, hq, (changed_request_acyclic_iff ha hq (.write [1])).1.mpr ?_⟩
  intro ahead hwait x hx y hy hpath
  rw [hanswer] at hwait
  cases hwait
  obtain rfl : y = 9 := by simpa using hy
  obtain ⟨m, v, hm, -⟩ := hx
  rcases hpath.cases_head with rfl | ⟨z, hz, -⟩
  · rw [hm.1] at hidle
    cases hidle
  · have hticket := hz.ticketed
    rw [hidle] at hticket
    cases hticket

/-- If session 1 asks for what 3 waits for and for what 3 has, they wait for each other. -/
theorem changed_request_closes_cycle :
    ¬∀ (steps : List LockStep) (s : SessionId) (n : Nat) (w : Waiter) (r : LockRequest),
      (run steps).Acyclic → (run steps).Queued s n w → w.request ≠ r →
        ((run steps).acquire s r).2.Acyclic := by
  intro hclaim
  have ha : (run twoWaiters).Acyclic := acyclic_empty.foldl_perform coherent_empty (by decide)
  have hq : (run twoWaiters).Queued 1 0 ⟨1, .write [3], false⟩ := by
    constructor <;> decide
  have hforth : ((run twoWaiters).acquire 1 (.write [1, 2])).2.Waits 1 3 := by
    unfold Waits
    decide
  have hback : ((run twoWaiters).acquire 1 (.write [1, 2])).2.Waits 3 1 := by
    unfold Waits
    decide
  exact hclaim _ 1 0 _ (.write [1, 2]) ha hq (by decide) 1 (.head hforth (.single hback))

end LockTable

end LockingDb
