import LockingDb.Proofs.NoWaitCycle

namespace LockingDb

namespace LockTable

open Relation

variable {l l' : LockTable} {s x y : SessionId} {n : Nat} {w : Waiter} {r : LockRequest} {b : Bool}
  {granted : List SessionId}

def Blocked (l : LockTable) (s : SessionId) : Prop := ∃ y, l.Waits s y

/-- Whoever waits has somebody to wait for. -/
def AllBlocked (l : LockTable) : Prop := ∀ s n w, l.Queued s n w → l.Blocked s

theorem Coherent.isFree_iff (h : l.Coherent) (hq : l.Queued s n w) :
    l.isFree n w = true ↔ ¬l.Blocked s := by
  have hs := h.session hq
  rw [isFree, hs, Bool.and_eq_true_iff, Bool.or_eq_true_iff, IdSet.isEmpty_iff, IdSet.isEmpty_iff]
  simp only [h.mem_conflictingHolders, h.mem_queuedAhead]
  constructor
  · rintro ⟨hholders, hahead⟩ ⟨y, hy⟩
    obtain ⟨hne, m, v, hm, hcause⟩ := h.waits_iff.mp hy
    obtain ⟨rfl, rfl⟩ := hq.unique hm
    rcases hcause with hbars | ⟨hb, hfront⟩
    · exact hholders y ⟨hne, hbars⟩
    · rcases hahead with hbarging | hnone
      · rw [hb] at hbarging
        cases hbarging
      · exact hnone y ⟨hne, hfront⟩
  · intro hfree
    refine ⟨fun y hy => hfree ⟨y, h.waits_iff.mpr ⟨hy.1, n, w, hq, Or.inl hy.2⟩⟩, ?_⟩
    cases hb : w.barging with
    | true => exact Or.inl rfl
    | false =>
      exact Or.inr fun y hy => hfree ⟨y, h.waits_iff.mpr ⟨hy.1, n, w, hq, Or.inr ⟨hb, hy.2⟩⟩⟩

/-- Who waits in front of a waiter that is granted goes on waiting for the same. -/
theorem Coherent.waits_grantNow (h : l.Coherent) (hg : l.Grantable s r) (hx : x ≠ s)
    (hq : l.Queued x n w) (hbehind : ∀ m v, l.Queued s m v → n < m) (hxy : l.Waits x y) :
    (l.grantNow s r).Waits x y := by
  obtain ⟨hne, m, v, hm, hcause⟩ := h.waits_iff.mp hxy
  obtain ⟨rfl, rfl⟩ := hq.unique hm
  refine (h.grantNow hg).waits_iff.mpr
    ⟨hne, n, w, (queued_grantNow h.toQueueAgrees).mpr ⟨hx, hq⟩, ?_⟩
  rcases hcause with hbars | ⟨hb, m, v, hm, hlt, hconflict⟩
  · exact Or.inl (keeps_grantNow.bars hbars)
  · refine Or.inr ⟨hb, m, v, (queued_grantNow h.toQueueAgrees).mpr ⟨?_, hm⟩, hlt, hconflict⟩
    rintro rfl
    have hlate := hbehind m v hm
    have hearly : m < n := by simpa using hlt
    omega

/-- One walk over the queue suffices: a grant frees nobody in front of the waiter it is made to. -/
theorem Coherent.allBlocked_promoteFrom (h : l.Coherent) {tickets : List Nat}
    (hsorted : tickets.Pairwise (· < ·))
    (hleft : ∀ x n w, l.Queued x n w → n ∈ tickets ∨ (l.Blocked x ∧ ∀ m ∈ tickets, n < m)) :
    (l.promoteFrom tickets).2.AllBlocked := by
  -- Who waits is either still to be visited, or has somebody to wait for and stands in front of all
  -- those who are still to be visited.
  induction tickets generalizing l with
  | nil =>
    intro x n w hq
    rcases hleft x n w hq with hn | ⟨hblocked, -⟩
    · cases hn
    · exact hblocked
  | cons n rest ih =>
    obtain ⟨hn, hrest⟩ := List.pairwise_cons.mp hsorted
    unfold LockTable.promoteFrom
    split
    next hnone =>
      refine ih h hrest fun x m v hm => ?_
      rcases hleft x m v hm with hmem | ⟨hblocked, hlt⟩
      · rcases List.mem_cons.mp hmem with rfl | hmem
        · rw [hm.2] at hnone
          cases hnone
        · exact Or.inl hmem
      · exact Or.inr ⟨hblocked, fun k hk => hlt k (List.mem_cons_of_mem n hk)⟩
    next w hw =>
      have hq := h.queued hw
      split
      next hfree =>
        have hg := h.grantable_of_isFree hfree
        -- Who leaves the queue here has stood behind all that were visited before.
        refine ih (h.grantNow hg) hrest fun x m v hm => ?_
        obtain ⟨hx, hm⟩ := (queued_grantNow h.toQueueAgrees).mp hm
        rcases hleft x m v hm with hmem | ⟨⟨y, hy⟩, hlt⟩
        · rcases List.mem_cons.mp hmem with rfl | hmem
          · exact absurd (h.same_session hm hq) hx
          · exact Or.inl hmem
        · refine Or.inr ⟨⟨y, h.waits_grantNow hg hx hm (fun k u hk => ?_) hy⟩,
            fun k hk => hlt k (List.mem_cons_of_mem n hk)⟩
          rw [(hk.unique hq).1]
          exact hlt n List.mem_cons_self
      next hbusy =>
        refine ih h hrest fun x m v hm => ?_
        rcases hleft x m v hm with hmem | ⟨hblocked, hlt⟩
        · rcases List.mem_cons.mp hmem with rfl | hmem
          · refine Or.inr ⟨?_, hn⟩
            rw [h.same_session hm hq]
            exact not_not.mp fun hnot => hbusy ((h.isFree_iff hq).mpr hnot)
          · exact Or.inl hmem
        · exact Or.inr ⟨hblocked, fun k hk => hlt k (List.mem_cons_of_mem n hk)⟩

theorem Coherent.allBlocked_promote (h : l.Coherent) : l.promote.2.AllBlocked := by
  refine h.allBlocked_promoteFrom l.queue.increasing fun x n w hq => Or.inl ?_
  exact IdMap.mem_keys.mpr (by simp [hq.2])

theorem Promotes.queued (hp : Promotes l granted l') (h : l.Coherent) (hq : l'.Queued x n w) :
    l.Queued x n w := by
  induction hp with
  | done => exact hq
  | grant hw hfree _ ih =>
    have hbefore := ih (h.grantNow (h.grantable_of_isFree hfree)) hq
    exact ((queued_grantNow h.toQueueAgrees).mp hbefore).2

theorem Promotes.keeps (hp : Promotes l granted l') : Keeps x l l' := by
  induction hp with
  | done => exact .refl x _
  | grant hw hfree _ ih => exact keeps_grantNow.trans ih

theorem AllBlocked.of_more (hb : l.AllBlocked) (h : l.Coherent) (h' : l'.Coherent)
    (hqueue : ∀ x n w, l'.Queued x n w ↔ l.Queued x n w) (hkeeps : ∀ x, Keeps x l l') :
    l'.AllBlocked := by
  intro x n w hq
  obtain ⟨y, hy⟩ := hb x n w ((hqueue x n w).mp hq)
  exact ⟨y, h'.waits_of_less h (fun x n w => (hqueue x n w).mpr) (hkeeps y) hy⟩

/-- Nobody waits for itself, and nobody waits for nothing. -/
structure Settled (l : LockTable) : Prop extends Coherent l where
  acyclic : l.Acyclic
  allBlocked : l.AllBlocked

theorem settled_empty : empty.Settled :=
  ⟨coherent_empty, acyclic_empty, fun s n w hq => by cases hq.1⟩

theorem Coherent.settled_promote (h : l.Coherent) (ha : l.Acyclic) : l.promote.2.Settled :=
  ⟨h.promotes promote_promotes, ha.promotes promote_promotes h, h.allBlocked_promote⟩

theorem Settled.of_same (h : l.Settled) (h' : l'.Coherent)
    (hqueue : ∀ x n w, l'.Queued x n w ↔ l.Queued x n w) (hmode : ∀ x t, l'.mode? x t = l.mode? x t) :
    l'.Settled where
  toCoherent := h'
  acyclic := h.acyclic.of_less h.toCoherent h' (fun x n w => (hqueue x n w).mp)
    (fun x => keeps_of_eq fun t => (hmode x t).symm)
  allBlocked := h.allBlocked.of_more h.toCoherent h' hqueue (fun x => keeps_of_eq fun t => hmode x t)

theorem QueueAgrees.queued_withdraw_of_new (h : l.QueueAgrees) (hnew : ∀ n w, ¬l.Queued s n w) :
    (l.withdraw s).2.Queued x n w ↔ l.Queued x n w := by
  rw [h.queued_withdraw]
  refine ⟨fun hq => hq.2, fun hq => ⟨?_, hq⟩⟩
  rintro rfl
  exact hnew n w hq

theorem Settled.withdraw_of_new (h : l.Settled) (hnew : ∀ n w, ¬l.Queued s n w) :
    (l.withdraw s).2.Settled :=
  h.of_same h.toCoherent.withdraw (fun _ _ _ => h.queued_withdraw_of_new hnew)
    (fun _ _ => mode?_withdraw)

theorem mode?_eq_none_of_releaseAll (hzero : (l.releaseAll s).1 = 0) (t : TableId) :
    l.mode? s t = none := by
  rw [mode?_def]
  unfold releaseAll at hzero
  cases hheld : l.held.get? s with
  | none => rfl
  | some locks =>
    have hempty : locks.entries = [] := by simpa [hheld, IdMap.size] using hzero
    simp [IdMap.get?, hempty, IdMap.find]

theorem Settled.releaseAll_of_zero (h : l.Settled) (hzero : (l.releaseAll s).1 = 0) :
    (l.releaseAll s).2.Settled := by
  refine h.of_same h.toCoherent.releaseAll (fun _ _ _ => queued_congr releaseAll_line) (fun x t => ?_)
  rw [mode?_releaseAll]
  split
  next hx => rw [hx, mode?_eq_none_of_releaseAll hzero]
  next => rfl

theorem Settled.releaseShared_of_zero (h : l.Settled) {tables : List TableId}
    (hzero : (l.releaseShared s tables).1 = 0) : (l.releaseShared s tables).2.Settled := by
  have hnone : ∀ t ∈ tables, l.mode? s t ≠ some .shared := by
    simpa [releaseShared, IdSet.mem_toList] using hzero
  refine h.of_same h.toCoherent.releaseShared (fun _ _ _ => queued_congr releaseShared_line)
    (fun x t => ?_)
  rw [mode?_releaseShared, if_neg (fun hc => hnone t hc.2.1 hc.2.2)]

theorem Settled.grantNow_of_new (h : l.Settled) (hnew : ∀ n w, ¬l.Queued s n w)
    (hg : l.Grantable s r) : (l.grantNow s r).Settled where
  toCoherent := h.toCoherent.grantNow hg
  acyclic := h.acyclic.grantNow h.toCoherent hg
  allBlocked := by
    refine h.allBlocked.of_more h.toCoherent (h.toCoherent.grantNow hg) (fun x n w => ?_)
      (fun x => keeps_grantNow)
    exact (queued_congr grant_line).trans (h.queued_withdraw_of_new hnew)

theorem Settled.enqueue (h : l.Settled) (hmore : l.holdsAll s r = false)
    (hsame : ∀ q ∈ l.awaited? s, q = r) (hbusy : (l.behind s r b).isEmpty = false)
    (hsafe : l.wouldDeadlock s (l.behind s r b) = false) : (l.enqueue s r b).Settled where
  toCoherent := h.toCoherent.enqueue hmore
  acyclic := h.acyclic.enqueue h.toCoherent hmore hsame hsafe
  allBlocked x n w hq := by
    by_cases hx : x = s
    · have hsome : ∃ y, y ∈ l.behind s r b := by
        simpa [IdSet.isEmpty_iff] using Bool.eq_false_iff.mp hbusy
      obtain ⟨y, hy⟩ := hsome
      rw [hx]
      exact ⟨y, (h.waits_enqueue_self hmore).mpr hy⟩
    · obtain ⟨-, hold⟩ | ⟨hxs, -⟩ := h.queued_enqueue.mp hq
      · obtain ⟨y, hy⟩ := h.allBlocked x n w hold
        exact ⟨y, (h.waits_enqueue_of_ne hmore hsame hx).mpr hy⟩
      · exact absurd hxs hx

/-- A waiter that asks again is not granted: it would have been before. -/
theorem Settled.not_free_of_queued (h : l.Settled) (hq : l.Queued s n w)
    (hfree : (l.conflictingHolders s w.request).isEmpty = true)
    (hpass : (l.obstacles s w.request).isEmpty = true ∨
      l.wouldDeadlock s (l.obstacles s w.request) = true) : False := by
  have hholders := IdSet.isEmpty_iff.mp hfree
  obtain ⟨y, hy⟩ := h.allBlocked s n w hq
  obtain ⟨hne, m, v, hm, hcause⟩ := h.waits_iff.mp hy
  obtain ⟨rfl, rfl⟩ := hq.unique hm
  rcases hcause with hbars | ⟨hb, hahead⟩
  · exact hholders y (h.mem_conflictingHolders.mpr ⟨hne, hbars⟩)
  have hedge : ∀ z, z ∈ l.obstacles s w.request → l.Waits s z := by
    intro z hz
    rcases IdSet.mem_union.mp hz with hz | hz
    · exact absurd hz (hholders z)
    · obtain ⟨hne, hahead⟩ := h.mem_queuedAhead.mp hz
      rw [hq.1] at hahead
      exact h.waits_iff.mpr ⟨hne, n, w, hq, Or.inr ⟨hb, hahead⟩⟩
  rcases hpass with hempty | hcycle
  · refine IdSet.isEmpty_iff.mp hempty y (IdSet.mem_union.mpr (Or.inr ?_))
    exact h.mem_queuedAhead.mpr ⟨hne, by rwa [hq.1]⟩
  · obtain ⟨z, hz, hzs⟩ := wouldDeadlock_iff_reaches.mp hcycle
    exact h.acyclic s (TransGen.head' (hedge z hz) hzs)

theorem awaited?_eq_some {q : LockRequest} :
    l.awaited? s = some q ↔ ∃ n w, l.Queued s n w ∧ w.request = q := by
  constructor
  · intro ha
    obtain ⟨w, hw, hr⟩ := Option.map_eq_some_iff.mp ha
    obtain ⟨n, hn, hw⟩ := Option.bind_eq_some_iff.mp hw
    exact ⟨n, w, ⟨hn, hw⟩, hr⟩
  · rintro ⟨n, w, hq, rfl⟩
    exact hq.awaited

/-- A refused request may leave somebody free that has waited behind it. No other answer does. -/
theorem Settled.acquire (h : l.Settled) (hsame : ∀ q ∈ l.awaited? s, q = r) :
    (∀ ahead, (l.acquire s r).1 ≠ .deadlock ahead) → (l.acquire s r).2.Settled := by
  have hout := acquire_acquires l s r
  have hwaiting : ∀ n w, l.Queued s n w → w.request = r := fun n w hq =>
    hsame w.request (by simp [hq.awaited])
  generalize (l.acquire s r).1 = verdict, (l.acquire s r).2 = after at hout
  intro hverdict
  cases hout with
  | held hall =>
    refine h.withdraw_of_new fun n w hq => ?_
    have hmore := h.unserved s n w hq
    rw [hwaiting n w hq, hall] at hmore
    cases hmore
  | free hmore hfree hpass =>
    refine h.grantNow_of_new (fun n w hq => ?_) (h.grantable_iff.mpr hfree)
    obtain rfl := hwaiting n w hq
    exact h.not_free_of_queued hq hfree hpass
  | behind hmore hbusy hsafe => exact h.enqueue hmore hsame hbusy hsafe
  | barging hmore hbusy hpass hsafe => exact h.enqueue hmore hsame hbusy hsafe
  | refused hmore hpass hcycle => exact absurd rfl (hverdict _)

end LockTable

end LockingDb
