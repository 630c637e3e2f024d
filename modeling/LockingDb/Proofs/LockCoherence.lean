import LockingDb.Proofs.WaitQueue

namespace LockingDb

/-- A call on the lock table. -/
inductive LockStep where
  | acquire (s : SessionId) (r : LockRequest)
  | withdraw (s : SessionId)
  | releaseAll (s : SessionId)
  | releaseShared (s : SessionId) (tables : List TableId)
  | promote
  deriving DecidableEq

namespace LockTable

def perform (l : LockTable) : LockStep → LockTable
  | .acquire s r => (l.acquire s r).2
  | .withdraw s => (l.withdraw s).2
  | .releaseAll s => (l.releaseAll s).2
  | .releaseShared s tables => (l.releaseShared s tables).2
  | .promote => l.promote.2

/-- The lock table after some calls, starting without locks. -/
def run (steps : List LockStep) : LockTable := steps.foldl perform empty

/-- The maps of the lock table say the same, and who waits does not have what it waits for. -/
structure Coherent (l : LockTable) : Prop extends HoldersAgree l, QueueAgrees l where
  unserved : ∀ s n w, l.Queued s n w → l.holdsAll s w.request = false

variable {l l' : LockTable} {s x : SessionId} {n : Nat} {w : Waiter} {r : LockRequest} {b : Bool}

/-- All that a request waits behind, if it does not pass those queued in front of it. -/
def obstacles (l : LockTable) (s : SessionId) (r : LockRequest) : IdSet :=
  l.conflictingHolders s r ∪ l.queuedAhead s r (l.ticket.get? s)

/-- The ways in which a request is answered. -/
inductive Acquires (l : LockTable) (s : SessionId) (r : LockRequest) : Verdict → LockTable → Prop where
  | held (hall : l.holdsAll s r = true) : Acquires l s r .granted (l.withdraw s).2
  | free (hmore : l.holdsAll s r = false) (hfree : (l.conflictingHolders s r).isEmpty = true)
      (hpass : (l.obstacles s r).isEmpty = true ∨ l.wouldDeadlock s (l.obstacles s r) = true) :
      Acquires l s r .granted (l.grantNow s r)
  | behind (hmore : l.holdsAll s r = false) (hbusy : (l.obstacles s r).isEmpty = false)
      (hsafe : l.wouldDeadlock s (l.obstacles s r) = false) :
      Acquires l s r (.wait (l.obstacles s r)) (l.enqueue s r false)
  | barging (hmore : l.holdsAll s r = false) (hbusy : (l.conflictingHolders s r).isEmpty = false)
      (hpass : l.wouldDeadlock s (l.obstacles s r) = true)
      (hsafe : l.wouldDeadlock s (l.conflictingHolders s r) = false) :
      Acquires l s r (.wait (l.conflictingHolders s r)) (l.enqueue s r true)
  | refused (hmore : l.holdsAll s r = false) (hpass : l.wouldDeadlock s (l.obstacles s r) = true)
      (hcycle : l.wouldDeadlock s (l.conflictingHolders s r) = true) :
      Acquires l s r (.deadlock (l.obstacles s r)) (l.withdraw s).2

theorem acquire_acquires (l : LockTable) (s : SessionId) (r : LockRequest) :
    Acquires l s r (l.acquire s r).1 (l.acquire s r).2 := by
  unfold acquire
  split
  next hall => exact .held hall
  next hmore =>
    have hmore : l.holdsAll s r = false := Bool.eq_false_iff.mpr hmore
    dsimp only
    split
    next hempty =>
      refine .free hmore ?_ (Or.inl hempty)
      have hnone := IdSet.isEmpty_iff.mp hempty
      exact IdSet.isEmpty_iff.mpr fun x hx => hnone x (IdSet.mem_union.mpr (Or.inl hx))
    next hbusy =>
      have hbusy : (l.obstacles s r).isEmpty = false := Bool.eq_false_iff.mpr hbusy
      split
      next hsafe => exact .behind hmore hbusy (by simpa [obstacles] using hsafe)
      next hpass =>
        have hpass : l.wouldDeadlock s (l.obstacles s r) = true := by simpa [obstacles] using hpass
        split
        next hcycle => exact .refused hmore hpass hcycle
        next hsafe =>
          have hsafe := Bool.eq_false_iff.mpr hsafe
          split
          next hfree => exact .free hmore hfree (Or.inr hpass)
          next hheld => exact .barging hmore (Bool.eq_false_iff.mpr hheld) hpass hsafe

/-- Waiters are granted one after another, each free when its turn comes. -/
inductive Promotes : LockTable → List SessionId → LockTable → Prop where
  | done {l : LockTable} : Promotes l [] l
  | grant {l l' : LockTable} {n : Nat} {w : Waiter} {granted : List SessionId}
      (hw : l.queue.get? n = some w) (hfree : l.isFree n w = true)
      (rest : Promotes (l.grantNow w.session w.request) granted l') :
      Promotes l (w.session :: granted) l'

theorem promoteFrom_promotes (tickets : List Nat) :
    Promotes l (l.promoteFrom tickets).1 (l.promoteFrom tickets).2 := by
  induction tickets generalizing l with
  | nil => exact .done
  | cons n rest ih =>
    unfold promoteFrom
    split
    next => exact ih
    next w hw =>
      split
      next hfree => exact .grant hw hfree ih
      next => exact ih

theorem promote_promotes : Promotes l l.promote.1 l.promote.2 := promoteFrom_promotes _

theorem holdsAll_eq_false_of_keeps (h : Keeps s l' l) (hall : l.holdsAll s r = false) :
    l'.holdsAll s r = false := by
  cases hl : l'.holdsAll s r with
  | false => rfl
  | true => exact absurd (h.holdsAll hl) (by simp [hall])

theorem Coherent.withdraw (h : l.Coherent) : (l.withdraw s).2.Coherent where
  toHoldersAgree := h.toHoldersAgree.withdraw
  toQueueAgrees := h.toQueueAgrees.withdraw
  unserved x n w hq := by
    refine holdsAll_eq_false_of_keeps (keeps_of_eq fun t => mode?_withdraw.symm) ?_
    exact h.unserved x n w (h.queued_withdraw.mp hq).2

theorem Coherent.enqueue (h : l.Coherent) (hmore : l.holdsAll s r = false) :
    (l.enqueue s r b).Coherent where
  toHoldersAgree := h.toHoldersAgree.enqueue
  toQueueAgrees := h.toQueueAgrees.enqueue
  unserved x n w hq := by
    refine holdsAll_eq_false_of_keeps (keeps_of_eq fun t => mode?_enqueue.symm) ?_
    rcases h.queued_enqueue.mp hq with ⟨-, hq⟩ | ⟨rfl, -, rfl⟩
    · exact h.unserved x n w hq
    · exact hmore

theorem queued_grantNow (h : l.QueueAgrees) :
    (l.grantNow s r).Queued x n w ↔ x ≠ s ∧ l.Queued x n w :=
  (queued_congr grant_line).trans h.queued_withdraw

theorem mode?_grantNow_of_ne {u : TableId} (hx : x ≠ s) :
    (l.grantNow s r).mode? x u = l.mode? x u :=
  (mode?_grant_of_ne hx).trans mode?_withdraw

theorem keeps_grantNow : Keeps x l (l.grantNow s r) :=
  (keeps_of_eq fun _ => mode?_withdraw).trans keeps_grant

theorem Coherent.grantNow (h : l.Coherent) (hg : l.Grantable s r) : (l.grantNow s r).Coherent where
  toHoldersAgree := h.toHoldersAgree.withdraw.grant fun x hx hb =>
    hg x hx ((keeps_of_eq fun _ => mode?_withdraw.symm).bars hb)
  toQueueAgrees := h.toQueueAgrees.withdraw.congr grant_line
  unserved x n w hq := by
    obtain ⟨hx, hq⟩ := (queued_grantNow h.toQueueAgrees).mp hq
    refine holdsAll_eq_false_of_keeps (keeps_of_eq fun t => (mode?_grantNow_of_ne hx).symm) ?_
    exact h.unserved x n w hq

theorem Coherent.releaseAll (h : l.Coherent) : (l.releaseAll s).2.Coherent where
  toHoldersAgree := h.toHoldersAgree.releaseAll
  toQueueAgrees := h.toQueueAgrees.congr releaseAll_line
  unserved x n w hq :=
    holdsAll_eq_false_of_keeps keeps_before_releaseAll
      (h.unserved x n w ((queued_congr releaseAll_line).mp hq))

theorem Coherent.releaseShared {tables : List TableId} (h : l.Coherent) :
    (l.releaseShared s tables).2.Coherent where
  toHoldersAgree := h.toHoldersAgree.releaseShared
  toQueueAgrees := h.toQueueAgrees.congr releaseShared_line
  unserved x n w hq :=
    holdsAll_eq_false_of_keeps keeps_before_releaseShared
      (h.unserved x n w ((queued_congr releaseShared_line).mp hq))

theorem Coherent.acquire (h : l.Coherent) : (l.acquire s r).2.Coherent := by
  have hout := acquire_acquires l s r
  generalize (l.acquire s r).1 = verdict, (l.acquire s r).2 = after at hout
  cases hout with
  | held hall => exact h.withdraw
  | free hmore hfree hpass => exact h.grantNow (h.grantable_iff.mpr hfree)
  | behind hmore hbusy hsafe => exact h.enqueue hmore
  | barging hmore hbusy hpass hsafe => exact h.enqueue hmore
  | refused hmore hpass hcycle => exact h.withdraw

theorem Coherent.grantable_of_isFree (h : l.Coherent) (hfree : l.isFree n w = true) :
    l.Grantable w.session w.request :=
  h.grantable_iff.mpr (Bool.and_eq_true_iff.mp hfree).1

theorem Coherent.promotes {granted : List SessionId} (hp : Promotes l granted l') (h : l.Coherent) :
    l'.Coherent := by
  induction hp with
  | done => exact h
  | grant hw hfree _ ih => exact ih (h.grantNow (h.grantable_of_isFree hfree))

theorem Coherent.perform (h : l.Coherent) (k : LockStep) : (l.perform k).Coherent := by
  cases k with
  | acquire s r => exact h.acquire
  | withdraw s => exact h.withdraw
  | releaseAll s => exact h.releaseAll
  | releaseShared s tables => exact h.releaseShared
  | promote => exact h.promotes promote_promotes

theorem coherent_empty : empty.Coherent where
  writer_iff _ _ := ⟨nofun, nofun⟩
  reader_iff _ _ := ⟨nofun, nofun⟩
  reader_exists := nofun
  writer_alone := nofun
  ticket_iff _ _ := ⟨nofun, nofun⟩
  ticket_lt := nofun
  unserved := nofun

theorem Coherent.foldl_perform (h : l.Coherent) (steps : List LockStep) :
    (steps.foldl LockTable.perform l).Coherent :=
  List.foldlRecOn (motive := Coherent) _ _ h (fun _ hl k _ => hl.perform k)

theorem QueueAgrees.nodup_waitingSessions (h : l.QueueAgrees) : l.waitingSessions.Nodup := by
  have hentries : l.queue.entries.Pairwise (fun d e => d.1 < e.1) :=
    List.pairwise_map.mp l.queue.increasing
  have hsessions : l.waitingSessions = l.queue.entries.map (fun e => e.2.session) := by
    simp [waitingSessions, IdMap.values, List.map_map, Function.comp_def]
  rw [hsessions]
  refine List.pairwise_map.mpr (hentries.imp_of_mem fun {d e} hd he hlt hsame => ?_)
  have hqd := h.queued (IdMap.mem_entries.mp hd)
  have hqe := h.queued (IdMap.mem_entries.mp he)
  rw [hsame] at hqd
  have heq := (hqd.unique hqe).1
  omega

theorem HoldersAgree.holders_of_writer (h : l.HoldersAgree) {t : TableId}
    (hs : (s, .exclusive) ∈ l.holders t) : l.holders t = [(s, .exclusive)] := by
  have hwriter : l.writer.get? t = some s := by
    simpa [LockTable.holders, eq_comm] using hs
  have hmode := (h.writer_iff t s).mp hwriter
  have hreaders : l.readersOf t = ∅ := by
    ext x
    simp only [IdSet.not_mem_empty, iff_false]
    intro hx
    have hshared := (h.reader_iff t x).mp hx
    by_cases hxs : x = s
    · rw [hxs, hmode] at hshared
      cases hshared
    · rw [h.writer_alone t s x hmode hxs] at hshared
      cases hshared
  simp only [LockTable.holders, hwriter, hreaders]
  rfl

/-- Whatever is asked of the lock table, its maps say the same, nobody waits twice or for locks that
it has, and a table with a writer has no other holder. -/
theorem coherent_run (steps : List LockStep) :
    (run steps).Coherent ∧ (run steps).waitingSessions.Nodup ∧
      ∀ t s, (s, .exclusive) ∈ (run steps).holders t → (run steps).holders t = [(s, .exclusive)] := by
  have h : (run steps).Coherent := coherent_empty.foldl_perform steps
  exact ⟨h, h.nodup_waitingSessions, fun _ _ hs => h.holders_of_writer hs⟩

end LockTable

end LockingDb
