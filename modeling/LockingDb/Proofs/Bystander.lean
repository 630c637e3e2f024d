import LockingDb.Commit
import LockingDb.Proofs.Promotion
import LockingDb.StatementLocks
import LockingDb.StatementSteps
import Mathlib.Order.Nat

namespace LockingDb

namespace LockTable

variable {l l' l₂ : LockTable} {s x : SessionId} {n : Nat} {w : Waiter} {r : LockRequest}
  {b : Bool} {granted : List SessionId} {t : TableId} {m : LockMode}

/-- The session has gained no lock from `l` to `l'` but what it waited for. -/
def GainsAwaited (x : SessionId) (l l' : LockTable) : Prop :=
  ∀ t m, l'.mode? x t = some m → l.mode? x t = some m ∨
    ∃ n w, l.Queued x n w ∧ (m = .shared → t ∈ w.request.reads)

theorem gainsAwaited_of_eq (h : ∀ t, l'.mode? x t = l.mode? x t) : GainsAwaited x l l' :=
  fun t _ hm => Or.inl ((h t).symm.trans hm)

/-- What a session sees of the work of others: it keeps its locks, and it waits on unless it gets
all that it waits for. -/
structure Spares (x : SessionId) (l l' : LockTable) : Prop where
  keeps : Keeps x l l'
  coherent : l.Coherent → l'.Coherent
  queued : l.Coherent → ∀ n w, l'.Queued x n w → l.Queued x n w
  served : l.Coherent → ∀ n w, l.Queued x n w → l'.Queued x n w ∨ l'.holdsAll x w.request = true
  gains : l.Coherent → GainsAwaited x l l'

theorem Spares.refl (x : SessionId) (l : LockTable) : Spares x l l :=
  ⟨.refl x l, id, fun _ _ _ hq => hq, fun _ _ _ hq => Or.inl hq, fun _ => gainsAwaited_of_eq fun _ => rfl⟩

theorem Spares.trans (h : Spares x l l') (h₂ : Spares x l' l₂) : Spares x l l₂ where
  keeps := h.keeps.trans h₂.keeps
  coherent hl := h₂.coherent (h.coherent hl)
  queued hl n w hq := h.queued hl n w (h₂.queued (h.coherent hl) n w hq)
  served hl n w hq := by
    rcases h.served hl n w hq with hq | hall
    · exact h₂.served (h.coherent hl) n w hq
    · exact Or.inr (h₂.keeps.holdsAll hall)
  gains hl t m hm := by
    rcases h₂.gains (h.coherent hl) t m hm with hm | ⟨n, w, hq, hread⟩
    · exact h.gains hl t m hm
    · exact Or.inr ⟨n, w, h.queued hl n w hq, hread⟩

/-- A session that does not wait has the locks that it had. -/
theorem Spares.mode?_eq_some (h : Spares x l l') (hl : l.Coherent) (hout : l.isWaiting x = false)
    {t : TableId} {m : LockMode} (hm : l'.mode? x t = some m) : l.mode? x t = some m := by
  rcases h.gains hl t m hm with hm | ⟨n, w, hq, -⟩
  · exact hm
  · exact absurd hq (hl.isWaiting_eq_false.mp hout n w)

theorem Spares.not_waiting (h : Spares x l l') (hl : l.Coherent) (hout : l.isWaiting x = false) :
    l'.isWaiting x = false :=
  (h.coherent hl).isWaiting_eq_false.mpr fun n w hq =>
    hl.isWaiting_eq_false.mp hout n w (h.queued hl n w hq)

theorem isWaiting_of_line (h : l'.line = l.line) : l'.isWaiting x = l.isWaiting x := by
  have hticket : l'.ticket = l.ticket := congrArg (fun line => line.2.1) h
  rw [isWaiting, hticket, isWaiting]

theorem isWaiting_congr (h : l.QueueAgrees) (h' : l'.QueueAgrees)
    (hsame : ∀ n w, l'.Queued x n w ↔ l.Queued x n w) : l'.isWaiting x = l.isWaiting x := by
  refine Bool.eq_iff_iff.mpr ?_
  rw [h.isWaiting_iff, h'.isWaiting_iff]
  simp only [hsame]

theorem Coherent.isWaiting_withdraw (h : l.Coherent) (hx : x ≠ s) :
    (l.withdraw s).2.isWaiting x = l.isWaiting x :=
  isWaiting_congr h.toQueueAgrees h.withdraw.toQueueAgrees fun _ _ =>
    h.queued_withdraw.trans (and_iff_right hx)

theorem spares_withdraw (hx : x ≠ s) : Spares x l (l.withdraw s).2 where
  keeps := keeps_of_eq fun _ => mode?_withdraw
  coherent h := h.withdraw
  queued h _ _ hq := (h.queued_withdraw.mp hq).2
  served h _ _ hq := Or.inl (h.queued_withdraw.mpr ⟨hx, hq⟩)
  gains _ := gainsAwaited_of_eq fun _ => mode?_withdraw

theorem spares_releaseAll (hx : x ≠ s) : Spares x l (l.releaseAll s).2 where
  keeps := keeps_releaseAll hx
  coherent h := h.releaseAll
  queued _ _ _ := (queued_congr releaseAll_line).mp
  served _ _ _ hq := Or.inl ((queued_congr releaseAll_line).mpr hq)
  gains _ := gainsAwaited_of_eq fun _ => by rw [mode?_releaseAll, if_neg hx]

theorem spares_releaseShared (hx : x ≠ s) {tables : List TableId} :
    Spares x l (l.releaseShared s tables).2 where
  keeps := keeps_releaseShared hx
  coherent h := h.releaseShared
  queued _ _ _ := (queued_congr releaseShared_line).mp
  served _ _ _ hq := Or.inl ((queued_congr releaseShared_line).mpr hq)
  gains _ := gainsAwaited_of_eq fun _ => by rw [mode?_releaseShared, if_neg fun hc => hx hc.1]

theorem holdsAll_grantNow : (l.grantNow s r).holdsAll s r = true := holdsAll_grant

theorem Promotes.served (hp : Promotes l granted l') (h : l.Coherent) (hq : l.Queued x n w) :
    l'.Queued x n w ∨ l'.holdsAll x w.request = true := by
  induction hp with
  | done => exact Or.inl hq
  | @grant l l' m v granted hv hfree rest ih =>
    by_cases hx : x = v.session
    · have hm := h.queued hv
      rw [← hx] at hm
      obtain ⟨-, rfl⟩ := hq.unique hm
      refine Or.inr (rest.keeps.holdsAll ?_)
      rw [hx]
      exact holdsAll_grantNow
    · have hafter : (l.grantNow v.session v.request).Queued x n w :=
        (queued_grantNow h.toQueueAgrees).mpr ⟨hx, hq⟩
      exact ih (h.grantNow (h.grantable_of_isFree hfree)) hafter

theorem gains_grantNow : (l.grantNow s r).mode? s t = some m →
    l.mode? s t = some m ∨ (m = .shared → t ∈ r.reads) := by
  intro hm
  unfold grantNow at hm
  rw [mode?_grant_self] at hm
  split at hm
  next =>
    cases hm
    exact Or.inr nofun
  next =>
    split at hm
    next hread => exact Or.inr fun _ => hread.1
    next => exact Or.inl (mode?_withdraw.symm.trans hm)

theorem Promotes.gains (hp : Promotes l granted l') (h : l.Coherent) : GainsAwaited x l l' := by
  induction hp with
  | done => exact gainsAwaited_of_eq fun _ => rfl
  | @grant l l' k v granted hv hfree rest ih =>
    intro t m hm
    have hqueued := h.queued hv
    rcases ih (h.grantNow (h.grantable_of_isFree hfree)) t m hm with hm | ⟨n, w, hq, hread⟩
    · by_cases hx : x = v.session
      · subst hx
        exact (gains_grantNow hm).imp_right fun hread => ⟨k, v, hqueued, hread⟩
      · exact Or.inl ((mode?_grantNow_of_ne hx).symm.trans hm)
    · exact Or.inr ⟨n, w, ((queued_grantNow h.toQueueAgrees).mp hq).2, hread⟩

/-- Each waiter that is granted leaves the queue, and nobody is granted twice. -/
theorem Promotes.granted_once (hp : Promotes l granted l') (h : l.Coherent) : granted.Nodup ∧
    ∀ x, x ∈ granted ↔ l.isWaiting x = true ∧ l'.isWaiting x = false := by
  induction hp with
  | done => exact ⟨.nil, fun x => ⟨nofun, fun ⟨hin, hout⟩ => by rw [hin] at hout; cases hout⟩⟩
  | @grant l l' k v granted hv hfree rest ih =>
    have hafter := h.grantNow (h.grantable_of_isFree hfree)
    obtain ⟨hnodup, hgranted⟩ := ih hafter
    have hin : l.isWaiting v.session = true := h.isWaiting_iff.mpr ⟨k, v, h.queued hv⟩
    have hout : (l.grantNow v.session v.request).isWaiting v.session = false :=
      hafter.isWaiting_eq_false.mpr fun n w hq =>
        ((queued_grantNow h.toQueueAgrees).mp hq).1 rfl
    have hleft : l'.isWaiting v.session = false :=
      (hafter.promotes rest).isWaiting_eq_false.mpr fun n w hq =>
        hafter.isWaiting_eq_false.mp hout n w (rest.queued hafter hq)
    refine ⟨List.nodup_cons.mpr ⟨fun hmem => ?_, hnodup⟩, fun x => ?_⟩
    · rw [((hgranted _).mp hmem).1] at hout
      cases hout
    · rw [List.mem_cons, hgranted]
      by_cases hx : x = v.session
      · subst hx
        exact ⟨fun _ => ⟨hin, hleft⟩, fun _ => Or.inl rfl⟩
      · have hsame : (l.grantNow v.session v.request).isWaiting x = l.isWaiting x :=
          isWaiting_congr h.toQueueAgrees hafter.toQueueAgrees fun n w =>
            (queued_grantNow h.toQueueAgrees).trans (and_iff_right hx)
        rw [hsame]
        exact or_iff_right hx

theorem spares_promote : Spares x l l.promote.2 where
  keeps := promote_promotes.keeps
  coherent h := h.promotes promote_promotes
  queued h _ _ hq := promote_promotes.queued h hq
  served h _ _ hq := promote_promotes.served h hq
  gains h := promote_promotes.gains h

theorem spares_grantNow (hx : x ≠ s) (hfree : (l.conflictingHolders s r).isEmpty = true) :
    Spares x l (l.grantNow s r) where
  keeps := keeps_grantNow
  coherent h := h.grantNow (h.grantable_iff.mpr hfree)
  queued h _ _ hq := ((queued_grantNow h.toQueueAgrees).mp hq).2
  served h _ _ hq := Or.inl ((queued_grantNow h.toQueueAgrees).mpr ⟨hx, hq⟩)
  gains _ := gainsAwaited_of_eq fun _ => mode?_grantNow_of_ne hx

theorem spares_enqueue (hx : x ≠ s) (hmore : l.holdsAll s r = false) :
    Spares x l (l.enqueue s r b) where
  keeps := keeps_of_eq fun _ => mode?_enqueue
  coherent h := h.enqueue hmore
  queued h _ _ hq := (h.queued_enqueue.mp hq).elim And.right fun hs => absurd hs.1 hx
  served h _ _ hq := Or.inl (h.queued_enqueue.mpr (Or.inl ⟨hx, hq⟩))
  gains _ := gainsAwaited_of_eq fun _ => mode?_enqueue

theorem spares_acquire (hx : x ≠ s) : Spares x l (l.acquire s r).2 := by
  have hout := acquire_acquires l s r
  generalize (l.acquire s r).1 = verdict, (l.acquire s r).2 = after at hout
  cases hout with
  | held hall => exact spares_withdraw hx
  | free hmore hfree hpass => exact spares_grantNow hx hfree
  | behind hmore hbusy hsafe => exact spares_enqueue hx hmore
  | barging hmore hbusy hpass hsafe => exact spares_enqueue hx hmore
  | refused hmore hpass hcycle => exact spares_withdraw hx

/-- A request that is answered leaves the other sessions where they are in the queue. -/
theorem Coherent.queued_acquire_of_ne (h : l.Coherent) (hx : x ≠ s) :
    (l.acquire s r).2.Queued x n w ↔ l.Queued x n w := by
  have hout := acquire_acquires l s r
  generalize (l.acquire s r).1 = verdict, (l.acquire s r).2 = after at hout
  have henqueue (b : Bool) : (l.enqueue s r b).Queued x n w ↔ l.Queued x n w := by
    rw [h.queued_enqueue]
    exact ⟨fun hq => hq.elim And.right fun hs => absurd hs.1 hx, fun hq => Or.inl ⟨hx, hq⟩⟩
  cases hout with
  | held hall => exact h.queued_withdraw.trans (and_iff_right hx)
  | free hmore hfree hpass => exact (queued_grantNow h.toQueueAgrees).trans (and_iff_right hx)
  | behind hmore hbusy hsafe => exact henqueue false
  | barging hmore hbusy hpass hsafe => exact henqueue true
  | refused hmore hpass hcycle => exact h.queued_withdraw.trans (and_iff_right hx)

theorem isWaiting_acquire (h : l.Coherent) (hx : x ≠ s) :
    (l.acquire s r).2.isWaiting x = l.isWaiting x :=
  isWaiting_congr h.toQueueAgrees h.acquire.toQueueAgrees fun _ _ => h.queued_acquire_of_ne hx

/-- A request that is answered changes no locks of the other sessions. -/
theorem mode?_acquire_of_ne (hx : x ≠ s) : (l.acquire s r).2.mode? x t = l.mode? x t := by
  have hout := acquire_acquires l s r
  generalize (l.acquire s r).1 = verdict, (l.acquire s r).2 = after at hout
  cases hout with
  | held hall => exact mode?_withdraw
  | free hmore hfree hpass => exact mode?_grantNow_of_ne hx
  | behind hmore hbusy hsafe => exact mode?_enqueue
  | barging hmore hbusy hpass hsafe => exact mode?_enqueue
  | refused hmore hpass hcycle => exact mode?_withdraw

/-- A session reads no more than it did and has asked for. -/
theorem shared_of_acquire (hm : (l.acquire s r).2.mode? s t = some .shared) :
    l.mode? s t = some .shared ∨ t ∈ r.reads := by
  have hout := acquire_acquires l s r
  generalize (l.acquire s r).1 = verdict, (l.acquire s r).2 = after at hout hm
  cases hout with
  | held hall => exact Or.inl (mode?_withdraw.symm.trans hm)
  | free hmore hfree hpass => exact (gains_grantNow hm).imp_right fun hread => hread rfl
  | behind hmore hbusy hsafe => exact Or.inl (mode?_enqueue.symm.trans hm)
  | barging hmore hbusy hpass hsafe => exact Or.inl (mode?_enqueue.symm.trans hm)
  | refused hmore hpass hcycle => exact Or.inl (mode?_withdraw.symm.trans hm)

theorem holdsAll_acquire (hv : (l.acquire s r).1 = .granted) :
    (l.acquire s r).2.holdsAll s r = true := by
  have hout := acquire_acquires l s r
  generalize (l.acquire s r).1 = verdict, (l.acquire s r).2 = after at hout hv
  subst hv
  cases hout with
  | held hall => exact (keeps_of_eq fun _ => mode?_withdraw).holdsAll hall
  | free hmore hfree hpass => exact holdsAll_grantNow

theorem keeps_acquire : Keeps x l (l.acquire s r).2 := by
  have hout := acquire_acquires l s r
  generalize (l.acquire s r).1 = verdict, (l.acquire s r).2 = after at hout
  cases hout with
  | held hall => exact keeps_of_eq fun _ => mode?_withdraw
  | free hmore hfree hpass => exact keeps_grantNow
  | behind hmore hbusy hsafe => exact keeps_of_eq fun _ => mode?_enqueue
  | barging hmore hbusy hpass hsafe => exact keeps_of_eq fun _ => mode?_enqueue
  | refused hmore hpass hcycle => exact keeps_of_eq fun _ => mode?_withdraw

/-- After its request is answered, a session is in the queue only to wait for that request. -/
theorem queued_acquire (h : l.Coherent) {n : Nat} {w : Waiter}
    (hq : (l.acquire s r).2.Queued s n w) :
    w.request = r ∧ ∃ behind, (l.acquire s r).1 = .wait behind := by
  have hout := acquire_acquires l s r
  generalize (l.acquire s r).1 = verdict, (l.acquire s r).2 = after at hout hq
  have henqueue : ∀ b, (l.enqueue s r b).Queued s n w → w.request = r := fun b hq => by
    rcases h.queued_enqueue.mp hq with ⟨hne, -⟩ | ⟨-, -, rfl⟩
    · exact absurd rfl hne
    · rfl
  cases hout with
  | held hall => exact absurd rfl (h.queued_withdraw.mp hq).1
  | free hmore hfree hpass =>
    exact absurd rfl ((queued_grantNow h.toQueueAgrees).mp hq).1
  | behind hmore hbusy hsafe => exact ⟨henqueue false hq, _, rfl⟩
  | barging hmore hbusy hpass hsafe => exact ⟨henqueue true hq, _, rfl⟩
  | refused hmore hpass hcycle => exact absurd rfl (h.queued_withdraw.mp hq).1

/-- A session that has to wait is in the queue. -/
theorem queued_of_wait (h : l.Coherent) {behind : IdSet} (hv : (l.acquire s r).1 = .wait behind) :
    ∃ n w, (l.acquire s r).2.Queued s n w := by
  have hout := acquire_acquires l s r
  generalize (l.acquire s r).1 = verdict, (l.acquire s r).2 = after at hout hv
  subst hv
  cases hout with
  | behind hmore hbusy hsafe => exact ⟨_, _, h.queued_enqueue.mpr (Or.inr ⟨rfl, rfl, rfl⟩)⟩
  | barging hmore hbusy hpass hsafe => exact ⟨_, _, h.queued_enqueue.mpr (Or.inr ⟨rfl, rfl, rfl⟩)⟩

end LockTable

/-- The state of a session but for its latch, which others count down. -/
def SessionTx.unlatched (tx : SessionTx) : SessionTx := { tx with signals := tx.signals.release }

theorem SessionTx.granted_of_unlatched {a b : SessionTx} (h : a.unlatched = b.unlatched) :
    a.granted = b.granted := by
  have hgranted : a.unlatched.granted = b.unlatched.granted := congrArg granted h
  exact hgranted

theorem SessionTx.abort_of_unlatched {a b : SessionTx} (h : a.unlatched = b.unlatched) :
    a.signals.abort = b.signals.abort := by
  have habort : a.unlatched.signals.abort = b.unlatched.signals.abort := by rw [h]
  exact habort

namespace Coordinator

variable {c c' c₂ : Coordinator} {s x : SessionId} {r : LockRequest} {now : Timestamp}

/-- The clock, and who is registered and will be next. -/
def roster (c : Coordinator) : Clock × SessionId × IdSet := (c.clock, c.nextSession, c.registered)

theorem tx_setTx {state : SessionTx} :
    (c.setTx s state).tx x = if x = s then state else c.tx x := by
  simp only [tx, setTx, IdMap.get?_insert]
  split <;> rfl

@[simp] theorem tx_setTx_self {state : SessionTx} : (c.setTx s state).tx s = state := by
  simp [tx_setTx]

@[simp] theorem tx_updateTx_self {f : SessionTx → SessionTx} :
    (c.updateTx s f).tx s = f (c.tx s) := tx_setTx_self

@[simp] theorem tx_signal_self {f : Signals → Signals} :
    (c.signal s f).tx s = { c.tx s with signals := f (c.tx s).signals } := tx_setTx_self

@[simp] theorem setTx_locks {state : SessionTx} : (c.setTx s state).locks = c.locks := rfl

@[simp] theorem updateTx_locks {f : SessionTx → SessionTx} : (c.updateTx s f).locks = c.locks := rfl

@[simp] theorem signal_locks {f : Signals → Signals} : (c.signal s f).locks = c.locks := rfl

@[simp] theorem tick_locks : c.tick.2.locks = c.locks := rfl

@[simp] theorem undoTo_locks {start : Nat} : (c.undoTo s start now).2.locks = c.locks := rfl

theorem tx_setTx_of_ne (hx : x ≠ s) {state : SessionTx} : (c.setTx s state).tx x = c.tx x := by
  simp [tx_setTx, hx]

theorem unlatched_wake : ((c.wake s).tx x).unlatched = (c.tx x).unlatched := by
  unfold wake
  split
  next =>
    by_cases hx : x = s
    · subst hx
      rw [tx_signal_self]
      rfl
    · exact congrArg _ (tx_setTx_of_ne hx)
  next => rfl

theorem wake_locks : (c.wake s).locks = c.locks := by
  unfold wake
  split <;> rfl

theorem wake_roster : (c.wake s).roster = c.roster := by
  unfold wake
  split <;> rfl

theorem promote_locks : c.promote.locks = c.locks.promote.2 :=
  List.foldlRecOn (motive := fun c' : Coordinator => c'.locks = c.locks.promote.2) _ _ rfl
    fun _ hc _ _ => wake_locks.trans hc

theorem unlatched_promote : (c.promote.tx x).unlatched = (c.tx x).unlatched :=
  List.foldlRecOn (motive := fun c' : Coordinator => (c'.tx x).unlatched = (c.tx x).unlatched) _ _ rfl
    fun _ hc _ _ => unlatched_wake.trans hc

theorem promote_roster : c.promote.roster = c.roster :=
  List.foldlRecOn (motive := fun c' : Coordinator => c'.roster = c.roster) _ _ rfl
    fun _ hc _ _ => wake_roster.trans hc

theorem mem_registered_wake : x ∈ (c.wake s).registered ↔ x ∈ c.registered := by
  have hsame := congrArg (fun roster => roster.2.2) (wake_roster (c := c) (s := s))
  exact iff_of_eq (congrArg (x ∈ ·) hsame)

theorem latch_wake (hx : x ∈ c.registered) : ((c.wake s).tx x).signals.latch =
    if x = s then (c.tx x).signals.latch - 1 else (c.tx x).signals.latch := by
  unfold wake
  by_cases hxs : x = s
  · subst hxs
    rw [if_pos hx, if_pos rfl, tx_signal_self]
    rfl
  · rw [if_neg hxs]
    split
    next => exact congrArg (fun tx => tx.signals.latch) (tx_setTx_of_ne hxs)
    next => rfl

theorem latch_foldl_wake {granted : List SessionId} (hgranted : granted.Nodup)
    (hx : x ∈ c.registered) : ((granted.foldl wake c).tx x).signals.latch =
      if x ∈ granted then (c.tx x).signals.latch - 1 else (c.tx x).signals.latch := by
  induction granted generalizing c with
  | nil => rfl
  | cons s granted ih =>
    obtain ⟨hnew, hrest⟩ := List.nodup_cons.mp hgranted
    rw [List.foldl_cons, ih hrest (mem_registered_wake.mpr hx), latch_wake hx]
    by_cases hxs : x = s
    · subst hxs
      rw [if_neg hnew, if_pos rfl, if_pos List.mem_cons_self]
    · simp only [List.mem_cons, hxs, false_or, if_false]

/-- The latch of a session that is taken out of the queue goes down once. -/
def Wakes (x : SessionId) (c c' : Coordinator) : Prop :=
  (c'.tx x).signals.latch =
    if c.locks.isWaiting x = true ∧ c'.locks.isWaiting x = false then (c.tx x).signals.latch - 1
    else (c.tx x).signals.latch

theorem wakes_of_isWaiting (hwait : c'.locks.isWaiting x = c.locks.isWaiting x)
    (hlatch : (c'.tx x).signals.latch = (c.tx x).signals.latch) : Wakes x c c' := by
  unfold Wakes
  rw [hwait, hlatch, if_neg]
  rintro ⟨hin, hout⟩
  rw [hin] at hout
  cases hout

theorem wakes_promote (h : c.locks.Coherent) (hx : x ∈ c.registered) : Wakes x c c.promote := by
  obtain ⟨hnodup, hgranted⟩ := LockTable.promote_promotes.granted_once h
  have hlatch := latch_foldl_wake (c := { c with locks := c.locks.promote.2 }) hnodup hx
  unfold Wakes
  rw [promote_locks]
  simp only [← hgranted]
  exact hlatch

/-- What a session sees of the work of others on the coordinator. -/
structure Spares (x : SessionId) (c c' : Coordinator) : Prop extends
    LockTable.Spares x c.locks c'.locks where
  tx : (c'.tx x).unlatched = (c.tx x).unlatched
  wakes : c.locks.Coherent → x ∈ c.registered → Wakes x c c'
  registered : x ∈ c'.registered ↔ x ∈ c.registered
  nextSession : c'.nextSession = c.nextSession
  clock : c.clock.current ≤ c'.clock.current

theorem spares_of_roster (hlocks : LockTable.Spares x c.locks c'.locks)
    (htx : (c'.tx x).unlatched = (c.tx x).unlatched)
    (hwakes : c.locks.Coherent → x ∈ c.registered → Wakes x c c')
    (hroster : c'.roster = c.roster) : Spares x c c' where
  toSpares := hlocks
  tx := htx
  wakes := hwakes
  registered := by
    have hsame : c'.registered = c.registered := congrArg (fun roster => roster.2.2) hroster
    rw [hsame]
  nextSession := congrArg (fun roster => roster.2.1) hroster
  clock := by
    have hsame : c'.clock = c.clock := congrArg Prod.fst hroster
    rw [hsame]

theorem spares_of_eq (hlocks : c'.locks = c.locks) (htx : c'.tx x = c.tx x)
    (hroster : c'.roster = c.roster) : Spares x c c' := by
  refine spares_of_roster ?_ (congrArg _ htx) (fun _ _ => wakes_of_isWaiting ?_ ?_) hroster
  · rw [hlocks]
    exact .refl x c.locks
  · rw [hlocks]
  · rw [htx]

theorem Spares.granted (h : Spares x c c') : (c'.tx x).granted = (c.tx x).granted :=
  SessionTx.granted_of_unlatched h.tx

theorem Spares.abortRequested (h : Spares x c c') : c'.abortRequested x = c.abortRequested x :=
  SessionTx.abort_of_unlatched h.tx

theorem Spares.trans (h : Spares x c c') (h₂ : Spares x c' c₂) : Spares x c c₂ where
  toSpares := h.toSpares.trans h₂.toSpares
  tx := h₂.tx.trans h.tx
  wakes hc hx := by
    have hw := h.wakes hc hx
    have hw₂ := h₂.wakes (h.coherent hc) (h.registered.mpr hx)
    unfold Wakes at hw hw₂ ⊢
    rw [hw₂, hw]
    cases hin : c.locks.isWaiting x with
    | false =>
      have hout := h.not_waiting hc hin
      simp [hout]
    | true =>
      cases hmid : c'.locks.isWaiting x with
      | false =>
        have hout := h₂.not_waiting (h.coherent hc) hmid
        simp [hout]
      | true => simp
  registered := h₂.registered.trans h.registered
  nextSession := h₂.nextSession.trans h.nextSession
  clock := Nat.le_trans h.clock h₂.clock

theorem spares_setTx (hx : x ≠ s) {state : SessionTx} : Spares x c (c.setTx s state) :=
  spares_of_eq rfl (tx_setTx_of_ne hx) rfl

theorem spares_updateTx (hx : x ≠ s) {f : SessionTx → SessionTx} : Spares x c (c.updateTx s f) :=
  spares_setTx hx

theorem spares_signal (hx : x ≠ s) {f : Signals → Signals} : Spares x c (c.signal s f) :=
  spares_setTx hx

theorem spares_closeTx (hx : x ≠ s) : Spares x c (c.closeTx s now) := spares_setTx hx

theorem spares_tick : Spares x c c.tick.2 where
  toSpares := .refl x c.locks
  tx := rfl
  wakes _ _ := wakes_of_isWaiting rfl rfl
  registered := Iff.rfl
  nextSession := rfl
  clock := Nat.le_of_lt c.clock.lt_tick

theorem spares_releaseRows {rows : List RowId} : Spares x c (c.releaseRows rows) :=
  spares_of_eq rfl rfl rfl

theorem spares_openTx (hx : x ≠ s) : Spares x c (c.openTx s now) :=
  spares_of_eq rfl (tx_setTx_of_ne hx) rfl

theorem spares_promote : Spares x c c.promote := by
  refine spares_of_roster ?_ unlatched_promote wakes_promote promote_roster
  rw [promote_locks]
  exact LockTable.spares_promote

theorem spares_locks {l : LockTable} (h : LockTable.Spares x c.locks l)
    (hwait : c.locks.Coherent → l.isWaiting x = c.locks.isWaiting x) :
    Spares x c { c with locks := l } :=
  spares_of_roster h rfl (fun hc _ => wakes_of_isWaiting (hwait hc) rfl) rfl

theorem spares_withdraw (hx : x ≠ s) : Spares x c (c.withdraw s) := by
  have hleft := spares_locks (c := c) (LockTable.spares_withdraw (l := c.locks) hx)
    fun hc => hc.isWaiting_withdraw hx
  unfold withdraw
  dsimp only
  split
  next => exact hleft.trans spares_promote
  next => exact hleft

theorem spares_releaseLocks (hx : x ≠ s) : Spares x c (c.releaseLocks s) := by
  have hleft := spares_locks (c := c) ((LockTable.spares_releaseAll (l := c.locks) hx).trans
    (LockTable.spares_withdraw hx)) fun hc => (hc.releaseAll.isWaiting_withdraw hx).trans
      (LockTable.isWaiting_of_line LockTable.releaseAll_line)
  unfold releaseLocks
  dsimp only
  split
  next => exact hleft.trans spares_promote
  next => exact hleft

theorem spares_endTx (hx : x ≠ s) {rows : List RowId} : Spares x c (c.endTx s rows) := by
  refine Spares.trans (spares_of_eq ?_ ?_ ?_) (spares_releaseLocks hx)
  all_goals split <;> rfl

theorem spares_endStatement (hx : x ≠ s) : Spares x c (c.endStatement s) := by
  have hclear : Spares x c (c.setTx s { c.tx s with request := none }) := spares_setTx hx
  unfold endStatement
  dsimp only
  split
  next => exact hclear
  next =>
    split
    next => exact hclear
    next r hr =>
      split
      next => exact hclear
      next =>
        refine Spares.trans ?_ (spares_setTx hx)
        have hshared : LockTable.Spares x c.locks (c.locks.releaseShared s r.reads.toList).2 :=
          LockTable.spares_releaseShared hx
        have hless := hclear.trans (spares_locks hshared fun _ =>
          LockTable.isWaiting_of_line LockTable.releaseShared_line)
        split
        next => exact hless.trans spares_promote
        next => exact hless

theorem spares_beginTransaction (hx : x ≠ s) : Spares x c (c.beginTransaction s) := by
  unfold beginTransaction
  split
  next => exact spares_of_eq rfl rfl rfl
  next => exact spares_tick.trans (spares_openTx hx)

theorem spares_beginStatement (hx : x ≠ s) : Spares x c (c.beginStatement s r).2 := by
  unfold beginStatement
  dsimp only
  have hask : Spares x c (c.updateTx s fun tx =>
    { tx with statementStart := tx.actions.length, request := some r }) := spares_setTx hx
  split
  next => exact hask
  next =>
    split
    next => exact hask
    next =>
      have hlocks := hask.trans (spares_locks (LockTable.spares_acquire (l := c.locks) hx (r := r))
        fun hc => LockTable.isWaiting_acquire hc hx)
      split
      next => exact hlocks.trans (spares_setTx hx)
      next => exact hlocks.trans (spares_setTx hx)
      next => exact (hlocks.trans spares_promote).trans (spares_setTx hx)

theorem spares_resumeStatement (hx : x ≠ s) : Spares x c (c.resumeStatement s).2 := by
  unfold resumeStatement
  split
  next => exact spares_of_eq rfl rfl rfl
  next =>
    dsimp only
    split
    next => exact spares_tick.trans (spares_setTx hx)
    next => exact spares_tick.trans (spares_openTx hx)

theorem spares_cancelWait (hx : x ≠ s) : Spares x c (c.cancelWait s) :=
  (spares_withdraw hx).trans (spares_setTx hx)

theorem spares_completeStatement (hx : x ≠ s) : Spares x c (c.completeStatement s) :=
  (spares_setTx hx).trans (spares_endStatement hx)

theorem spares_prepare (hx : x ≠ s) : Spares x c (c.prepare s).2 := by
  unfold prepare
  split
  next => exact spares_of_eq rfl rfl rfl
  next => exact spares_tick.trans (spares_setTx hx)

theorem spares_undoTo (hx : x ≠ s) {start : Nat} : Spares x c (c.undoTo s start now).2 :=
  spares_of_eq rfl (tx_setTx_of_ne hx) rfl

theorem spares_rollbackStatement (hx : x ≠ s) : Spares x c (c.rollbackStatement s) := by
  refine Spares.trans ?_ (spares_endStatement hx)
  exact (spares_undoTo hx).trans spares_releaseRows

theorem spares_rollback (hx : x ≠ s) : Spares x c (c.rollback s) := by
  refine Spares.trans ?_ (spares_closeTx hx)
  refine Spares.trans ?_ (spares_signal hx)
  refine Spares.trans ?_ (spares_endTx hx)
  refine Spares.trans ?_ (spares_undoTo hx)
  exact (spares_signal hx).trans spares_tick

theorem spares_rollbackToIndex (hx : x ≠ s) {i : Nat} : Spares x c (c.rollbackToIndex s i).2 := by
  unfold rollbackToIndex
  split
  next => exact spares_of_eq rfl rfl rfl
  next => exact (spares_undoTo hx).trans ((spares_setTx hx).trans (spares_of_eq rfl rfl rfl))

theorem spares_rollbackToSavepoint (hx : x ≠ s) {name : String} :
    Spares x c (c.rollbackToSavepoint s name).2 := by
  unfold rollbackToSavepoint
  split
  next => exact spares_of_eq rfl rfl rfl
  next => exact spares_rollbackToIndex hx

theorem spares_journal {journal : Journal} : Spares x c { c with journal } := spares_of_eq rfl rfl rfl

theorem spares_storage {storage : Storage} {trace : List TracedCall} :
    Spares x c { c with storage, trace } := spares_of_eq rfl rfl rfl

theorem spares_commit (hx : x ≠ s) : Spares x c (c.commit s).2 := by
  unfold commit
  split
  next => exact spares_of_eq rfl rfl rfl
  next =>
    dsimp only
    split
    next => exact (spares_tick.trans spares_journal).trans (spares_rollback hx)
    next =>
      split
      all_goals
        refine Spares.trans ?_ (spares_closeTx hx)
        refine Spares.trans ?_ (spares_endTx hx)
        exact spares_tick.trans (spares_of_eq rfl rfl rfl)

theorem spares_leave (hx : x ≠ s) : Spares x c { c with registered := c.registered.erase s } where
  toSpares := .refl x c.locks
  tx := rfl
  wakes _ _ := wakes_of_isWaiting rfl rfl
  registered := IdSet.mem_erase.trans (and_iff_left hx)
  nextSession := rfl
  clock := Nat.le_refl _

theorem spares_unregister (hx : x ≠ s) : Spares x c (c.unregister s) := by
  refine Spares.trans ?_ (spares_leave hx)
  refine Spares.trans ?_ (spares_withdraw hx)
  split
  next => exact spares_rollback hx
  next => exact spares_of_eq rfl rfl rfl

theorem spares_recordInsert (hx : x ≠ s) {store : TableId} {row : Row} :
    Spares x c (c.recordInsert s store row).2 := by
  unfold recordInsert
  split
  next => exact spares_of_eq rfl rfl rfl
  next => exact spares_of_eq rfl (tx_setTx_of_ne hx) rfl

theorem spares_recordDelete (hx : x ≠ s) {store : TableId} {row : Row} :
    Spares x c (c.recordDelete s store row).2 := by
  unfold recordDelete
  split
  next => exact spares_of_eq rfl rfl rfl
  next =>
    split
    next => exact spares_of_eq rfl rfl rfl
    next => exact spares_of_eq rfl (tx_setTx_of_ne hx) rfl

theorem spares_insertRow (hx : x ≠ s) {table store : TableId} {values : List Value} :
    Spares x c (c.insertRow s table store values).2 := by
  unfold insertRow
  split
  next => exact spares_storage
  next storage _ =>
    have hrecord : ∀ row, Spares x c ({ c with storage }.recordInsert s store row).2 :=
      fun _ => spares_storage.trans (spares_recordInsert hx)
    split
    next heq =>
      rw [← congrArg Prod.snd heq]
      exact hrecord _
    next heq =>
      rw [← congrArg Prod.snd heq]
      exact hrecord _

end Coordinator

end LockingDb
