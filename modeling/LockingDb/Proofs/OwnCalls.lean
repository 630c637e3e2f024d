import LockingDb.Proofs.Bystander

namespace LockingDb

/-- What the state of a session keeps while its transaction goes on. -/
structure SessionTx.Continues (tx tx' : SessionTx) : Prop where
  granted : tx'.granted = tx.granted
  abort : tx.signals.abort = true → tx'.signals.abort = true
  isolation : tx'.isolation = tx.isolation
  isOpen : tx.isOpen = true → tx'.isOpen = true

theorem SessionTx.Continues.refl (tx : SessionTx) : tx.Continues tx :=
  ⟨rfl, fun ha => ha, rfl, fun ho => ho⟩

theorem SessionTx.continues_of_unlatched {tx tx' : SessionTx} (h : tx'.unlatched = tx.unlatched) :
    tx.Continues tx' := by
  have hsame : tx.Continues tx'.unlatched := by
    rw [h]
    exact ⟨rfl, fun ha => ha, rfl, fun ho => ho⟩
  exact ⟨hsame.granted, hsame.abort, hsame.isolation, hsame.isOpen⟩

theorem SessionTx.truncateActions_continues (tx : SessionTx) (start : Nat) :
    tx.Continues (tx.truncateActions start).2 := by
  unfold truncateActions
  split <;> exact ⟨rfl, fun ha => ha, rfl, fun ho => ho⟩

/-- Whether a transaction is open, and at which level. -/
def SessionTx.modes (tx : SessionTx) : Bool × IsolationLevel := (tx.isOpen, tx.isolation)

theorem SessionTx.modes_of_unlatched {tx tx' : SessionTx} (h : tx'.unlatched = tx.unlatched) :
    tx'.modes = tx.modes := by
  have hsame : tx'.unlatched.modes = tx.unlatched.modes := congrArg modes h
  exact hsame

namespace Coordinator

variable {c c' c₂ : Coordinator} {s x : SessionId} {r : LockRequest} {now : Timestamp}
  {answer : Except Failure LockAnswer}

/-- A session has the locks that were granted to it last. -/
def Covered (c : Coordinator) (s : SessionId) : Prop :=
  ∀ r, (c.tx s).granted = some r → c.locks.holdsAll s r = true

/-- The transaction of a session holds its read locks to its end. -/
def ReadsHeld (c : Coordinator) (s : SessionId) : Prop :=
  (c.tx s).isolation.holdsReadLocks = true

/-- What a call that is no new request does to the session that makes it. -/
structure Steady (s : SessionId) (c c' : Coordinator) : Prop where
  settled : c.locks.Settled → c'.locks.Settled
  covered : c.Covered s → c'.Covered s
  queued : c.locks.Settled → ∀ n w, c'.locks.Queued s n w →
    c.locks.Queued s n w ∧ (c.abortRequested s = true → c'.abortRequested s = true)

/-- The transaction of the session keeps what it has, its read locks only at a level that holds
them. -/
structure Retains (s : SessionId) (c c' : Coordinator) : Prop where
  covered : c.Covered s → c'.Covered s
  readsHeld : c.ReadsHeld s → c'.ReadsHeld s
  keeps : c.ReadsHeld s → LockTable.Keeps s c.locks c'.locks
  isOpen : (c.tx s).isOpen = true → (c'.tx s).isOpen = true

/-- The transaction of the session goes on. -/
structure Proceeds (s : SessionId) (c c' : Coordinator) : Prop extends
    Steady s c c', Retains s c c'

theorem Steady.trans (h : Steady s c c') (h₂ : Steady s c' c₂) : Steady s c c₂ where
  settled hs := h₂.settled (h.settled hs)
  covered hc := h₂.covered (h.covered hc)
  queued hs n w hq := by
    obtain ⟨hq, habort₂⟩ := h₂.queued (h.settled hs) n w hq
    obtain ⟨hq, habort⟩ := h.queued hs n w hq
    exact ⟨hq, fun ha => habort₂ (habort ha)⟩

theorem Proceeds.trans (h : Proceeds s c c') (h₂ : Proceeds s c' c₂) : Proceeds s c c₂ where
  toSteady := h.toSteady.trans h₂.toSteady
  readsHeld hr := h₂.readsHeld (h.readsHeld hr)
  keeps hr := (h.keeps hr).trans (h₂.keeps (h.readsHeld hr))
  isOpen ho := h₂.isOpen (h.isOpen ho)

theorem covered_empty : empty.Covered s := by
  intro r hr
  have hfresh : empty.tx s = .fresh s .readCommitted := rfl
  rw [hfresh] at hr
  cases hr

theorem Covered.of_keeps (h : c.Covered s) (hgranted : (c'.tx s).granted = (c.tx s).granted)
    (hkeeps : LockTable.Keeps s c.locks c'.locks) : c'.Covered s :=
  fun r hr => hkeeps.holdsAll (h r (hgranted.symm.trans hr))

theorem ReadsHeld.of_continues (h : c.ReadsHeld s) (htx : (c.tx s).Continues (c'.tx s)) :
    c'.ReadsHeld s := by
  unfold ReadsHeld
  rw [htx.isolation]
  exact h

theorem retains_of_modes (hcovered : c.Covered s → c'.Covered s)
    (hmodes : (c'.tx s).modes = (c.tx s).modes) (hkeeps : LockTable.Keeps s c.locks c'.locks) :
    Retains s c c' where
  covered := hcovered
  readsHeld hr := by
    have hsame : (c'.tx s).isolation = (c.tx s).isolation := congrArg Prod.snd hmodes
    unfold ReadsHeld
    rw [hsame]
    exact hr
  keeps _ := hkeeps
  isOpen ho := by
    have hsame : (c'.tx s).isOpen = (c.tx s).isOpen := congrArg Prod.fst hmodes
    exact hsame.trans ho

theorem Spares.retains (h : Spares x c c') : Retains x c c' :=
  retains_of_modes (fun hc => hc.of_keeps h.granted h.keeps) (SessionTx.modes_of_unlatched h.tx)
    h.keeps

theorem proceeds_of_continues (hlocks : c'.locks = c.locks)
    (htx : (c.tx s).Continues (c'.tx s)) : Proceeds s c c' where
  settled hs := hlocks ▸ hs
  covered hc := hc.of_keeps htx.granted (hlocks ▸ .refl s c.locks)
  queued _ _ _ hq := ⟨hlocks ▸ hq, htx.abort⟩
  readsHeld hr := hr.of_continues htx
  keeps _ := hlocks ▸ .refl s c.locks
  isOpen := htx.isOpen

theorem proceeds_of_eq (hlocks : c'.locks = c.locks) (htx : c'.tx s = c.tx s) : Proceeds s c c' :=
  proceeds_of_continues hlocks (htx ▸ .refl (c.tx s))

theorem Proceeds.refl (s : SessionId) (c : Coordinator) : Proceeds s c c := proceeds_of_eq rfl rfl

theorem proceeds_updateTx {f : SessionTx → SessionTx} (htx : (c.tx s).Continues (f (c.tx s))) :
    Proceeds s c (c.updateTx s f) := by
  refine proceeds_of_continues rfl ?_
  rw [tx_updateTx_self]
  exact htx

theorem keeps_promote : LockTable.Keeps x c.locks c.promote.locks := by
  rw [promote_locks]
  exact LockTable.promote_promotes.keeps

theorem settled_promote (h : c.locks.Coherent) (ha : c.locks.Acyclic) : c.promote.locks.Settled := by
  rw [promote_locks]
  exact h.settled_promote ha

theorem settled_withdraw (h : c.locks.Settled) : (c.withdraw s).locks.Settled := by
  unfold withdraw
  dsimp only
  split
  next => exact settled_promote h.toCoherent.withdraw (h.acyclic.withdraw h.toCoherent)
  next hout =>
    refine h.withdraw_of_new fun n w hq => hout ?_
    exact h.withdraw_flag.mpr ⟨n, w, hq⟩

theorem not_queued_withdraw (h : c.locks.Coherent) {n : Nat} {w : Waiter} :
    ¬(c.withdraw s).locks.Queued s n w := by
  have hleft : ¬(c.locks.withdraw s).2.Queued s n w := fun hq => (h.queued_withdraw.mp hq).1 rfl
  unfold withdraw
  dsimp only
  split
  next =>
    rw [promote_locks]
    exact fun hq => hleft (LockTable.promote_promotes.queued h.withdraw hq)
  next => exact hleft

theorem keeps_withdraw : LockTable.Keeps x c.locks (c.withdraw s).locks := by
  have hleft : LockTable.Keeps x c.locks (c.locks.withdraw s).2 :=
    LockTable.keeps_of_eq fun _ => LockTable.mode?_withdraw
  unfold withdraw
  dsimp only
  split
  next =>
    have hgrants := keeps_promote (c := { c with locks := (c.locks.withdraw s).2 }) (x := x)
    exact hleft.trans hgrants
  next => exact hleft

theorem unlatched_withdraw : ((c.withdraw s).tx x).unlatched = (c.tx x).unlatched := by
  unfold withdraw
  dsimp only
  split
  next => exact unlatched_promote
  next => rfl

theorem unlatched_releaseLocks : ((c.releaseLocks s).tx x).unlatched = (c.tx x).unlatched := by
  unfold releaseLocks
  dsimp only
  split
  next => exact unlatched_promote
  next => rfl

theorem proceeds_withdraw : Proceeds s c (c.withdraw s) := by
  have htx : (c.tx s).Continues ((c.withdraw s).tx s) :=
    SessionTx.continues_of_unlatched unlatched_withdraw
  exact {
    settled := settled_withdraw
    covered := fun hc => hc.of_keeps htx.granted keeps_withdraw
    queued := fun hs _ _ hq => absurd hq (not_queued_withdraw hs.toCoherent)
    readsHeld := fun hr => hr.of_continues htx
    keeps := fun _ => keeps_withdraw
    isOpen := htx.isOpen }

theorem settled_releaseLocks (h : c.locks.Settled) : (c.releaseLocks s).locks.Settled := by
  have hreleased := h.toCoherent.releaseAll (s := s)
  unfold releaseLocks
  dsimp only
  split
  next =>
    refine settled_promote hreleased.withdraw ?_
    exact (h.acyclic.releaseAll h.toCoherent).withdraw hreleased
  next hnothing =>
    obtain ⟨hzero, hout⟩ : (c.locks.releaseAll s).1 = 0 ∧
        ((c.locks.releaseAll s).2.withdraw s).1 = false := by simpa using hnothing
    refine (h.releaseAll_of_zero hzero).withdraw_of_new fun n w hq => ?_
    have hin := hreleased.withdraw_flag.mpr ⟨n, w, hq⟩
    rw [hin] at hout
    cases hout

theorem not_queued_releaseLocks (h : c.locks.Coherent) {n : Nat} {w : Waiter} :
    ¬(c.releaseLocks s).locks.Queued s n w := by
  have hreleased := h.releaseAll (s := s)
  have hleft : ¬((c.locks.releaseAll s).2.withdraw s).2.Queued s n w := fun hq =>
    (hreleased.queued_withdraw.mp hq).1 rfl
  unfold releaseLocks
  dsimp only
  split
  next =>
    rw [promote_locks]
    exact fun hq => hleft (LockTable.promote_promotes.queued hreleased.withdraw hq)
  next => exact hleft

theorem settled_endTx (h : c.locks.Settled) {rows : List RowId} :
    (c.endTx s rows).locks.Settled := by
  refine settled_releaseLocks ?_
  split <;> exact h

theorem not_queued_endTx (h : c.locks.Coherent) {rows : List RowId} {n : Nat} {w : Waiter} :
    ¬(c.endTx s rows).locks.Queued s n w := by
  refine not_queued_releaseLocks ?_
  split <;> exact h

/-- A transaction that is closed after its end leaves nothing of itself. -/
theorem steady_closeTx (hlocks : c'.locks = c.locks) {rows : List RowId}
    (hend : c₂.locks = (c'.endTx s rows).locks) : Steady s c (c₂.closeTx s now) where
  settled hs := by
    have hafter : c₂.locks.Settled := hend ▸ settled_endTx (hlocks ▸ hs)
    exact hafter
  covered _ r hr := by
    rw [closeTx, tx_updateTx_self] at hr
    cases hr
  queued hs n w hq := by
    have hafter : (c'.endTx s rows).locks.Queued s n w := hend ▸ hq
    exact absurd hafter (not_queued_endTx (hlocks ▸ hs.toCoherent))

theorem tx_undoTo_self {start : Nat} :
    (c.undoTo s start now).2.tx s = ((c.tx s).truncateActions start).2 := tx_setTx_self

theorem steady_rollback : Steady s c (c.rollback s) := by
  unfold rollback
  dsimp only
  exact steady_closeTx (by simp) signal_locks

theorem not_queued_rollback (h : c.locks.Coherent) {n : Nat} {w : Waiter} :
    ¬(c.rollback s).locks.Queued s n w := by
  unfold rollback
  dsimp only
  unfold closeTx
  rw [updateTx_locks, signal_locks]
  exact not_queued_endTx (by simpa using h)

theorem steady_commit : Steady s c (c.commit s).2 := by
  unfold commit
  split
  next => exact (Proceeds.refl s c).toSteady
  next =>
    dsimp only
    split
    next journal _ =>
      have hlog : Proceeds s c { c.tick.2 with journal } := proceeds_of_eq rfl rfl
      exact hlog.toSteady.trans steady_rollback
    next =>
      split
      all_goals
        refine steady_closeTx ?_ rfl
        exact tick_locks

/-- Takes read locks of a session, and grants what this makes free. -/
def dropReads (c : Coordinator) (s : SessionId) (tables : List TableId) : Coordinator :=
  let (released, locks) := c.locks.releaseShared s tables
  let c := { c with locks }
  if released > 0 then c.promote else c

theorem settled_dropReads (h : c.locks.Settled) {tables : List TableId} :
    (c.dropReads s tables).locks.Settled := by
  unfold dropReads
  dsimp only
  split
  next => exact settled_promote h.toCoherent.releaseShared (h.acyclic.releaseShared h.toCoherent)
  next hnone => exact h.releaseShared_of_zero (by simpa using hnone)

theorem queued_dropReads (h : c.locks.Coherent) {tables : List TableId} {n : Nat} {w : Waiter}
    (hq : (c.dropReads s tables).locks.Queued s n w) : c.locks.Queued s n w := by
  have hline : (c.locks.releaseShared s tables).2.Queued s n w → c.locks.Queued s n w :=
    (LockTable.queued_congr LockTable.releaseShared_line).mp
  unfold dropReads at hq
  dsimp only at hq
  split at hq
  next =>
    rw [promote_locks] at hq
    exact hline (LockTable.promote_promotes.queued h.releaseShared hq)
  next => exact hline hq

theorem unlatched_dropReads {tables : List TableId} :
    ((c.dropReads s tables).tx x).unlatched = (c.tx x).unlatched := by
  unfold dropReads
  dsimp only
  split
  next => exact unlatched_promote
  next => rfl

theorem proceeds_dropReads (hlevel : ¬(c.tx s).isolation.holdsReadLocks = true)
    {tables : List TableId} :
    Proceeds s c ((c.dropReads s tables).updateTx s ({ · with granted := none })) := by
  have htx : (c.tx s).Continues ((c.dropReads s tables).tx s) :=
    SessionTx.continues_of_unlatched unlatched_dropReads
  exact {
    settled := fun h => settled_dropReads h
    covered := fun _ q hq => by
      rw [tx_updateTx_self] at hq
      cases hq
    queued := fun h n w hq => by
      refine ⟨queued_dropReads h.toCoherent hq, fun ha => ?_⟩
      rw [abortRequested, tx_updateTx_self]
      exact htx.abort ha
    readsHeld := fun hr => absurd hr hlevel
    keeps := fun hr => absurd hr hlevel
    isOpen := fun ho => by
      rw [tx_updateTx_self]
      exact htx.isOpen ho }

theorem proceeds_endStatement : Proceeds s c (c.endStatement s) := by
  have hclear : Proceeds s c (c.updateTx s ({ · with request := none })) :=
    proceeds_updateTx ⟨rfl, id, rfl, id⟩
  unfold endStatement
  dsimp only
  split
  next => exact hclear
  next hlevel =>
    split
    next => exact hclear
    next r hr =>
      split
      next => exact hclear
      next =>
        refine hclear.trans (proceeds_dropReads ?_)
        rw [tx_updateTx_self]
        exact hlevel

theorem proceeds_tick : Proceeds s c c.tick.2 := proceeds_of_eq rfl rfl

theorem proceeds_openTx : Proceeds s c (c.openTx s now) := by
  have hcount : Proceeds s c { c with openCount := c.openCount + 1 } := proceeds_of_eq rfl rfl
  refine hcount.trans ?_
  unfold openTx
  exact proceeds_updateTx ⟨rfl, id, rfl, fun _ => rfl⟩

theorem proceeds_beginTransaction : Proceeds s c (c.beginTransaction s) := by
  unfold beginTransaction
  split
  next => exact .refl s c
  next => exact proceeds_tick.trans proceeds_openTx

theorem proceeds_resumeStatement : Proceeds s c (c.resumeStatement s).2 := by
  unfold resumeStatement
  split
  next => exact .refl s c
  next =>
    dsimp only
    split
    next =>
      refine proceeds_tick.trans ?_
      dsimp only
      exact proceeds_updateTx ⟨rfl, id, rfl, id⟩
    next => exact proceeds_tick.trans proceeds_openTx

theorem proceeds_cancelWait : Proceeds s c (c.cancelWait s) := by
  refine proceeds_withdraw.trans ?_
  unfold cancelWait signal
  exact proceeds_updateTx ⟨rfl, id, rfl, id⟩

theorem not_queued_cancelWait (h : c.locks.Coherent) {n : Nat} {w : Waiter} :
    ¬(c.cancelWait s).locks.Queued s n w := not_queued_withdraw h

theorem proceeds_completeStatement : Proceeds s c (c.completeStatement s) := by
  refine Proceeds.trans ?_ proceeds_endStatement
  exact proceeds_updateTx ⟨rfl, id, rfl, id⟩

theorem proceeds_prepare : Proceeds s c (c.prepare s).2 := by
  unfold prepare
  split
  next => exact .refl s c
  next =>
    refine proceeds_tick.trans ?_
    dsimp only
    exact proceeds_updateTx ⟨rfl, id, rfl, id⟩

theorem proceeds_undoTo {start : Nat} : Proceeds s c (c.undoTo s start now).2 := by
  refine proceeds_of_continues rfl ?_
  rw [tx_undoTo_self]
  exact SessionTx.truncateActions_continues _ start

theorem proceeds_releaseRows {rows : List RowId} : Proceeds s c (c.releaseRows rows) :=
  proceeds_of_eq rfl rfl

theorem proceeds_rollbackStatement : Proceeds s c (c.rollbackStatement s) :=
  (proceeds_undoTo.trans proceeds_releaseRows).trans proceeds_endStatement

theorem proceeds_rollbackToIndex {i : Nat} : Proceeds s c (c.rollbackToIndex s i).2 := by
  unfold rollbackToIndex
  split
  next => exact .refl s c
  next savepoint _ =>
    have hundone : Proceeds s c (c.undoTo s savepoint.logLength savepoint.timestamp).2 :=
      proceeds_undoTo
    refine Proceeds.trans (hundone.trans ?_) proceeds_releaseRows
    exact proceeds_updateTx ⟨rfl, id, rfl, id⟩

theorem proceeds_rollbackToSavepoint {name : String} :
    Proceeds s c (c.rollbackToSavepoint s name).2 := by
  unfold rollbackToSavepoint
  split
  next => exact .refl s c
  next => exact proceeds_rollbackToIndex

theorem proceeds_recordInsert {store : TableId} {row : Row} :
    Proceeds s c (c.recordInsert s store row).2 := by
  unfold recordInsert
  split
  next => exact proceeds_of_eq rfl rfl
  next storage _ =>
    have hclaim : Proceeds s c { c.withCalls s storage with owners := c.owners.claim s row.id } :=
      proceeds_of_eq rfl rfl
    refine hclaim.trans ?_
    dsimp only
    exact proceeds_updateTx ⟨rfl, id, rfl, id⟩

theorem proceeds_recordDelete {store : TableId} {row : Row} :
    Proceeds s c (c.recordDelete s store row).2 := by
  unfold recordDelete
  split
  next => exact .refl s c
  next =>
    split
    next => exact proceeds_of_eq rfl rfl
    next storage _ =>
      have hclaim : Proceeds s c { c.withCalls s storage with owners := c.owners.claim s row.id } :=
        proceeds_of_eq rfl rfl
      refine hclaim.trans ?_
      dsimp only
      exact proceeds_updateTx ⟨rfl, id, rfl, id⟩

theorem not_queued_unregister (h : c.locks.Settled) {n : Nat} {w : Waiter} :
    ¬(c.unregister s).locks.Queued s n w := by
  unfold unregister
  dsimp only
  split
  next => exact not_queued_withdraw (steady_rollback.settled h).toCoherent
  next => exact not_queued_withdraw h.toCoherent

theorem steady_unregister : Steady s c (c.unregister s) := by
  have hleave (c₁ : Coordinator) (h : Steady s c c₁) :
      Steady s c { c₁.withdraw s with registered := (c₁.withdraw s).registered.erase s } := by
    have hgone : Proceeds s (c₁.withdraw s)
        { c₁.withdraw s with registered := (c₁.withdraw s).registered.erase s } :=
      proceeds_of_eq rfl rfl
    exact h.trans (proceeds_withdraw.trans hgone).toSteady
  unfold unregister
  dsimp only
  split
  next => exact hleave _ steady_rollback
  next => exact hleave _ (Proceeds.refl s c).toSteady

/-- The statement of a session is written down before its locks are asked for. -/
def noted (c : Coordinator) (s : SessionId) (r : LockRequest) : Coordinator :=
  c.updateTx s fun tx => { tx with statementStart := tx.actions.length, request := some r }

theorem proceeds_noted : Proceeds s c (c.noted s r) := by
  unfold noted
  exact proceeds_updateTx ⟨rfl, id, rfl, id⟩

/-- The ways in which a statement is begun. -/
inductive Begins (c : Coordinator) (s : SessionId) (r : LockRequest) :
    Except Failure LockAnswer → Coordinator → Prop where
  | aborted (habort : c.abortRequested s = true) :
      Begins c s r (.error .serializationFailure) (c.noted s r)
  | again (habort : c.abortRequested s = false) (hgranted : (c.tx s).granted = some r) :
      Begins c s r (.ok .proceed) (c.noted s r)
  | granted (habort : c.abortRequested s = false) (hv : (c.locks.acquire s r).1 = .granted) :
      Begins c s r (.ok .proceed) ({ c.noted s r with locks := (c.locks.acquire s r).2 }.updateTx s
        ({ · with granted := some r }))
  | waits {behind : IdSet} (habort : c.abortRequested s = false)
      (hv : (c.locks.acquire s r).1 = .wait behind) :
      Begins c s r (.ok .mustWait) ({ c.noted s r with locks := (c.locks.acquire s r).2 }.signal s
        (·.setCount 1))
  | refused {behind : IdSet} (habort : c.abortRequested s = false)
      (hv : (c.locks.acquire s r).1 = .deadlock behind) :
      Begins c s r (.error .serializationFailure)
        ({ c.noted s r with locks := (c.locks.acquire s r).2 }.promote.signal s .raiseAbort)

theorem beginStatement_begins (c : Coordinator) (s : SessionId) (r : LockRequest) :
    Begins c s r (c.beginStatement s r).1 (c.beginStatement s r).2 := by
  have hnoted : (c.noted s r).tx s = { c.tx s with
      statementStart := (c.tx s).actions.length, request := some r } := tx_updateTx_self
  have habort : (c.noted s r).abortRequested s = c.abortRequested s := by
    rw [abortRequested, hnoted]
    rfl
  unfold beginStatement
  dsimp only
  split
  next ha => exact .aborted (habort.symm.trans ha)
  next ha =>
    have ha : c.abortRequested s = false := habort.symm.trans (Bool.eq_false_iff.mpr ha)
    split
    next hg => exact .again ha (by rwa [← noted, hnoted] at hg)
    next =>
      split
      next hv => exact .granted ha hv
      next hv => exact .waits ha hv
      next hv => exact .refused ha hv

theorem Begins.covered (hb : Begins c s r answer c') (h : c.Covered s) : c'.Covered s := by
  have hnoted : (c.noted s r).Covered s := proceeds_noted.covered h
  have hgranted : ((c.noted s r).tx s).granted = (c.tx s).granted := by
    rw [noted, tx_updateTx_self]
  cases hb with
  | aborted habort => exact hnoted
  | again habort hgranted => exact hnoted
  | granted habort hv =>
    intro q hq
    rw [tx_updateTx_self] at hq
    obtain rfl := Option.some.inj hq
    exact LockTable.holdsAll_acquire hv
  | waits habort hv =>
    refine h.of_keeps ?_ LockTable.keeps_acquire
    rw [tx_signal_self]
    exact hgranted
  | refused habort hv =>
    refine h.of_keeps ?_ ?_
    · rw [tx_signal_self]
      exact (SessionTx.granted_of_unlatched unlatched_promote).trans hgranted
    · rw [signal_locks, promote_locks]
      exact LockTable.keeps_acquire.trans LockTable.promote_promotes.keeps

theorem Begins.keeps (hb : Begins c s r answer c') : LockTable.Keeps s c.locks c'.locks := by
  cases hb with
  | aborted habort => exact .refl s c.locks
  | again habort hgranted => exact .refl s c.locks
  | granted habort hv => exact LockTable.keeps_acquire
  | waits habort hv => exact LockTable.keeps_acquire
  | refused habort hv =>
    rw [signal_locks, promote_locks]
    exact LockTable.keeps_acquire.trans LockTable.promote_promotes.keeps

/-- A statement that may go on has its locks. -/
theorem Begins.holdsAll (hb : Begins c s r (.ok .proceed) c') (h : c.Covered s) :
    c'.locks.holdsAll s r = true := by
  cases hb with
  | again habort hgranted => exact h r hgranted
  | granted habort hv => exact LockTable.holdsAll_acquire hv

/-- To begin a statement takes nothing from the transaction. -/
theorem Begins.retains (hb : Begins c s r answer c') : Retains s c c' := by
  have hnoted : ((c.noted s r).tx s).modes = (c.tx s).modes := by
    rw [noted, tx_updateTx_self]
    rfl
  have hmodes : (c'.tx s).modes = (c.tx s).modes := by
    cases hb with
    | aborted habort => exact hnoted
    | again habort hgranted => exact hnoted
    | granted habort hv =>
      rw [tx_updateTx_self]
      exact hnoted
    | waits habort hv =>
      rw [tx_signal_self]
      exact hnoted
    | refused habort hv =>
      rw [tx_signal_self]
      have hpromoted : (({ c.noted s r with locks := (c.locks.acquire s r).2 }.promote).tx s).modes =
          ((c.noted s r).tx s).modes := SessionTx.modes_of_unlatched unlatched_promote
      exact hpromoted.trans hnoted
  exact retains_of_modes hb.covered hmodes hb.keeps

end Coordinator

end LockingDb
