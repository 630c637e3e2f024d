import LockingDb.Proofs.SessionMoves

namespace LockingDb

open Coordinator

namespace Coordinator

variable {c c' : Coordinator} {s : SessionId}

theorem handles_setTx {tx : SessionTx} (hframe : tx.frame = (c.tx s).frame)
    (hlog : tx.log = (c.tx s).log) : Handles s c (c.setTx s tx) :=
  ⟨unmoved_setTx hframe, books_setTx hlog, Storage.adds_of_eq rfl, traces_of_eq rfl rfl⟩

theorem AtRest.beginTransaction (h : c.AtRest s) : (c.beginTransaction s).AtRest s := by
  unfold Coordinator.beginTransaction
  split
  next => exact h
  next =>
    have hopened : ((c.tick.2.openTx s c.tick.1).tx s) =
        { c.tx s with isOpen := true, beganAt := c.tick.1, actionAt := c.tick.1 } := by
      rw [openTx, tx_updateTx_self]
      rfl
    refine ⟨h.waits, fun hlow t ht => h.reads ?_ t ht, fun hclosed => ?_⟩
    · rwa [ReadsHeld, hopened] at hlow
    · rw [hopened] at hclosed
      cases hclosed

/-- Between two statements the level of a transaction may change only while none is open. -/
theorem AtRest.setTx (h : c.AtRest s) {tx : SessionTx} (hopen : tx.isOpen = (c.tx s).isOpen)
    (hlevel : (c.tx s).isOpen = true → tx.isolation = (c.tx s).isolation) :
    (c.setTx s tx).AtRest s := by
  have hself : (c.setTx s tx).tx s = tx := tx_setTx_self
  refine ⟨h.waits, fun hlow t ht => ?_, fun hclosed => ?_⟩
  · cases htx : (c.tx s).isOpen with
    | true =>
      rw [ReadsHeld, hself, hlevel htx] at hlow
      exact h.reads hlow t ht
    | false =>
      have hnone := h.unlocked htx t
      rw [show (c.setTx s tx).locks = c.locks from rfl, hnone] at ht
      cases ht
  · rw [hself, hopen] at hclosed
    exact h.unlocked hclosed

theorem AtRest.holds_setTx (h : c.AtRest s) {tx : SessionTx}
    (hlevel : (c.tx s).isOpen = true → tx.isolation = (c.tx s).isolation) :
    Holds s c (c.setTx s tx) := by
  refine ⟨fun t ht => ht, fun hheld t ht => ⟨ht, ?_⟩⟩
  cases htx : (c.tx s).isOpen with
  | true =>
    rw [ReadsHeld, tx_setTx_self, hlevel htx]
    exact hheld
  | false =>
    rw [h.unlocked htx t] at ht
    cases ht

end Coordinator

namespace Session

variable {s : SessionId} {c c' : Coordinator} {x x' : Session} {e : Bool}

theorem placed_of_idle (hidle : x.activity = .idle) (hclosed : x.closed = true → (c.tx s).isOpen = false)
    (hrest : c.AtRest s) : x.Placed s c := by
  refine ⟨fun h => ⟨hidle, hclosed h⟩, ?_⟩
  simp only [Stands, hidle]
  exact hrest

theorem Ready.atRest (h : x.Ready s c) (hidle : x.activity = .idle) : c.AtRest s := by
  have hstands := h.placed.stands
  simp only [Stands, hidle] at hstands
  exact hstands

theorem Ready.reset (h : x.Ready s c) (hidle : x.activity = .idle) :
    ({ x with reply := none, runs := 0 } : Session).Ready s c :=
  ⟨h.settled, h.covered, h.booked,
    placed_of_idle hidle (fun hclosed => (h.placed.resting hclosed).2) (h.atRest hidle)⟩

/-- A call that ends at once and finds nothing to do. -/
theorem Ready.moves_finish (h : x.Ready s c) (hidle : x.activity = .idle) {reply : Reply} :
    Moves s c e (x.finish reply) c :=
  h.stays (placed_of_idle rfl (fun hclosed => (h.placed.resting hclosed).2) (h.atRest hidle))

/-- A session that is closed leaves nothing behind. -/
theorem Ready.close_moves (h : x.Ready s c) (hidle : x.activity = .idle)
    (hidle' : x'.activity = .idle) : Moves s c (x.callEndsTx .close) x' (x.close s c).2 := by
  simp only [callEndsTx, close]
  split
  next hclosed =>
    exact h.stays (placed_of_idle hidle' (fun _ => (h.placed.resting hclosed).2) (h.atRest hidle))
  next hclosed =>
    obtain ⟨hfreed, hbooks⟩ := unregister_freed (s := s) h.settled.toCoherent
    have hleft := hfreed h.booked
    have hends : (!x.closed) = true := by simpa using hclosed
    exact ⟨fun y hy => spares_unregister hy, steady_unregister.settled h.settled,
      steady_unregister.covered h.covered, hbooks,
      placed_of_idle hidle' (fun _ => hleft.isOpen) hleft.atRest,
      unregister_last h.booked.guards_undo, fun hno => absurd (hno.symm.trans hends) Bool.false_ne_true⟩

/-- A mode of the transaction is set. -/
theorem Ready.moves_setTx (h : x.Ready s c) (hidle : x.activity = .idle) {tx : SessionTx}
    (hgranted : tx.granted = (c.tx s).granted)
    (hlog : tx.log = (c.tx s).log)
    (hlevel : (c.tx s).isOpen = true → tx.isolation = (c.tx s).isolation)
    (hidle' : x'.activity = .idle) (hclosed' : x'.closed = false) :
    Moves s c e x' (c.setTx s tx) := by
  have hrest := h.atRest hidle
  have hplaced : x'.Placed s (c.setTx s tx) := by
    refine placed_of_idle hidle' (fun hclosed => ?_) (hrest.setTx (congrArg Prod.fst hlog) hlevel)
    rw [hclosed'] at hclosed
    cases hclosed
  refine ⟨fun y hy => spares_setTx hy, h.settled, h.covered.of_keeps ?_ (.refl s c.locks),
    books_setTx hlog, hplaced, .idle rfl rfl, fun _ => hrest.holds_setTx hlevel⟩
  rw [tx_setTx_self]
  exact hgranted

theorem Ready.settle_moves (h : x.Ready s c) (hidle : x.activity = .idle)
    {outcome : Except Failure SessionTx}
    (hset : ∀ tx, outcome = .ok tx → Moves s c e (x.finish (.ok .done)) (c.setTx s tx)) :
    Moves s c e (x.settle s c outcome).1 (x.settle s c outcome).2 := by
  cases outcome with
  | error f => exact h.moves_finish hidle
  | ok tx => exact hset tx rfl

/-- A call that changes no lock and not where the transaction is. -/
theorem Ready.moves_unmoved (h : x.Ready s c) (hidle : x.activity = .idle)
    (hothers : ∀ y, y ≠ s → Spares y c c') (hp : Proceeds s c c')
    (hh : Handles s c c') (hactivity : x'.activity = .idle ∨ ∃ reply, x'.activity = .rollingBack reply)
    (hclosed' : x'.closed = false) : Moves s c e x' c' := by
  refine h.moves_handles hothers hp hh (placed_of_open hclosed' ?_)
  rcases hactivity with hidle' | ⟨reply, hback⟩
  · simp only [Stands, hidle']
    exact (h.atRest hidle).of_unmoved hh.toUnmoved
  · simp only [Stands, hback]

/-- A rollback to a savepoint is written down if it succeeds. -/
theorem Ready.undone_moves (h : x.Ready s c) (hidle : x.activity = .idle)
    (hopen : x.closed = false) {undone : Except Failure Unit × Coordinator} {sql : String}
    (hothers : ∀ y, y ≠ s → Spares y c undone.2) (hp : Proceeds s c undone.2)
    (hh : Handles s c undone.2) :
    Moves s c e
      (match undone with
        | (.error f, c) => (x.finish (.error f), c)
        | (.ok (), c) => (x.finish (.ok .done), c.noteStatement s sql)).1
      (match undone with
        | (.error f, c) => (x.finish (.error f), c)
        | (.ok (), c) => (x.finish (.ok .done), c.noteStatement s sql)).2 := by
  obtain ⟨answer, c₁⟩ := undone
  cases answer with
  | error f => exact h.moves_unmoved hidle hothers hp hh (Or.inl rfl) hopen
  | ok done =>
    exact h.moves_unmoved hidle (fun y hy => (hothers y hy).trans spares_noteStatement)
      (hp.trans proceeds_noteStatement) (hh.trans handles_noteStatement) (Or.inl rfl) hopen

theorem Ready.callOpen_moves (h : x.Ready s c) (hidle : x.activity = .idle)
    (hopen : x.closed = false) (k : SessionCall) :
    Moves s c (x.callEndsTx k) (x.callOpen s c k).1 (x.callOpen s c k).2 := by
  have hrest := h.atRest hidle
  have hfinish (reply : Reply) : Moves s c false (x.finish reply) c := h.moves_finish hidle
  have hbecome (activity : Activity) (hstands : (x.become activity).Stands s c) :
      Moves s c false (x.become activity) c := h.stays (placed_of_open hopen hstands)
  cases k with
  | begin =>
    exact h.moves_quiet (fun _ hy => spares_beginTransaction hy) proceeds_beginTransaction
      books_beginTransaction quiet_beginTransaction
      (placed_of_open (x := x.finish (.ok .done)) hopen hrest.beginTransaction)
  | commit => exact hbecome (.committing x.autocommit .done) hrest
  | prepare =>
    have hquiet : Quiet s c (c.prepare s).2 := quiet_prepare
    have hh : Handles s c (c.prepare s).2 :=
      ⟨unmoved_prepare, books_prepare, Storage.adds_of_eq hquiet.storage,
        traces_of_eq (congrArg Storage.calls hquiet.storage) hquiet.trace⟩
    have hmoves (x' : Session)
        (hactivity : x'.activity = .idle ∨ ∃ reply, x'.activity = .rollingBack reply)
        (hclosed' : x'.closed = false) : Moves s c false x' (c.prepare s).2 :=
      h.moves_unmoved hidle (fun y hy => spares_prepare hy) proceeds_prepare hh hactivity hclosed'
    dsimp only [callOpen, callEndsTx]
    generalize c.prepare s = prepared at hmoves
    obtain ⟨answer, c₁⟩ := prepared
    cases answer with
    | true => exact hmoves (x.finish (.ok .done)) (Or.inl rfl) hopen
    | false => exact hmoves x.giveUp (Or.inr ⟨_, rfl⟩) hopen
  | rollback =>
    dsimp only [callOpen, callEndsTx]
    split
    next =>
      exact h.moves_unmoved hidle (fun _ _ => spares_noteStatement) proceeds_noteStatement
        handles_noteStatement (Or.inr ⟨_, rfl⟩) hopen
    next => exact hbecome (.rollingBack (.ok .done)) trivial
  | savepoint name =>
    have hset : Proceeds s c (c.updateTx s (·.setSavepoint name)) :=
      proceeds_updateTx ⟨rfl, id, rfl, id⟩
    have hh : Handles s c (c.updateTx s (·.setSavepoint name)) := handles_setTx rfl rfl
    exact h.moves_unmoved hidle (fun _ hy => (spares_updateTx hy).trans spares_noteStatement)
      (hset.trans proceeds_noteStatement) (hh.trans handles_noteStatement) (Or.inl rfl) hopen
  | rollbackTo name =>
    exact h.undone_moves hidle hopen (fun y hy => spares_rollbackToSavepoint hy)
      proceeds_rollbackToSavepoint h.booked.handles_rollbackToSavepoint
  | rollbackToFirst =>
    exact h.undone_moves hidle hopen (fun y hy => spares_rollbackToIndex hy)
      proceeds_rollbackToIndex h.booked.handles_rollbackToIndex
  | release name =>
    dsimp only [callOpen, callEndsTx]
    split
    next => exact hfinish _
    next i _ =>
      have hset : Proceeds s c (c.updateTx s (·.truncateSavepoints i)) :=
        proceeds_updateTx ⟨rfl, id, rfl, id⟩
      have hh : Handles s c (c.updateTx s (·.truncateSavepoints i)) := handles_setTx rfl rfl
      exact h.moves_unmoved hidle (fun _ hy => spares_setTx hy) hset hh (Or.inl rfl) hopen
  | setAutocommit on =>
    dsimp only [callOpen, callEndsTx]
    split
    next => exact hbecome (.committing on .done) hrest
    next => exact h.stays (placed_of_open hopen hrest)
  | setIsolation level =>
    refine h.settle_moves hidle fun tx htx => ?_
    unfold SessionTx.setIsolation at htx
    split at htx
    next => cases htx
    next hclosed =>
      cases htx
      exact h.moves_setTx hidle rfl rfl (fun hyes => absurd hyes hclosed) rfl hopen
  | setIsolationDefault level =>
    exact h.moves_setTx hidle rfl rfl (fun hyes => if_pos hyes) rfl hopen
  | setReadOnly on =>
    refine h.settle_moves hidle fun tx htx => ?_
    unfold SessionTx.setReadOnly at htx
    split at htx
    next => cases htx
    next =>
      cases htx
      exact h.moves_setTx hidle rfl rfl (fun _ => rfl) rfl hopen
  | setReadOnlyDefault on => exact h.moves_setTx hidle rfl rfl (fun _ => rfl) rfl hopen
  | setLockWaitTimeout timeout => exact h.stays (placed_of_open hopen hrest)
  | setControl mode =>
    dsimp only [callOpen, callEndsTx]
    cases setControl s c mode with
    | error f => exact hfinish _
    | ok done => exact hfinish _
  | execute statement =>
    dsimp only [callOpen, callEndsTx]
    split
    next => exact hfinish _
    next => exact h.stays (placed_of_open hopen hrest)
  | close => exact h.close_moves hidle rfl

/-- A call on an idle session takes it from one place to another one. -/
theorem Ready.call_moves (h : x.Ready s c) (hidle : x.activity = .idle) (k : SessionCall) :
    Moves s c (x.callEndsTx k) (x.call s c k).1 (x.call s c k).2 := by
  by_cases hclosed : x.closed = true
  · obtain ⟨timeout, reply, hcall⟩ := call_of_closed (s := s) (c := c) hclosed k
    rw [hcall]
    exact h.stays (placed_of_idle rfl (fun _ => (h.placed.resting hclosed).2) (h.atRest hidle))
  · have hopen := Bool.eq_false_iff.mpr hclosed
    rw [call_of_open hopen]
    exact (h.reset hidle).callOpen_moves hidle hopen k

end Session

end LockingDb
