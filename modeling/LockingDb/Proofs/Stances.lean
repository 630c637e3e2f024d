import LockingDb.Proofs.TransactionEnd

namespace LockingDb

/-- Whether a transaction is open, its level, and the locks of its statement. -/
def SessionTx.frame (tx : SessionTx) : Bool × IsolationLevel × Option LockRequest :=
  (tx.isOpen, tx.isolation, tx.request)

namespace Coordinator

variable {c c' c₂ : Coordinator} {s x : SessionId} {r : LockRequest} {t : TableId}
  {reads reads' : IdSet} {answer : Except Failure LockAnswer}

/-- A session that does not hold its read locks reads none but the given tables. -/
def ReadsWithin (c : Coordinator) (s : SessionId) (reads : IdSet) : Prop :=
  ¬c.ReadsHeld s → ∀ t, c.locks.mode? s t = some .shared → t ∈ reads

/-- Between two statements a session does not wait, and without a transaction it has no lock. -/
structure AtRest (c : Coordinator) (s : SessionId) : Prop where
  waits : c.locks.isWaiting s = false
  reads : c.ReadsWithin s ∅
  unlocked : (c.tx s).isOpen = false → ∀ t, c.locks.mode? s t = none

/-- The session asks for the locks of a request and for no others. -/
structure Asking (c : Coordinator) (s : SessionId) (r : LockRequest) : Prop where
  asks : ∀ n w, c.locks.Queued s n w → w.request = r
  reads : c.ReadsWithin s r.reads

/-- The session works on a statement for which it need not wait any more. -/
structure Underway (c : Coordinator) (s : SessionId) (r : LockRequest) : Prop where
  waits : c.locks.isWaiting s = false
  noted : (c.tx s).request = some r
  reads : c.ReadsWithin s r.reads

/-- The body of the statement runs in a transaction, with all locks that it needs. -/
structure Executes (c : Coordinator) (s : SessionId) (r : LockRequest) : Prop extends
    Underway c s r where
  holdsAll : c.locks.holdsAll s r = true
  isOpen : (c.tx s).isOpen = true

theorem readsHeld_of_frame (h : (c'.tx s).frame = (c.tx s).frame) :
    c'.ReadsHeld s ↔ c.ReadsHeld s := by
  have hlevel : (c'.tx s).isolation = (c.tx s).isolation := congrArg (fun frame => frame.2.1) h
  rw [ReadsHeld, hlevel, ReadsHeld]

theorem frame_of_unlatched (h : (c'.tx x).unlatched = (c.tx x).unlatched) :
    (c'.tx x).frame = (c.tx x).frame := by
  rw [SessionTx.eq_of_unlatched h]
  rfl

theorem ReadsWithin.mono (h : c.ReadsWithin s reads) (hmore : ∀ t, t ∈ reads → t ∈ reads') :
    c.ReadsWithin s reads' := fun hlevel t ht => hmore t (h hlevel t ht)

theorem readsWithin_of_unlocked (h : ∀ t, c.locks.mode? s t = none) : c.ReadsWithin s reads := by
  intro _ t ht
  rw [h t] at ht
  cases ht

theorem Freed.atRest (h : c.Freed s) : c.AtRest s :=
  ⟨h.waits, readsWithin_of_unlocked h.unlocked, fun _ => h.unlocked⟩

theorem AtRest.asking (h : c.AtRest s) (hcoherent : c.locks.Coherent) : c.Asking s r := by
  refine ⟨fun n w hq => absurd hq (hcoherent.isWaiting_eq_false.mp h.waits n w), h.reads.mono ?_⟩
  exact fun t ht => absurd ht IdSet.not_mem_empty

/-- The session has the same locks, and its transaction is where it was. -/
structure Unmoved (s : SessionId) (c c' : Coordinator) : Prop where
  locks : c'.locks = c.locks
  frame : (c'.tx s).frame = (c.tx s).frame

theorem Unmoved.refl (s : SessionId) (c : Coordinator) : Unmoved s c c := ⟨rfl, rfl⟩

theorem Unmoved.trans (h : Unmoved s c c') (h₂ : Unmoved s c' c₂) : Unmoved s c c₂ :=
  ⟨h₂.locks.trans h.locks, h₂.frame.trans h.frame⟩

theorem Unmoved.isOpen (h : Unmoved s c c') : (c'.tx s).isOpen = (c.tx s).isOpen :=
  congrArg Prod.fst h.frame

theorem Unmoved.written (h : Unmoved s c c') (t : TableId)
    (ht : c.locks.mode? s t = some .exclusive) : c'.locks.mode? s t = some .exclusive := h.locks ▸ ht

theorem Unmoved.readsWithin (h : Unmoved s c c') (hreads : c.ReadsWithin s reads) :
    c'.ReadsWithin s reads := by
  intro hlevel t ht
  rw [readsHeld_of_frame h.frame] at hlevel
  rw [h.locks] at ht
  exact hreads hlevel t ht

theorem AtRest.of_unmoved (h : c.AtRest s) (hsame : Unmoved s c c') : c'.AtRest s := by
  refine ⟨hsame.locks ▸ h.waits, hsame.readsWithin h.reads, fun hclosed => ?_⟩
  rw [hsame.isOpen] at hclosed
  rw [hsame.locks]
  exact h.unlocked hclosed

theorem Underway.of_unmoved (h : c.Underway s r) (hsame : Unmoved s c c') : c'.Underway s r := by
  have hnoted : (c'.tx s).request = (c.tx s).request := congrArg (fun frame => frame.2.2) hsame.frame
  exact ⟨hsame.locks ▸ h.waits, hnoted.trans h.noted, hsame.readsWithin h.reads⟩

theorem Executes.of_unmoved (h : c.Executes s r) (hsame : Unmoved s c c') : c'.Executes s r :=
  ⟨h.toUnderway.of_unmoved hsame, hsame.locks ▸ h.holdsAll, hsame.isOpen.trans h.isOpen⟩

theorem Executes.written (h : c.Executes s r) (ht : t ∈ r.writes) :
    c.locks.mode? s t = some .exclusive := (LockTable.holdsAll_iff.mp h.holdsAll).1 t ht

theorem Executes.held (h : c.Executes s r) (hallowed : r.allowsRead t = true) :
    (c.locks.mode? s t).isSome = true := by
  rcases LockRequest.allowsRead_iff.mp hallowed with ht | ht
  · exact isSome_of_exclusive (h.written ht)
  · exact (LockTable.holdsAll_iff.mp h.holdsAll).2 t ht

theorem Spares.isOpen (h : Spares x c c') : (c'.tx x).isOpen = (c.tx x).isOpen :=
  congrArg Prod.fst (frame_of_unlatched h.tx)

section Spared

variable (h : c.locks.Coherent) (hspares : Spares x c c')

include h hspares

/-- Others give a session no lock to read that it does not wait for. -/
theorem ReadsWithin.of_spares (hreads : c.ReadsWithin x reads)
    (hasked : ∀ n w, c.locks.Queued x n w → ∀ t, t ∈ w.request.reads → t ∈ reads) :
    c'.ReadsWithin x reads := by
  intro hlevel t ht
  have hlevel : ¬c.ReadsHeld x := fun hheld =>
    hlevel ((readsHeld_of_frame (frame_of_unlatched hspares.tx)).mpr hheld)
  rcases hspares.gains h t .shared ht with hold | ⟨n, w, hq, hread⟩
  · exact hreads hlevel t hold
  · exact hasked n w hq t (hread rfl)

theorem AtRest.of_spares (hrest : c.AtRest x) : c'.AtRest x := by
  have hnobody := h.isWaiting_eq_false.mp hrest.waits
  refine ⟨hspares.not_waiting h hrest.waits, ?_, fun hclosed t => ?_⟩
  · exact hrest.reads.of_spares h hspares fun n w hq => absurd hq (hnobody n w)
  · rw [hspares.isOpen] at hclosed
    refine Option.eq_none_iff_forall_not_mem.mpr fun m hm => ?_
    have hheld := hspares.mode?_eq_some h hrest.waits hm
    rw [hrest.unlocked hclosed t] at hheld
    cases hheld

theorem Asking.of_spares (hasking : c.Asking x r) : c'.Asking x r := by
  refine ⟨fun n w hq => hasking.asks n w (hspares.queued h n w hq), ?_⟩
  refine hasking.reads.of_spares h hspares fun n w hq t ht => ?_
  rw [← hasking.asks n w hq]
  exact ht

theorem Underway.of_spares (hunder : c.Underway x r) : c'.Underway x r := by
  have hnoted : (c'.tx x).request = (c.tx x).request :=
    congrArg (fun frame => frame.2.2) (frame_of_unlatched hspares.tx)
  have hnobody := h.isWaiting_eq_false.mp hunder.waits
  refine ⟨hspares.not_waiting h hunder.waits, hnoted.trans hunder.noted, ?_⟩
  exact hunder.reads.of_spares h hspares fun n w hq => absurd hq (hnobody n w)

theorem Executes.of_spares (hruns : c.Executes x r) : c'.Executes x r :=
  ⟨hruns.toUnderway.of_spares h hspares, hspares.keeps.holdsAll hruns.holdsAll,
    hspares.isOpen.trans hruns.isOpen⟩

end Spared

theorem unmoved_setTx {tx : SessionTx} (h : tx.frame = (c.tx s).frame) : Unmoved s c (c.setTx s tx) := by
  refine ⟨rfl, ?_⟩
  rw [tx_setTx_self]
  exact h

theorem unmoved_signal {f : Signals → Signals} : Unmoved s c (c.signal s f) := unmoved_setTx rfl

theorem unmoved_storage {storage : Storage} {trace : List TracedCall} :
    Unmoved s c { c with storage, trace } := ⟨rfl, rfl⟩

theorem unmoved_noteStatement {sql : String} : Unmoved s c (c.noteStatement s sql) := ⟨rfl, rfl⟩

theorem unmoved_prepare : Unmoved s c (c.prepare s).2 := by
  have htick : Unmoved s c c.tick.2 := ⟨rfl, rfl⟩
  unfold prepare
  split
  next => exact .refl s c
  next => exact htick.trans (unmoved_setTx rfl)

theorem unmoved_claim {storage : Storage} {owners : RowOwnership} {a : RowAction} :
    Unmoved s c ({ c.withCalls s storage with owners }.updateTx s (·.pushAction a)) := by
  have hclaimed : Unmoved s c { c.withCalls s storage with owners } := ⟨rfl, rfl⟩
  exact hclaimed.trans (unmoved_setTx rfl)

theorem unmoved_recordInsert {store : TableId} {row : Row} :
    Unmoved s c (c.recordInsert s store row).2 := by
  unfold recordInsert
  split
  next => exact unmoved_storage
  next => exact unmoved_claim

theorem unmoved_recordDelete {store : TableId} {row : Row} :
    Unmoved s c (c.recordDelete s store row).2 := by
  unfold recordDelete
  split
  next => exact .refl s c
  next =>
    split
    next => exact unmoved_storage
    next => exact unmoved_claim

theorem frame_undoTo {start : Nat} {now : Timestamp} :
    ((c.undoTo s start now).2.tx s).frame = (c.tx s).frame := by
  rw [tx_undoTo_self]
  unfold SessionTx.truncateActions
  split <;> rfl

theorem unmoved_undoTo {start : Nat} {now : Timestamp} : Unmoved s c (c.undoTo s start now).2 :=
  ⟨rfl, frame_undoTo⟩

theorem unmoved_rollbackToIndex {i : Nat} : Unmoved s c (c.rollbackToIndex s i).2 := by
  unfold rollbackToIndex
  split
  next => exact .refl s c
  next savepoint _ =>
    have hundone : Unmoved s c (c.undoTo s savepoint.logLength savepoint.timestamp).2 :=
      unmoved_undoTo
    have hcut : Unmoved s c ((c.undoTo s savepoint.logLength savepoint.timestamp).2.updateTx s
      (·.truncateSavepoints (i + 1))) := hundone.trans (unmoved_setTx rfl)
    exact ⟨hcut.locks, hcut.frame⟩

theorem unmoved_rollbackToSavepoint {name : String} :
    Unmoved s c (c.rollbackToSavepoint s name).2 := by
  unfold rollbackToSavepoint
  split
  next => exact .refl s c
  next => exact unmoved_rollbackToIndex

/-- A statement that was begun asks for its locks only, and one that may go on has them. -/
theorem Begins.asking (hb : Begins c s r answer c') (h : c.locks.Coherent) (hcovered : c.Covered s)
    (hasking : c.Asking s r) : c'.Asking s r ∧
      (answer = .ok .proceed → c'.Underway s r ∧ c'.locks.holdsAll s r = true) := by
  obtain ⟨signals, granted, htx⟩ := hb.tx_eq
  have hnoted : (c'.tx s).request = some r := by rw [htx]
  have hlevel (hlow : ¬c'.ReadsHeld s) : ¬c.ReadsHeld s := by
    intro hheld
    refine hlow ?_
    unfold ReadsHeld
    rw [htx]
    exact hheld
  have hacquired (t : TableId) (ht : (c.locks.acquire s r).2.mode? s t = some .shared)
      (hlow : ¬c.ReadsHeld s) : t ∈ r.reads := by
    rcases LockTable.shared_of_acquire ht with hold | hread
    · exact hasking.reads hlow t hold
    · exact hread
  have hqueued (n : Nat) (w : Waiter) (hq : (c.locks.acquire s r).2.Queued s n w) :
      w.request = r ∧ ∃ behind, (c.locks.acquire s r).1 = .wait behind :=
    LockTable.queued_acquire h hq
  have hout (hv : (c.locks.acquire s r).1 = .granted ∨ ∃ b, (c.locks.acquire s r).1 = .deadlock b) :
      (c.locks.acquire s r).2.isWaiting s = false := by
    refine h.acquire.isWaiting_eq_false.mpr fun n w hq => ?_
    obtain ⟨-, behind, hwait⟩ := hqueued n w hq
    rcases hv with hv | ⟨b, hv⟩
    all_goals
      rw [hwait] at hv
      cases hv
  have hholds : answer = .ok .proceed → c'.locks.holdsAll s r = true := by
    rintro rfl
    exact hb.holdsAll hcovered
  cases hb with
  | aborted habort => exact ⟨⟨hasking.asks, fun hlow => hasking.reads (hlevel hlow)⟩, nofun⟩
  | again habort hgranted =>
    have hnobody (n : Nat) (w : Waiter) (hq : c.locks.Queued s n w) : False := by
      have hmore := h.unserved s n w hq
      rw [hasking.asks n w hq, hcovered r hgranted] at hmore
      cases hmore
    have hreads : (c.noted s r).ReadsWithin s r.reads := fun hlow => hasking.reads (hlevel hlow)
    refine ⟨⟨hasking.asks, hreads⟩, fun hgo => ⟨⟨?_, hnoted, hreads⟩, hholds hgo⟩⟩
    exact h.isWaiting_eq_false.mpr hnobody
  | granted habort hv =>
    have hreads (hlow : _) (t : TableId) (ht : _) : t ∈ r.reads := hacquired t ht (hlevel hlow)
    refine ⟨⟨fun n w hq => (hqueued n w hq).1, hreads⟩, fun hgo => ⟨⟨?_, hnoted, hreads⟩, hholds hgo⟩⟩
    exact hout (Or.inl hv)
  | waits habort hv =>
    exact ⟨⟨fun n w hq => (hqueued n w hq).1, fun hlow t ht => hacquired t ht (hlevel hlow)⟩, nofun⟩
  | refused habort hv =>
    have hwaits := hout (Or.inr ⟨_, hv⟩)
    have hspares : LockTable.Spares s (c.locks.acquire s r).2 (c.locks.acquire s r).2.promote.2 :=
      LockTable.spares_promote
    refine ⟨⟨fun n w hq => ?_, fun hlow t ht => ?_⟩, nofun⟩
    · rw [signal_locks, promote_locks] at hq
      exact (hqueued n w (hspares.queued h.acquire n w hq)).1
    · rw [signal_locks, promote_locks] at ht
      exact hacquired t (hspares.mode?_eq_some h.acquire hwaits ht) (hlevel hlow)

/-- When a statement below repeatable read is over, no read lock is left. -/
theorem Underway.endStatement (hunder : c.Underway s r) (h : c.locks.Settled)
    (hopen : (c.tx s).isOpen = true) : (c.endStatement s).AtRest s := by
  have hp : Proceeds s c (c.endStatement s) := proceeds_endStatement
  have hopen' := hp.isOpen hopen
  have hnobody := h.isWaiting_eq_false.mp hunder.waits
  have hwaits : (c.endStatement s).locks.isWaiting s = false :=
    (hp.settled h).isWaiting_eq_false.mpr fun n w hq => hnobody n w (hp.queued h n w hq).1
  refine ⟨hwaits, fun hlow t ht => ?_, fun hclosed => ?_⟩
  · have hlow : ¬(c.tx s).isolation.holdsReadLocks = true := fun hheld => hlow (hp.readsHeld hheld)
    exfalso
    unfold Coordinator.endStatement at ht
    dsimp only at ht
    rw [if_neg hlow, hunder.noted] at ht
    dsimp only at ht
    split at ht
    next hempty =>
      have hread := hunder.reads hlow t ht
      exact IdSet.isEmpty_iff.mp hempty t hread
    next =>
      have hleft : (c.locks.releaseShared s r.reads.toList).2.mode? s t = some .shared := by
        split at ht
        next =>
          rw [updateTx_locks, promote_locks] at ht
          refine LockTable.spares_promote.mode?_eq_some h.toCoherent.releaseShared ?_ ht
          rw [LockTable.isWaiting_of_line LockTable.releaseShared_line]
          exact hunder.waits
        next => exact ht
      rw [LockTable.mode?_releaseShared] at hleft
      split at hleft
      next => cases hleft
      next hkept =>
        have hread := hunder.reads hlow t hleft
        exact hkept ⟨rfl, hread, hleft⟩
  · rw [hopen'] at hclosed
    cases hclosed

end Coordinator

end LockingDb
