import LockingDb.Proofs.DatabaseRun
import LockingDb.Proofs.OwnCalls

namespace LockingDb

namespace Coordinator

variable {c c' : Coordinator} {s x : SessionId} {r : LockRequest} {a b : Access} {t : TableId}

/-- The session of an access has a transaction and the lock that the access takes. -/
structure Guards (c : Coordinator) (a : Access) : Prop where
  isOpen : (c.tx a.session).isOpen = true
  readsHeld : c.ReadsHeld a.session
  held : (c.locks.mode? a.session a.table).isSome = true
  written : a.kind.isWrite = true → c.locks.mode? a.session a.table = some .exclusive

/-- What a session has accessed stays guarded. -/
def KeepsGuards (s : SessionId) (c c' : Coordinator) : Prop :=
  ∀ a, a.session = s → c.Guards a → c'.Guards a

theorem Retains.keepsGuards (h : Retains s c c') : KeepsGuards s c c' := by
  rintro a rfl ha
  have hkeeps := h.keeps ha.readsHeld
  exact ⟨h.isOpen ha.isOpen, h.readsHeld ha.readsHeld, hkeeps.held a.table ha.held,
    fun hw => hkeeps.written a.table (ha.written hw)⟩

/-- A session without an open transaction has accessed nothing. -/
theorem keepsGuards_of_closed (h : (c.tx s).isOpen = false) : KeepsGuards s c c' := by
  rintro a rfl ha
  have hopen := ha.isOpen
  rw [h] at hopen
  cases hopen

/-- The locks of two sessions do not allow conflicting accesses. -/
theorem Guards.apart (ha : c.Guards a) (hb : c.Guards b) (h : c.locks.HoldersAgree)
    (hs : a.session ≠ b.session) : ¬a.conflictsWith b := by
  rintro ⟨htable, hwrite⟩
  rcases hwrite with hw | hw
  · have halone := h.writer_alone a.table a.session b.session (ha.written hw) (Ne.symm hs)
    have hheld := hb.held
    rw [← htable, halone] at hheld
    cases hheld
  · have halone := h.writer_alone b.table b.session a.session (hb.written hw) hs
    have hheld := ha.held
    rw [htable, halone] at hheld
    cases hheld

/-- The session runs the body of a statement: it has a transaction and all locks asked for. -/
structure Works (c : Coordinator) (s : SessionId) (r : LockRequest) : Prop where
  isOpen : (c.tx s).isOpen = true
  readsHeld : c.ReadsHeld s
  holdsAll : c.locks.holdsAll s r = true

theorem Works.of_retains (hw : c.Works s r) (h : Retains s c c') : c'.Works s r :=
  ⟨h.isOpen hw.isOpen, h.readsHeld hw.readsHeld, (h.keeps hw.readsHeld).holdsAll hw.holdsAll⟩

theorem Works.guards_scan (hw : c.Works s r) (hreadable : (c.readable r t).isOk = true) :
    c.Guards ⟨s, t, .scan⟩ := by
  obtain ⟨hwrites, hreads⟩ := LockTable.holdsAll_iff.mp hw.holdsAll
  refine ⟨hw.isOpen, hw.readsHeld, ?_, nofun⟩
  unfold readable at hreadable
  split at hreadable
  next hallowed =>
    rcases LockRequest.allowsRead_iff.mp hallowed with ht | ht
    · rw [hwrites t ht]
      rfl
    · exact hreads t ht
  next => cases hreadable

theorem mem_writes_of_writable (hwritable : (c.writable r t).isOk = true) : t ∈ r.writes := by
  unfold writable at hwritable
  split at hwritable
  next hallowed => exact LockRequest.allowsWrite_iff.mp hallowed
  next => cases hwritable

theorem writable_of_deletable {test : Row → Bool} {rows : List Row}
    (h : c.deletable s r t test = .ok rows) : (c.writable r t).isOk = true := by
  unfold deletable at h
  split at h
  next => cases h
  next hwritable =>
    rw [hwritable]
    rfl

theorem Works.guards_write (hw : c.Works s r) (ht : t ∈ r.writes) {kind : AccessKind} :
    c.Guards ⟨s, t, kind⟩ := by
  have hmode := (LockTable.holdsAll_iff.mp hw.holdsAll).1 t ht
  refine ⟨hw.isOpen, hw.readsHeld, ?_, fun _ => hmode⟩
  rw [hmode]
  rfl

theorem isOpen_resumeStatement (h : (c.resumeStatement s).1 = .ok ()) :
    ((c.resumeStatement s).2.tx s).isOpen = true := by
  unfold resumeStatement at h ⊢
  by_cases habort : c.abortRequested s = true
  · rw [if_pos habort] at h
    cases h
  · rw [if_neg habort]
    dsimp only
    split
    next hopen =>
      rw [tx_updateTx_self]
      exact hopen
    next =>
      unfold openTx
      rw [tx_updateTx_self]

theorem proceeds_insertRow {table store : TableId} {values : List Value} :
    Proceeds s c (c.insertRow s table store values).2 := by
  unfold insertRow
  split
  next => exact proceeds_of_eq rfl rfl
  next storage _ =>
    have hstored : Proceeds s c { c with storage } := proceeds_of_eq rfl rfl
    have hrecord (row : Row) : Proceeds s c ({ c with storage }.recordInsert s store row).2 :=
      hstored.trans proceeds_recordInsert
    split
    next heq =>
      rw [← congrArg Prod.snd heq]
      exact hrecord _
    next heq =>
      rw [← congrArg Prod.snd heq]
      exact hrecord _

theorem insertInto_eq {values : List Value} : (c.insertInto s r t values).2 = c ∨
    (c.insertInto s r t values).2 = (c.insertRow s t t values).2 := by
  unfold insertInto
  split
  next => exact Or.inl rfl
  next =>
    right
    split
    next heq => exact (congrArg Prod.snd heq).symm
    next heq => exact (congrArg Prod.snd heq).symm

theorem deleteAt_eq {position : RowPosition} : (c.deleteAt s r t position).2 = c ∨
    ∃ row, (c.deleteAt s r t position).2 = (c.recordDelete s t row).2 := by
  unfold deleteAt
  split
  next => exact Or.inl rfl
  next =>
    split
    next => exact Or.inl rfl
    next row _ => exact Or.inr ⟨row, rfl⟩

theorem proceeds_noteStatement {sql : String} : Proceeds s c (c.noteStatement s sql) :=
  proceeds_of_eq rfl rfl

theorem spares_noteStatement {sql : String} : Spares x c (c.noteStatement s sql) :=
  spares_of_eq rfl rfl rfl

theorem proceeds_insertInto {values : List Value} :
    Proceeds s c (c.insertInto s r t values).2 := by
  rcases insertInto_eq (c := c) (s := s) (r := r) (t := t) with heq | heq
  · rw [heq]
    exact .refl s c
  · rw [heq]
    exact proceeds_insertRow

theorem spares_insertInto (hx : x ≠ s) {values : List Value} :
    Spares x c (c.insertInto s r t values).2 := by
  rcases insertInto_eq (c := c) (s := s) (r := r) (t := t) with heq | heq
  · rw [heq]
    exact spares_of_eq rfl rfl rfl
  · rw [heq]
    exact spares_insertRow hx

theorem proceeds_deleteAt {position : RowPosition} :
    Proceeds s c (c.deleteAt s r t position).2 := by
  rcases deleteAt_eq (c := c) (s := s) (r := r) (t := t) with heq | ⟨row, heq⟩
  · rw [heq]
    exact .refl s c
  · rw [heq]
    exact proceeds_recordDelete

theorem spares_deleteAt (hx : x ≠ s) {position : RowPosition} :
    Spares x c (c.deleteAt s r t position).2 := by
  rcases deleteAt_eq (c := c) (s := s) (r := r) (t := t) with heq | ⟨row, heq⟩
  · rw [heq]
    exact spares_of_eq rfl rfl rfl
  · rw [heq]
    exact spares_recordDelete hx

end Coordinator

namespace Session

open Coordinator

variable {s : SessionId} {c c' : Coordinator} {x x' : Session} {e : Option Event}

/-- Where a statement holds its read locks, where it has its locks, and where its body runs. -/
def Locked (x : Session) (s : SessionId) (c : Coordinator) : Prop :=
  match x.activity with
  | .entering | .acquiring | .waiting | .finishing _ => c.ReadsHeld s
  | .resuming => c.ReadsHeld s ∧ c.locks.holdsAll s x.statement.request = true
  | .running _ => c.Works s x.statement.request
  | .deleting t _ _ _ => c.Works s x.statement.request ∧ t ∈ x.statement.request.writes
  | _ => True

theorem Locked.of_retains (hl : x.Locked s c) (h : Retains s c c') : x.Locked s c' := by
  unfold Locked at hl ⊢
  split at hl
  next => exact h.readsHeld hl
  next => exact h.readsHeld hl
  next => exact h.readsHeld hl
  next => exact h.readsHeld hl
  next => exact ⟨h.readsHeld hl.1, (h.keeps hl.1).holdsAll hl.2⟩
  next => exact hl.of_retains h
  next => exact ⟨hl.1.of_retains h, hl.2⟩
  next => trivial

/-- What a session does to its own transaction, and what is seen of it. -/
inductive Acts (s : SessionId) (c c' : Coordinator) : Option Event → Prop where
  | goesOn (hkeeps : KeepsGuards s c c') : Acts s c c' none
  | works {a : Access} (hs : a.session = s) (hguards : c.Guards a)
      (hkeeps : KeepsGuards s c c') : Acts s c c' (some (.access a))
  | commits {now : Timestamp} (hearly : c.clock.current < now) (hlate : now ≤ c'.clock.current) :
      Acts s c c' (some (.committed s now))
  | rollsBack : Acts s c c' (some (.rolledBack s))

theorem acts_rollback {c₁ : Coordinator} (htx : c₁.tx s = c.tx s) :
    Acts s c c' (c₁.rollbackEvent? s) := by
  unfold rollbackEvent?
  rw [htx]
  split
  next => exact .rollsBack
  next hclosed => exact .goesOn (keepsGuards_of_closed (Bool.eq_false_iff.mpr hclosed))

theorem acts_commit : Acts s c (c.commit s).2 (c.commitEvent? s) := by
  have hlater (c₁ : Coordinator) (hclock : c₁.clock = c.tick.2.clock) (rows : List RowId) :
      c.tick.1 ≤ ((c₁.endTx s rows).closeTx s c.tick.1).clock.current := by
    have hspares : Spares (s + 1) c₁ ((c₁.endTx s rows).closeTx s c.tick.1) :=
      (spares_endTx (Nat.succ_ne_self s)).trans (spares_closeTx (Nat.succ_ne_self s))
    exact Nat.le_trans (Nat.le_of_eq (congrArg Clock.current hclock).symm) hspares.clock
  unfold commitEvent? commit
  by_cases habort : c.abortRequested s = true
  · rw [if_pos habort, if_pos habort]
    exact .goesOn fun _ _ ha => ha
  · rw [if_neg habort, if_neg habort]
    dsimp only
    generalize persist s c.tick.1 (c.tick.2.tx s).actions c.tick.2.storage c.tick.2.journal = logged
    obtain ⟨answer, journal⟩ := logged
    cases answer with
    | error f => exact acts_rollback rfl
    | ok done =>
      -- The log has the commit, so it counts even if a row cannot be finalized.
      dsimp only
      by_cases hopen : (c.tick.2.tx s).isOpen = true
      · have hearly : c.clock.current < c.tick.1 := c.clock.lt_tick
        rw [if_pos hopen]
        refine .commits hearly ?_
        split
        all_goals
          dsimp only
          refine hlater _ ?_ _
          rfl
      · rw [if_neg hopen]
        exact .goesOn (keepsGuards_of_closed (Bool.eq_false_iff.mpr hopen))

/-- A move of a session, from the coordinator that it finds to what it leaves. -/
structure Advances (s : SessionId) (c : Coordinator) (e : Option Event) (x' : Session)
    (c' : Coordinator) : Prop where
  others : ∀ y, y ≠ s → Spares y c c'
  covered : c.Covered s → c'.Covered s
  locked : x'.Locked s c'
  acts : Acts s c c' e

theorem advances_of_retains (hothers : ∀ y, y ≠ s → Spares y c c') (h : Retains s c c')
    (hlocked : x'.Locked s c') : Advances s c none x' c' :=
  ⟨hothers, h.covered, hlocked, .goesOn h.keepsGuards⟩

theorem advances_of_access {a : Access} (hs : a.session = s) (hguards : c.Guards a)
    (hothers : ∀ y, y ≠ s → Spares y c c') (h : Retains s c c') (hlocked : x'.Locked s c') :
    Advances s c (some (.access a)) x' c' :=
  ⟨hothers, h.covered, hlocked, .works hs hguards h.keepsGuards⟩

theorem retains_refl (s : SessionId) (c : Coordinator) : Retains s c c := (Proceeds.refl s c).toRetains

theorem advances_stay (hlocked : x'.Locked s c) : Advances s c none x' c :=
  advances_of_retains (fun _ _ => spares_of_eq rfl rfl rfl) (retains_refl s c) hlocked

theorem advances_rollback (hlocked : x'.Locked s (c.rollback s)) :
    Advances s c (c.rollbackEvent? s) x' (c.rollback s) :=
  ⟨fun _ hy => spares_rollback hy, steady_rollback.covered, hlocked, acts_rollback rfl⟩

theorem advances_commit (hlocked : x'.Locked s (c.commit s).2) :
    Advances s c (c.commitEvent? s) x' (c.commit s).2 :=
  ⟨fun _ hy => spares_commit hy, steady_commit.covered, hlocked, acts_commit⟩

theorem advances_unregister (hlocked : x'.Locked s (c.unregister s)) :
    Advances s c (c.rollbackEvent? s) x' (c.unregister s) :=
  ⟨fun _ hy => spares_unregister hy, steady_unregister.covered, hlocked, acts_rollback rfl⟩

theorem proceeds_requestRedo : Proceeds s c (c.signal s .requestRedo) :=
  proceeds_updateTx ⟨rfl, id, rfl, id⟩

theorem proceeds_raiseAbort : Proceeds s c (c.signal s .raiseAbort) :=
  proceeds_updateTx ⟨rfl, fun _ => rfl, rfl, id⟩

/-- A step of a body keeps the transaction open and the locks of the statement. -/
theorem runBody_advances (hw : c.Works s x.statement.request) (body : StatementBody) :
    Advances s c ((x.access? s c body).map .access) (x.runBody s c body).1
      (x.runBody s c body).2 := by
  have hgoes {c' : Coordinator} (hp : Proceeds s c c') (next : StatementBody) :
      (x.become (.running next)).Locked s c' := hw.of_retains hp.toRetains
  have hsame (y : SessionId) (_ : y ≠ s) : Spares y c c := spares_of_eq rfl rfl rfl
  cases body with
  | done result => exact advances_stay hw.readsHeld
  | fail error => exact advances_stay trivial
  | sessionId next => exact advances_stay hw
  | requestRedo next =>
    exact advances_of_retains (fun _ hy => spares_signal hy) proceeds_requestRedo.toRetains
      (hgoes proceeds_requestRedo next)
  | raiseAbort next =>
    exact advances_of_retains (fun _ hy => spares_signal hy) proceeds_raiseAbort.toRetains
      (hgoes proceeds_raiseAbort next)
  | scan t next =>
    dsimp only [access?, runBody]
    split
    next hreadable =>
      exact advances_of_access rfl (hw.guards_scan hreadable) hsame (retains_refl s c) hw
    next => exact advances_stay hw
  | insert t values next =>
    have hp : Proceeds s c (c.insertInto s x.statement.request t values).2 := proceeds_insertInto
    have hothers (y : SessionId) (hy : y ≠ s) :
        Spares y c (c.insertInto s x.statement.request t values).2 := spares_insertInto hy
    dsimp only [access?, runBody]
    split
    next hwritable =>
      exact advances_of_access rfl (hw.guards_write (mem_writes_of_writable hwritable)) hothers
        hp.toRetains (hgoes hp _)
    next => exact advances_of_retains hothers hp.toRetains (hgoes hp _)
  | delete t position next =>
    have hp : Proceeds s c (c.deleteAt s x.statement.request t position).2 := proceeds_deleteAt
    have hothers (y : SessionId) (hy : y ≠ s) :
        Spares y c (c.deleteAt s x.statement.request t position).2 := spares_deleteAt hy
    dsimp only [access?, runBody]
    split
    next hwritable =>
      exact advances_of_access rfl (hw.guards_write (mem_writes_of_writable hwritable)) hothers
        hp.toRetains (hgoes hp _)
    next => exact advances_of_retains hothers hp.toRetains (hgoes hp _)
  | deleteWhere t test next =>
    -- To look for the rows is a scan; each delete is a step of its own.
    have hlocked : ((x.runBody s c (.deleteWhere t test next)).1).Locked s c := by
      dsimp only [runBody]
      split
      next => exact hw
      next hdeletable =>
        exact ⟨hw, mem_writes_of_writable (writable_of_deletable hdeletable)⟩
    have hleft : (x.runBody s c (.deleteWhere t test next)).2 = c := by
      dsimp only [runBody]
      split <;> rfl
    rw [hleft]
    dsimp only [access?]
    split
    next hwritable =>
      exact advances_of_access rfl (hw.guards_write (mem_writes_of_writable hwritable)) hsame
        (retains_refl s c) hlocked
    next => exact advances_stay hlocked

theorem acquiring_advances (hcovered : c.Covered s) (hreads : c.ReadsHeld s)
    (hactivity : x.activity = .acquiring) :
    Advances s c (x.observe s c) (x.step s c).1 (x.step s c).2 := by
  have hb := beginStatement_begins c s x.statement.request
  have hadvances (x' : Session)
      (hlocked : x'.Locked s (c.beginStatement s x.statement.request).2) :=
    advances_of_retains (fun _ hy => spares_beginStatement hy) hb.retains hlocked
  simp only [step, observe, hactivity]
  generalize c.beginStatement s x.statement.request = begun at hb hadvances
  obtain ⟨answer, c₁⟩ := begun
  have hreads₁ := hb.retains.readsHeld hreads
  split
  next heq =>
    cases heq
    exact hadvances _ ⟨hreads₁, hb.holdsAll hcovered⟩
  next heq =>
    cases heq
    exact hadvances _ hreads₁
  next heq =>
    cases heq
    exact hadvances _ trivial
  next heq =>
    cases heq
    exact hadvances _ trivial

theorem resuming_advances (hreads : c.ReadsHeld s)
    (hall : c.locks.holdsAll s x.statement.request = true) (hactivity : x.activity = .resuming) :
    Advances s c (x.observe s c) (x.step s c).1 (x.step s c).2 := by
  have hr : Retains s c (c.resumeStatement s).2 := proceeds_resumeStatement.toRetains
  have hadvances (x' : Session) (hlocked : x'.Locked s (c.resumeStatement s).2) :=
    advances_of_retains (fun _ hy => spares_resumeStatement hy) hr hlocked
  have hopen : (c.resumeStatement s).1 = .ok () → ((c.resumeStatement s).2.tx s).isOpen = true :=
    isOpen_resumeStatement
  simp only [step, observe, hactivity]
  generalize c.resumeStatement s = resumed at hr hadvances hopen
  obtain ⟨answer, c₁⟩ := resumed
  split
  next => exact advances_stay trivial
  next =>
    split
    next heq =>
      cases heq
      exact hadvances _ trivial
    next heq =>
      cases heq
      exact hadvances _ ⟨hopen rfl, hr.readsHeld hreads, (hr.keeps hreads).holdsAll hall⟩

theorem deleting_advances {t : TableId} {row : Row} {rows : List Row} {count : Nat}
    {next : Except Failure Nat → StatementBody} (hw : c.Works s x.statement.request)
    (ht : t ∈ x.statement.request.writes)
    (hactivity : x.activity = .deleting t (row :: rows) count next) :
    Advances s c (x.observe s c) (x.step s c).1 (x.step s c).2 := by
  have hr : Retains s c (c.recordDelete s t row).2 := proceeds_recordDelete.toRetains
  have hadvances (x' : Session) (hlocked : x'.Locked s (c.recordDelete s t row).2) :=
    advances_of_access (a := ⟨s, t, .delete⟩) rfl (hw.guards_write ht)
      (fun _ hy => spares_recordDelete hy) hr hlocked
  have hleft := hw.of_retains hr
  simp only [step, observe, hactivity]
  generalize c.recordDelete s t row = deleted at hadvances hleft
  obtain ⟨answer, c₁⟩ := deleted
  split
  next heq =>
    cases heq
    exact hadvances _ hleft
  next heq =>
    cases heq
    exact hadvances _ ⟨hleft, ht⟩

theorem finishing_advances {result : StatementResult} (hreads : c.ReadsHeld s)
    (hactivity : x.activity = .finishing result) :
    Advances s c (x.observe s c) (x.step s c).1 (x.step s c).2 := by
  have htaken : Proceeds s c (c.signal s fun _ => (c.tx s).signals.takeRedo.2) :=
    proceeds_updateTx ⟨rfl, id, rfl, id⟩
  simp only [step, observe, hactivity]
  split
  next =>
    -- The statement is run again, so its level still has to be strict.
    have hr := (htaken.trans proceeds_rollbackStatement).toRetains
    exact advances_of_retains
      (fun _ hy => (spares_signal hy).trans (spares_rollbackStatement hy)) hr (hr.readsHeld hreads)
  next =>
    exact advances_of_retains
      (fun _ hy => (spares_signal hy).trans (spares_completeStatement hy))
      (htaken.trans proceeds_completeStatement).toRetains trivial

theorem committing_advances {autocommit : Bool} {answer : Answer}
    (hactivity : x.activity = .committing autocommit answer) :
    Advances s c (x.observe s c) (x.step s c).1 (x.step s c).2 := by
  have hadvances (x' : Session) (hlocked : x'.Locked s (c.commit s).2) := advances_commit hlocked
  simp only [step, observe, hactivity]
  generalize c.commit s = committed at hadvances
  obtain ⟨answer, c₁⟩ := committed
  split
  next heq =>
    cases heq
    exact hadvances _ trivial
  next heq =>
    cases heq
    exact hadvances _ trivial
  next heq =>
    cases heq
    exact hadvances _ trivial

theorem step_advances (hcovered : c.Covered s) (hl : x.Locked s c) :
    Advances s c (x.observe s c) (x.step s c).1 (x.step s c).2 := by
  unfold Locked at hl
  cases hactivity : x.activity with
  | idle =>
    simp only [step, observe, hactivity]
    refine advances_stay ?_
    simp only [Locked, hactivity]
  | entering =>
    simp only [hactivity] at hl
    simp only [step, observe, hactivity]
    split
    next => exact advances_stay trivial
    next => exact advances_stay hl
  | acquiring =>
    simp only [hactivity] at hl
    exact acquiring_advances hcovered hl hactivity
  | waiting =>
    simp only [hactivity] at hl
    simp only [step, observe, hactivity]
    split
    next => exact advances_stay hl
    next => exact advances_stay trivial
    next => exact advances_stay trivial
    next =>
      refine advances_stay ?_
      simp only [Locked, hactivity]
      exact hl
  | timedOut =>
    simp only [step, observe, hactivity]
    exact advances_of_retains (fun _ hy => spares_cancelWait hy) proceeds_cancelWait.toRetains
      trivial
  | resuming =>
    simp only [hactivity] at hl
    exact resuming_advances hl.1 hl.2 hactivity
  | running body =>
    simp only [hactivity] at hl
    simp only [step, observe, hactivity]
    exact runBody_advances hl body
  | deleting t rows count next =>
    simp only [hactivity] at hl
    cases rows with
    | nil =>
      simp only [step, observe, hactivity]
      exact advances_stay hl.1
    | cons row rows => exact deleting_advances hl.1 hl.2 hactivity
  | failing error =>
    simp only [step, observe, hactivity]
    exact advances_of_retains (fun _ hy => spares_rollbackStatement hy)
      proceeds_rollbackStatement.toRetains trivial
  | failed error =>
    simp only [step, observe, hactivity]
    split
    next => exact advances_stay trivial
    next => split <;> exact advances_stay trivial
  | finishing result =>
    simp only [hactivity] at hl
    exact finishing_advances hl hactivity
  | finished result =>
    simp only [step, observe, hactivity]
    split
    next => exact advances_stay trivial
    next => split <;> exact advances_stay trivial
  | committing autocommit answer => exact committing_advances hactivity
  | rollingBack reply =>
    simp only [step, observe, hactivity]
    exact advances_rollback trivial

end Session

end LockingDb
