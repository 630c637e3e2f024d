import LockingDb.Proofs.LedgerCommit

namespace LockingDb

namespace Storage

variable {p q : TableId × StoreCall → Prop} {s s' s₂ : Storage} {a : RowAction} {row : Option Row}
  {now : Timestamp}

/-- Which calls of a table fail. -/
def faults? (s : Storage) (t : TableId) : Option (Nat → StoreCall → Option Failure) :=
  (s.tables.get? t).map Table.faults

/-- All calls made from one storage to another one are as told, and the tables fail as before. -/
structure Adds (p : TableId × StoreCall → Prop) (s s' : Storage) : Prop where
  calls : ∃ made, s'.calls = made ++ s.calls ∧ ∀ k ∈ made, p k
  faults : ∀ t, s'.faults? t = s.faults? t

theorem adds_of_eq (h : s' = s) : s.Adds p s' := by
  subst h
  exact ⟨⟨[], rfl, nofun⟩, fun _ => rfl⟩

theorem Adds.trans (h : s.Adds p s') (h₂ : s'.Adds p s₂) : s.Adds p s₂ := by
  obtain ⟨made, hmade, hp⟩ := h.calls
  obtain ⟨made₂, hmade₂, hp₂⟩ := h₂.calls
  refine ⟨⟨made₂ ++ made, ?_, fun k hk => ?_⟩, fun t => (h₂.faults t).trans (h.faults t)⟩
  · rw [hmade₂, hmade, List.append_assoc]
  · rcases List.mem_append.mp hk with hk | hk
    · exact hp₂ k hk
    · exact hp k hk

theorem faults?_setStore {t : TableId} {store : RowStore} (u : TableId) :
    (s.setStore t store).faults? u = s.faults? u := by
  unfold setStore faults?
  rw [IdMap.get?_modify]
  split
  next hu =>
    rw [hu, Option.map_map]
    rfl
  next => rfl

theorem call_adds {t : TableId} {k : StoreCall} (h : p (t, k)) : s.Adds p (s.call t k).2 := by
  have hnoted : ∀ k' ∈ [(t, k)], p k' := by
    intro k' hk'
    rw [List.mem_singleton.mp hk']
    exact h
  unfold call
  split
  next => exact adds_of_eq rfl
  next =>
    dsimp only
    split
    next => exact ⟨⟨[(t, k)], rfl, hnoted⟩, fun _ => rfl⟩
    next =>
      split
      next => exact ⟨⟨[(t, k)], rfl, hnoted⟩, fun _ => rfl⟩
      next => exact ⟨⟨[(t, k)], rfl, hnoted⟩, faults?_setStore⟩

theorem newRow_adds {t : TableId} {values : List Value} : s.Adds p (s.newRow t values).2 := by
  unfold newRow
  split
  next => exact adds_of_eq rfl
  next => exact ⟨⟨[], rfl, nofun⟩, faults?_setStore⟩

theorem undo_adds (h : ∀ r type, p (a.store, .rollback r type)) :
    s.Adds p (a.undo row now s).2.2 := by
  have hcall (r : Row) : s.Adds p (s.call a.store (.rollback r a.type)).2 := call_adds (h r a.type)
  unfold RowAction.undo
  split
  next => exact adds_of_eq rfl
  next =>
    split
    next => exact adds_of_eq rfl
    next r =>
      have hadds := hcall r
      generalize s.call a.store (.rollback r a.type) = called at hadds
      obtain ⟨answer, s'⟩ := called
      cases answer <;> exact hadds

theorem undoAll_adds {as : List RowAction} (h : ∀ a ∈ as, ∀ r type, p (a.store, .rollback r type)) :
    s.Adds p (Coordinator.undoAll now as s) := by
  induction as generalizing s with
  | nil => exact adds_of_eq rfl
  | cons a rest ih =>
    have hfirst : s.Adds p (a.undo (a.row? s) now s).2.2 := undo_adds (h a List.mem_cons_self)
    exact hfirst.trans (ih fun b hb => h b (List.mem_cons_of_mem a hb))

theorem finalizeAll_adds {as : List RowAction} (h : ∀ a ∈ as, ∀ r type, p (a.store, .commit r type)) :
    s.Adds p (Coordinator.finalizeAll now as s).2 := by
  induction as generalizing s with
  | nil => exact adds_of_eq rfl
  | cons a rest ih =>
    have hrest (s : Storage) := ih (s := s) fun b hb => h b (List.mem_cons_of_mem a hb)
    unfold Coordinator.finalizeAll
    split
    next => exact hrest s
    next r _ =>
      have hfirst : s.Adds p (s.call a.store (.commit r (a.commit now).type)).2 :=
        call_adds (h a List.mem_cons_self r _)
      generalize s.call a.store (.commit r (a.commit now).type) = called at hfirst
      obtain ⟨answer, s'⟩ := called
      cases answer <;> exact hfirst.trans (hrest s')

end Storage

theorem Indexes.get?_eq_none {index : IdMap (List Nat)} {as : List RowAction} {row : RowId}
    (h : Indexes index as) : index.get? row = none ↔ ∀ a ∈ as, a.row ≠ row := by
  rw [h row]
  constructor
  · intro hnone a ha hrow
    split at hnone
    next hempty =>
      obtain ⟨i, hi⟩ := List.mem_iff_getElem?.mp ha
      have hin := mem_placesIn.mpr ⟨a, hi, hrow⟩
      rw [hempty] at hin
      cases hin
    next => cases hnone
  · intro hno
    refine if_pos (List.eq_nil_iff_forall_not_mem.mpr fun i hi => ?_)
    obtain ⟨a, ha, hrow⟩ := mem_placesIn.mp hi
    exact hno a (List.mem_of_getElem? ha) hrow

/-- Whether a transaction is open, and its log. -/
def SessionTx.log (tx : SessionTx) : Bool × List RowAction × IdMap (List Nat) :=
  (tx.isOpen, tx.actions, tx.rowIndex)

theorem SessionTx.eq_of_unlatched {tx tx' : SessionTx} (h : tx'.unlatched = tx.unlatched) :
    tx' = { tx with signals := tx'.signals } := by
  cases tx
  cases tx'
  simp only [unlatched, mk.injEq] at h ⊢
  simp [h]

namespace Coordinator

variable {c c' c₁ c₂ : Coordinator} {s x y : SessionId} {r : LockRequest} {now : Timestamp}
  {answer : Except Failure LockAnswer} {p : TableId × StoreCall → Prop}

/-- The owners of rows, and how many transactions are open. -/
def accounts (c : Coordinator) : RowOwnership × Nat := (c.owners, c.openCount)

theorem wake_accounts : (c.wake s).accounts = c.accounts := by
  unfold wake
  split <;> rfl

theorem promote_accounts : c.promote.accounts = c.accounts :=
  List.foldlRecOn (motive := fun c' : Coordinator => c'.accounts = c.accounts) _ _ rfl
    fun _ hc _ _ => wake_accounts.trans hc

theorem withdraw_accounts : (c.withdraw s).accounts = c.accounts := by
  unfold withdraw
  dsimp only
  split
  next => exact promote_accounts
  next => rfl

theorem releaseLocks_accounts : (c.releaseLocks s).accounts = c.accounts := by
  unfold releaseLocks
  dsimp only
  split
  next => exact promote_accounts
  next => rfl

theorem dropReads_accounts {tables : List TableId} : (c.dropReads s tables).accounts = c.accounts := by
  unfold dropReads
  dsimp only
  split
  next => exact promote_accounts
  next => rfl

theorem Begins.accounts (hb : Begins c s r answer c') : c'.accounts = c.accounts := by
  cases hb with
  | refused habort hv => exact promote_accounts
  | _ => rfl

theorem owners_of_accounts (h : c'.accounts = c.accounts) : c'.owners = c.owners :=
  congrArg Prod.fst h

theorem owners_endStatement : (c.endStatement s).owners = c.owners := by
  unfold endStatement
  dsimp only
  split
  next => rfl
  next =>
    split
    next => rfl
    next r _ =>
      split
      next => rfl
      next =>
        have hdropped : ((c.setTx s { c.tx s with request := none }).dropReads s
            r.reads.toList).owners = c.owners := owners_of_accounts dropReads_accounts
        exact hdropped

theorem owners_beginTransaction : (c.beginTransaction s).owners = c.owners := by
  unfold beginTransaction
  split <;> rfl

theorem owners_resumeStatement : (c.resumeStatement s).2.owners = c.owners := by
  unfold resumeStatement
  split
  next => rfl
  next =>
    dsimp only
    split <;> rfl

theorem owners_prepare : (c.prepare s).2.owners = c.owners := by
  unfold prepare
  split <;> rfl

theorem owners_cancelWait : (c.cancelWait s).owners = c.owners :=
  owners_of_accounts withdraw_accounts

/-- The books of a session: its log has an index, each row that it owns is in the log, it has the
tables of the log for itself, and its transaction is open if there is anything in the log. -/
structure Booked (c : Coordinator) (s : SessionId) : Prop where
  indexed : Indexes (c.tx s).rowIndex (c.tx s).actions
  owned : ∀ row, c.owners.owner? row = some s → ∃ a ∈ (c.tx s).actions, a.row = row
  written : ∀ a ∈ (c.tx s).actions, c.locks.mode? s a.store = some .exclusive
  isOpen : (c.tx s).actions ≠ [] → (c.tx s).isOpen = true

/-- The count of open transactions follows the session. -/
def Tallies (s : SessionId) (c c' : Coordinator) : Prop :=
  ((c.tx s).isOpen = true → 0 < c.openCount) →
    c'.openCount + (c.tx s).isOpen.toNat = c.openCount + (c'.tx s).isOpen.toNat

/-- What a call of a session does to the books. -/
structure Books (s : SessionId) (c c' : Coordinator) : Prop where
  own : c.Booked s → c'.Booked s
  others : ∀ y, y ≠ s → ∀ row, c'.owners.owner? row = some y → c.owners.owner? row = some y
  tallies : Tallies s c c'

theorem Tallies.trans (h : Tallies s c c') (h₂ : Tallies s c' c₂) : Tallies s c c₂ := by
  intro hpos
  have hfirst := h hpos
  have hsecond := h₂ fun hopen => by
    rw [hopen, Bool.toNat_true] at hfirst
    cases hbefore : (c.tx s).isOpen with
    | true =>
      have hcount := hpos hbefore
      rw [hbefore, Bool.toNat_true] at hfirst
      omega
    | false =>
      rw [hbefore, Bool.toNat_false] at hfirst
      omega
  omega

theorem Books.trans (h : Books s c c') (h₂ : Books s c' c₂) : Books s c c₂ where
  own hc := h₂.own (h.own hc)
  others y hy row hrow := h.others y hy row (h₂.others y hy row hrow)
  tallies := h.tallies.trans h₂.tallies

theorem books_of_log (hlog : (c'.tx s).log = (c.tx s).log) (haccounts : c'.accounts = c.accounts)
    (hwritten : ∀ t, c.locks.mode? s t = some .exclusive → c'.locks.mode? s t = some .exclusive) :
    Books s c c' := by
  obtain ⟨howners, hcount⟩ : c'.owners = c.owners ∧ c'.openCount = c.openCount := by
    simpa [accounts] using haccounts
  obtain ⟨hopen, hactions, hindex⟩ : (c'.tx s).isOpen = (c.tx s).isOpen ∧
      (c'.tx s).actions = (c.tx s).actions ∧ (c'.tx s).rowIndex = (c.tx s).rowIndex := by
    simpa [SessionTx.log] using hlog
  refine ⟨fun h => ⟨?_, ?_, ?_, ?_⟩, fun y _ row hrow => howners ▸ hrow, fun _ => ?_⟩
  · rw [hindex, hactions]
    exact h.indexed
  · rw [howners, hactions]
    exact h.owned
  · intro a ha
    rw [hactions] at ha
    exact hwritten a.store (h.written a ha)
  · rw [hactions, hopen]
    exact h.isOpen
  · rw [hcount, hopen]

theorem books_of_unlatched (htx : (c'.tx s).unlatched = (c.tx s).unlatched)
    (haccounts : c'.accounts = c.accounts)
    (hwritten : ∀ t, c.locks.mode? s t = some .exclusive → c'.locks.mode? s t = some .exclusive) :
    Books s c c' := by
  refine books_of_log ?_ haccounts hwritten
  rw [SessionTx.eq_of_unlatched htx]
  rfl

theorem Books.refl (s : SessionId) (c : Coordinator) : Books s c c := books_of_log rfl rfl fun _ => id

theorem books_setTx {tx : SessionTx} (hlog : tx.log = (c.tx s).log) : Books s c (c.setTx s tx) := by
  refine books_of_log ?_ rfl fun _ => id
  rw [tx_setTx_self]
  exact hlog

theorem books_signal {f : Signals → Signals} : Books s c (c.signal s f) := books_setTx rfl

theorem books_tick : Books s c c.tick.2 := books_of_log rfl rfl fun _ => id

theorem books_noteStatement {sql : String} : Books s c (c.noteStatement s sql) :=
  books_of_log rfl rfl fun _ => id

theorem books_withdraw : Books s c (c.withdraw s) :=
  books_of_unlatched unlatched_withdraw withdraw_accounts quiet_withdraw.written

theorem books_cancelWait : Books s c (c.cancelWait s) := books_withdraw.trans books_signal

theorem books_endStatement : Books s c (c.endStatement s) := by
  have hclear : Books s c (c.setTx s { c.tx s with request := none }) := books_setTx rfl
  unfold endStatement
  dsimp only
  split
  next => exact hclear
  next =>
    split
    next => exact hclear
    next r _ =>
      split
      next => exact hclear
      next =>
        have hdropped : Books s (c.setTx s { c.tx s with request := none })
            ((c.setTx s { c.tx s with request := none }).dropReads s r.reads.toList) :=
          books_of_unlatched unlatched_dropReads dropReads_accounts quiet_dropReads.written
        exact (hclear.trans hdropped).trans (books_setTx rfl)

theorem books_completeStatement : Books s c (c.completeStatement s) := by
  have hstart : Books s c
      (c.updateTx s fun tx => { tx with statementStart := tx.actions.length }) := books_setTx rfl
  exact hstart.trans books_endStatement

theorem books_prepare : Books s c (c.prepare s).2 := by
  unfold prepare
  split
  next => exact .refl s c
  next => exact books_tick.trans (books_setTx rfl)

/-- To begin a statement changes its session by a note of the request, apart from signals and
grants. -/
theorem Begins.tx_eq (hb : Begins c s r answer c') : ∃ signals granted, c'.tx s = { c.tx s with
    statementStart := (c.tx s).actions.length, request := some r, signals, granted } := by
  have hnoted : (c.noted s r).tx s = { c.tx s with
      statementStart := (c.tx s).actions.length, request := some r } := tx_updateTx_self
  cases hb with
  | aborted habort => exact ⟨_, _, hnoted⟩
  | again habort hgranted => exact ⟨_, _, hnoted⟩
  | granted habort hv =>
    refine ⟨(c.tx s).signals, some r, ?_⟩
    rw [tx_updateTx_self]
    exact congrArg (fun tx : SessionTx => { tx with granted := some r }) hnoted
  | waits habort hv =>
    refine ⟨(c.tx s).signals.setCount 1, (c.tx s).granted, ?_⟩
    rw [tx_signal_self]
    exact congrArg (fun tx : SessionTx => { tx with signals := tx.signals.setCount 1 }) hnoted
  | refused habort hv =>
    obtain ⟨g, hpromoted⟩ : ∃ g, ({ c.noted s r with
        locks := (c.locks.acquire s r).2 } : Coordinator).promote.tx s =
          { (c.noted s r).tx s with signals := g } := ⟨_, SessionTx.eq_of_unlatched unlatched_promote⟩
    refine ⟨g.raiseAbort, (c.tx s).granted, ?_⟩
    rw [tx_signal_self, hpromoted, hnoted]

theorem Begins.books (hb : Begins c s r answer c') : Books s c c' := by
  obtain ⟨signals, granted, htx⟩ := hb.tx_eq
  refine books_of_log ?_ hb.accounts hb.keeps.written
  rw [htx]
  rfl

theorem books_openTx (hclosed : (c.tx s).isOpen = false) : Books s c (c.openTx s now) := by
  have htx : (c.openTx s now).tx s =
      { c.tx s with isOpen := true, beganAt := now, actionAt := now } := tx_updateTx_self
  refine ⟨fun h => ⟨?_, ?_, ?_, ?_⟩, fun y _ row hrow => hrow, fun _ => ?_⟩
  · rw [htx]
    exact h.indexed
  · rw [htx]
    exact h.owned
  · rw [htx]
    exact h.written
  · rw [htx]
    exact fun _ => rfl
  · rw [htx, hclosed]
    rfl

theorem books_beginTransaction : Books s c (c.beginTransaction s) := by
  unfold beginTransaction
  split
  next => exact .refl s c
  next hclosed => exact books_tick.trans (books_openTx (Bool.eq_false_iff.mpr hclosed))

theorem books_resumeStatement : Books s c (c.resumeStatement s).2 := by
  unfold resumeStatement
  split
  next => exact .refl s c
  next =>
    dsimp only
    split
    next => exact books_tick.trans (books_setTx rfl)
    next hclosed => exact books_tick.trans (books_openTx (Bool.eq_false_iff.mpr hclosed))

section Rows

variable {store t : TableId} {row : Row} {values : List Value}

/-- A row that is claimed is on record. -/
theorem books_claim {storage : Storage} {a : RowAction} (ha : a.row = row.id)
    (hmode : c.locks.mode? s a.store = some .exclusive) (hopen : (c.tx s).isOpen = true) :
    Books s c ({ c.withCalls s storage with owners := c.owners.claim s row.id }.updateTx s (·.pushAction a)) := by
  have htx : ({ c.withCalls s storage with owners := c.owners.claim s row.id }.updateTx s
      (·.pushAction a)).tx s = (c.tx s).pushAction a := tx_updateTx_self
  have hactions : ((c.tx s).pushAction a).actions = (c.tx s).actions ++ [a] := rfl
  refine ⟨fun h => ⟨?_, ?_, ?_, ?_⟩, ?_, fun _ => ?_⟩
  · rw [htx]
    exact SessionTx.indexes_pushAction h.indexed
  · intro id hid
    rw [htx, hactions]
    have hclaimed : (c.owners.claim s row.id).owner? id = some s := hid
    rw [RowOwnership.owner?_claim] at hclaimed
    split at hclaimed
    next hsame =>
      refine ⟨a, by simp, ?_⟩
      rw [ha, hsame]
    next =>
      obtain ⟨b, hb, hrow⟩ := h.owned id hclaimed
      exact ⟨b, List.mem_append_left _ hb, hrow⟩
  · intro b hb
    rw [htx, hactions] at hb
    rcases List.mem_append.mp hb with hold | hnew
    · exact h.written b hold
    · rw [List.mem_singleton.mp hnew]
      exact hmode
  · rw [htx]
    exact fun _ => hopen
  · intro y hy id hid
    have hclaimed : (c.owners.claim s row.id).owner? id = some y := hid
    rw [RowOwnership.owner?_claim] at hclaimed
    split at hclaimed
    next => exact absurd (Option.some.inj hclaimed).symm hy
    next => exact hclaimed
  · rw [htx]
    rfl

theorem books_storage {storage : Storage} {trace : List TracedCall} :
    Books s c { c with storage, trace } :=
  books_of_log rfl rfl fun _ => id

theorem books_recordInsert (hmode : c.locks.mode? s store = some .exclusive)
    (hopen : (c.tx s).isOpen = true) : Books s c (c.recordInsert s store row).2 := by
  unfold recordInsert
  split
  next => exact books_storage
  next => exact books_claim rfl hmode hopen

theorem books_recordDelete (hmode : c.locks.mode? s store = some .exclusive)
    (hopen : (c.tx s).isOpen = true) : Books s c (c.recordDelete s store row).2 := by
  unfold recordDelete
  split
  next => exact .refl s c
  next =>
    split
    next => exact books_storage
    next => exact books_claim rfl hmode hopen

theorem recordInsert_adds (h : p (store, .index row)) :
    c.storage.Adds p (c.recordInsert s store row).2.storage := by
  have hcall : c.storage.Adds p (c.storage.call store (.index row)).2 := Storage.call_adds h
  unfold recordInsert
  generalize c.storage.call store (.index row) = called at hcall
  obtain ⟨outcome, storage⟩ := called
  cases outcome <;> exact hcall

theorem recordDelete_adds (h : p (store, .delete row)) :
    c.storage.Adds p (c.recordDelete s store row).2.storage := by
  have hcall : c.storage.Adds p (c.storage.call store (.delete row)).2 := Storage.call_adds h
  unfold recordDelete
  split
  next => exact Storage.adds_of_eq rfl
  next =>
    generalize c.storage.call store (.delete row) = called at hcall
    obtain ⟨outcome, storage⟩ := called
    cases outcome <;> exact hcall

end Rows

/-- A row of a session that an undo does not give back has an action left in the log. -/
theorem Booked.kept_of_undoTo (h : c.Booked s) {start : Nat} {row : RowId}
    (howned : c.owners.owner? row = some s) (hkept : row ∉ (c.undoTo s start now).1) :
    ∃ a ∈ ((c.tx s).truncateActions start).2.actions, a.row = row := by
  obtain ⟨a, ha, hrow⟩ := h.owned row howned
  have hindexed := SessionTx.indexes_truncateActions h.indexed start
  have hall : (c.tx s).actions = ((c.tx s).truncateActions start).2.actions ++
      ((c.tx s).truncateActions start).1 := by
    rw [SessionTx.truncateActions_actions, SessionTx.truncateActions_removed, List.take_append_drop]
  rw [hall] at ha
  rcases List.mem_append.mp ha with hold | hundone
  · exact ⟨a, hold, hrow⟩
  · by_contra hnone
    have hgone : ((c.tx s).truncateActions start).2.rowIndex.get? row = none := by
      refine hindexed.get?_eq_none.mpr fun b hb hsame => hnone ⟨b, hb, hsame⟩
    have hgiven : row ∈ (c.undoTo s start now).1 := by
      unfold undoTo
      dsimp only
      rw [IdSet.mem_toList, IdSet.mem_filter, IdSet.mem_ofList, SessionTx.hasRowActions,
        IdMap.contains_eq, hgone]
      exact ⟨List.mem_map.mpr ⟨a, hundone, hrow⟩, rfl⟩
    exact hkept hgiven

theorem log_undoTo {start : Nat} : ((c.undoTo s start now).2.tx s).log =
    ((c.tx s).isOpen, (c.tx s).actions.take start, ((c.tx s).truncateActions start).2.rowIndex) := by
  have hopen : ((c.tx s).truncateActions start).2.isOpen = (c.tx s).isOpen := by
    unfold SessionTx.truncateActions
    split <;> rfl
  rw [tx_undoTo_self, SessionTx.log, SessionTx.truncateActions_actions, hopen]

/-- The rows without an action left are given back after an undo. -/
theorem books_undone {start : Nat} {rows : List RowId} (hundo : c.undoTo s start now = (rows, c₁))
    (hlog : (c'.tx s).log = (c₁.tx s).log) (hlocks : c'.locks = c₁.locks)
    (hcount : c'.openCount = c₁.openCount) (howners : c'.owners = c₁.owners.release rows) :
    Books s c c' := by
  have hlocks₁ : c₁.locks = c.locks := congrArg (fun undone => undone.2.locks) hundo.symm
  have hcount₁ : c₁.openCount = c.openCount := congrArg (fun undone => undone.2.openCount) hundo.symm
  have howners₁ : c₁.owners = c.owners := congrArg (fun undone => undone.2.owners) hundo.symm
  have hlog₁ : ((c.undoTo s start now).2.tx s).log = ((c.tx s).isOpen, (c.tx s).actions.take start,
      ((c.tx s).truncateActions start).2.rowIndex) := log_undoTo
  rw [hundo] at hlog₁
  obtain ⟨hopen, hactions, hindex⟩ : (c'.tx s).isOpen = (c.tx s).isOpen ∧
      (c'.tx s).actions = (c.tx s).actions.take start ∧
      (c'.tx s).rowIndex = ((c.tx s).truncateActions start).2.rowIndex := by
    simpa [SessionTx.log] using hlog.trans hlog₁
  have hfree {y : SessionId} {row : RowId} (hrow : c'.owners.owner? row = some y) :
      row ∉ rows ∧ c.owners.owner? row = some y := by
    rw [howners, howners₁, RowOwnership.owner?_release] at hrow
    split at hrow
    next => cases hrow
    next hkept => exact ⟨hkept, hrow⟩
  refine ⟨fun h => ⟨?_, fun row hrow => ?_, fun a ha => ?_, fun hsome => ?_⟩,
    fun y _ row hrow => (hfree hrow).2, fun _ => ?_⟩
  · rw [hindex, hactions, ← SessionTx.truncateActions_actions]
    exact SessionTx.indexes_truncateActions h.indexed start
  · obtain ⟨hkept, howned⟩ := hfree hrow
    have hkept : row ∉ (c.undoTo s start now).1 := by rwa [hundo]
    obtain ⟨a, ha, hsame⟩ := h.kept_of_undoTo howned hkept
    rw [SessionTx.truncateActions_actions] at ha
    exact ⟨a, hactions ▸ ha, hsame⟩
  · rw [hactions] at ha
    rw [hlocks, hlocks₁]
    exact h.written a (List.mem_of_mem_take ha)
  · rw [hopen]
    refine h.isOpen fun hnil => hsome ?_
    rw [hactions, hnil, List.take_nil]
  · rw [hcount, hcount₁, hopen]

theorem books_rollbackStatement : Books s c (c.rollbackStatement s) := by
  obtain ⟨rows, c₁, hundo⟩ : ∃ rows c₁,
      c.undoTo s (c.tx s).statementStart (c.tx s).actionAt = (rows, c₁) := ⟨_, _, rfl⟩
  have hundone : Books s c (c₁.releaseRows rows) := books_undone hundo rfl rfl rfl rfl
  have hended : c.rollbackStatement s = (c₁.releaseRows rows).endStatement s := by
    unfold rollbackStatement
    dsimp only
    rw [hundo]
  rw [hended]
  exact hundone.trans books_endStatement

theorem books_rollbackToIndex {i : Nat} : Books s c (c.rollbackToIndex s i).2 := by
  unfold rollbackToIndex
  split
  next => exact .refl s c
  next savepoint _ =>
    obtain ⟨rows, c₁, hundo⟩ : ∃ rows c₁,
        c.undoTo s savepoint.logLength savepoint.timestamp = (rows, c₁) := ⟨_, _, rfl⟩
    dsimp only
    rw [hundo]
    have hcut : ((c₁.updateTx s (·.truncateSavepoints (i + 1))).tx s).log = (c₁.tx s).log := by
      rw [tx_updateTx_self]
      rfl
    exact books_undone hundo hcut rfl rfl rfl

theorem books_rollbackToSavepoint {name : String} :
    Books s c (c.rollbackToSavepoint s name).2 := by
  unfold rollbackToSavepoint
  split
  next => exact .refl s c
  next => exact books_rollbackToIndex

theorem undoTo_adds {start : Nat} (h : ∀ a ∈ (c.tx s).actions, ∀ r type, p (a.store, .rollback r type)) :
    c.storage.Adds p (c.undoTo s start now).2.storage := by
  rw [storage_undoTo]
  refine Storage.undoAll_adds fun a ha => h a ?_
  exact List.mem_of_mem_drop (List.mem_reverse.mp ha)

theorem rollbackToIndex_adds {i : Nat}
    (h : ∀ a ∈ (c.tx s).actions, ∀ r type, p (a.store, .rollback r type)) :
    c.storage.Adds p (c.rollbackToIndex s i).2.storage := by
  unfold rollbackToIndex
  split
  next => exact Storage.adds_of_eq rfl
  next => exact undoTo_adds h

theorem rollbackToSavepoint_adds {name : String}
    (h : ∀ a ∈ (c.tx s).actions, ∀ r type, p (a.store, .rollback r type)) :
    c.storage.Adds p (c.rollbackToSavepoint s name).2.storage := by
  unfold rollbackToSavepoint
  split
  next => exact Storage.adds_of_eq rfl
  next => exact rollbackToIndex_adds h

end Coordinator

end LockingDb
