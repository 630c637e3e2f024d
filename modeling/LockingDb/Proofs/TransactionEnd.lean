import LockingDb.Proofs.Books

namespace LockingDb

namespace Coordinator

variable {c c' c₁ c₂ : Coordinator} {s : SessionId} {now : Timestamp} {t : TableId}
  {p : TableId × StoreCall → Prop}

/-- A store call of a session, on a table that it has for itself. -/
def Guarded (c : Coordinator) (s : SessionId) (k : TableId × StoreCall) : Prop :=
  c.locks.mode? s k.1 = some .exclusive

/-- All store calls made from one state to another one are as told, and are traced with the locks that
the session had before. -/
def Traces (s : SessionId) (p : TableId × StoreCall → Prop) (c c' : Coordinator) : Prop :=
  ∃ made, c'.storage.calls = made ++ c.storage.calls ∧
    c'.trace = made.map (c.traced s) ++ c.trace ∧ ∀ k ∈ made, p k

theorem traces_of_eq (hcalls : c'.storage.calls = c.storage.calls) (htrace : c'.trace = c.trace) :
    Traces s p c c' := ⟨[], hcalls, htrace, nofun⟩

theorem traced_congr (hlocks : c'.locks = c.locks) : c'.traced s = c.traced s := by
  funext k
  rw [traced, hlocks, traced]

theorem Traces.trans (h : Traces s p c c') (hlocks : c'.locks = c.locks) (h₂ : Traces s p c' c₂) :
    Traces s p c c₂ := by
  obtain ⟨made, hmade, htrace, hp⟩ := h
  obtain ⟨made₂, hmade₂, htrace₂, hp₂⟩ := h₂
  refine ⟨made₂ ++ made, ?_, ?_, fun k hk => ?_⟩
  · rw [hmade₂, hmade, List.append_assoc]
  · rw [htrace₂, htrace, traced_congr hlocks, List.map_append, List.append_assoc]
  · rcases List.mem_append.mp hk with hk | hk
    · exact hp₂ k hk
    · exact hp k hk

theorem traces_withCalls {storage : Storage} (h : c.storage.Adds p storage) :
    Traces s p c (c.withCalls s storage) := by
  obtain ⟨made, hmade, hp⟩ := h.calls
  refine ⟨made, hmade, ?_, hp⟩
  show (storage.callsSince c.storage.calls.length).map (c.traced s) ++ c.trace = _
  rw [Storage.callsSince, hmade, List.length_append, Nat.add_sub_cancel, List.take_left]

theorem traces_recordInsert {row : Row} (h : p (t, .index row)) :
    Traces s p c (c.recordInsert s t row).2 := by
  have hcall : c.storage.Adds p (c.storage.call t (.index row)).2 := Storage.call_adds h
  unfold recordInsert
  generalize c.storage.call t (.index row) = called at hcall
  obtain ⟨answer, storage⟩ := called
  cases answer <;> exact traces_withCalls hcall

theorem traces_recordDelete {row : Row} (h : p (t, .delete row)) :
    Traces s p c (c.recordDelete s t row).2 := by
  have hcall : c.storage.Adds p (c.storage.call t (.delete row)).2 := Storage.call_adds h
  unfold recordDelete
  split
  next => exact traces_of_eq rfl rfl
  next =>
    generalize c.storage.call t (.delete row) = called at hcall
    obtain ⟨answer, storage⟩ := called
    cases answer <;> exact traces_withCalls hcall

theorem traces_undoTo {start : Nat}
    (h : ∀ a ∈ (c.tx s).actions, ∀ r type, p (a.store, .rollback r type)) :
    Traces s p c (c.undoTo s start now).2 :=
  traces_withCalls (c := c.setTx s ((c.tx s).truncateActions start).2) (undoTo_adds h)

theorem traces_rollbackToIndex {i : Nat}
    (h : ∀ a ∈ (c.tx s).actions, ∀ r type, p (a.store, .rollback r type)) :
    Traces s p c (c.rollbackToIndex s i).2 := by
  unfold rollbackToIndex
  split
  next => exact traces_of_eq rfl rfl
  next => exact traces_undoTo h

theorem traces_rollbackToSavepoint {name : String}
    (h : ∀ a ∈ (c.tx s).actions, ∀ r type, p (a.store, .rollback r type)) :
    Traces s p c (c.rollbackToSavepoint s name).2 := by
  unfold rollbackToSavepoint
  split
  next => exact traces_of_eq rfl rfl
  next => exact traces_rollbackToIndex h

/-- Locks are given back after a statement, with the end of a transaction, and by who goes away. -/
inductive GivesBack (s : SessionId) (c : Coordinator) : Coordinator → Prop where
  | statement : GivesBack s c (c.endStatement s)
  | commit {rows : List RowId} {now : Timestamp} : GivesBack s c ((c.endTx s rows).closeTx s now)
  | rollback {rows : List RowId} {now : Timestamp} :
      GivesBack s c (((c.endTx s rows).signal s .release).closeTx s now)
  | leave {c₁ : Coordinator} (h : GivesBack s c c₁) :
      GivesBack s c { c₁.withdraw s with registered := (c₁.withdraw s).registered.erase s }

/-- All store calls of a move are as told, and are made before the locks are touched. -/
inductive LocksLast (s : SessionId) (p : TableId × StoreCall → Prop) (c c' : Coordinator) : Prop where
  | idle (hstorage : c'.storage = c.storage) (htrace : c'.trace = c.trace)
  | works (hlocks : c'.locks = c.locks) (hcalls : c.storage.Adds p c'.storage)
      (htraces : Traces s p c c')
  | gives {b : Coordinator} (hlocks : b.locks = c.locks) (hcalls : c.storage.Adds p b.storage)
      (htraces : Traces s p c b) (hback : GivesBack s b c')

theorem GivesBack.data (h : GivesBack s c c') :
    c'.storage = c.storage ∧ c'.trace = c.trace := by
  induction h with
  | statement => exact ⟨quiet_endStatement.storage, quiet_endStatement.trace⟩
  | @commit rows now =>
    have hclosed (b : Coordinator) : (b.closeTx s now).data = b.data := rfl
    have hended : ((c.endTx s rows).closeTx s now).data = c.data := (hclosed _).trans endTx_data
    exact ⟨congrArg Prod.fst hended, trace_of_data hended⟩
  | @rollback rows now =>
    have hclosed (b : Coordinator) : ((b.signal s .release).closeTx s now).data = b.data := rfl
    have hended : (((c.endTx s rows).signal s .release).closeTx s now).data = c.data :=
      (hclosed _).trans endTx_data
    exact ⟨congrArg Prod.fst hended, trace_of_data hended⟩
  | @leave c₁ h ih =>
    have hwithdrawn : (c₁.withdraw s).data = c₁.data := withdraw_data
    exact ⟨(congrArg Prod.fst hwithdrawn).trans ih.1, (trace_of_data hwithdrawn).trans ih.2⟩

theorem LocksLast.adds (h : LocksLast s p c c') : c.storage.Adds p c'.storage := by
  cases h with
  | idle hstorage htrace => exact Storage.adds_of_eq hstorage
  | works hlocks hcalls htraces => exact hcalls
  | gives hlocks hcalls htraces hback =>
    rw [hback.data.1]
    exact hcalls

/-- What is traced of a move says with which locks its calls were made, whatever the move does to the
locks. -/
theorem LocksLast.traces (h : LocksLast s p c c') : Traces s p c c' := by
  cases h with
  | idle hstorage htrace => exact traces_of_eq (congrArg Storage.calls hstorage) htrace
  | works hlocks hcalls htraces => exact htraces
  | gives hlocks hcalls htraces hback =>
    obtain ⟨made, hmade, htrace, hp⟩ := htraces
    obtain ⟨hstorage, hsame⟩ := hback.data
    exact ⟨made, hstorage ▸ hmade, hsame.trans htrace, hp⟩

theorem LocksLast.of_same (h : LocksLast s p c₁ c') (hlocks : c₁.locks = c.locks)
    (hstorage : c₁.storage = c.storage) (htrace : c₁.trace = c.trace) : LocksLast s p c c' := by
  have hfirst : c.storage.Adds p c₁.storage := Storage.adds_of_eq hstorage
  have htraced : Traces s p c c₁ := traces_of_eq (congrArg Storage.calls hstorage) htrace
  cases h with
  | idle hsame hsameTrace => exact .idle (hsame.trans hstorage) (hsameTrace.trans htrace)
  | works hkept hmore htraces =>
    exact .works (hkept.trans hlocks) (hfirst.trans hmore) (htraced.trans hlocks htraces)
  | gives hkept hmore htraces hback =>
    exact .gives (hkept.trans hlocks) (hfirst.trans hmore) (htraced.trans hlocks htraces) hback

/-- Nothing is left of the transaction of a session. -/
structure Freed (c : Coordinator) (s : SessionId) : Prop where
  log : (c.tx s).log = (false, [], ∅)
  unlocked : ∀ t, c.locks.mode? s t = none
  waits : c.locks.isWaiting s = false
  owned : ∀ row, c.owners.owner? row ≠ some s

theorem Freed.isOpen (h : c.Freed s) : (c.tx s).isOpen = false := congrArg Prod.fst h.log

theorem Freed.actions (h : c.Freed s) : (c.tx s).actions = [] := congrArg (fun log => log.2.1) h.log

theorem Freed.booked (h : c.Freed s) : c.Booked s := by
  have hactions := h.actions
  have hindex : (c.tx s).rowIndex = ∅ := congrArg (fun log => log.2.2) h.log
  refine ⟨?_, fun row hrow => absurd hrow (h.owned row), fun a ha => ?_, fun hsome => ?_⟩
  · rw [hindex, hactions]
    exact indexes_empty
  · rw [hactions] at ha
    cases ha
  · exact absurd hactions hsome

/-- Who does not wait gets no lock when others are granted theirs. -/
theorem mode?_promote (h : c.locks.Coherent) (hout : c.locks.isWaiting s = false) {t : TableId}
    (hnone : c.locks.mode? s t = none) : c.promote.locks.mode? s t = none := by
  rw [promote_locks]
  refine Option.eq_none_iff_forall_not_mem.mpr fun m hm => ?_
  have hheld := LockTable.spares_promote.mode?_eq_some h hout hm
  rw [hnone] at hheld
  cases hheld

theorem mode?_releaseLocks (h : c.locks.Coherent) {t : TableId} :
    (c.releaseLocks s).locks.mode? s t = none := by
  have hreleased := h.releaseAll (s := s)
  have hnone : ((c.locks.releaseAll s).2.withdraw s).2.mode? s t = none := by
    rw [LockTable.mode?_withdraw, LockTable.mode?_releaseAll, if_pos rfl]
  have hout : ((c.locks.releaseAll s).2.withdraw s).2.isWaiting s = false :=
    hreleased.withdraw.isWaiting_eq_false.mpr fun n w hq => (hreleased.queued_withdraw.mp hq).1 rfl
  unfold releaseLocks
  dsimp only
  split
  next => exact mode?_promote hreleased.withdraw hout hnone
  next => exact hnone

theorem openCount_endTx {rows : List RowId} : (c.endTx s rows).openCount =
    if (c.tx s).isOpen = true then c.openCount - 1 else c.openCount := by
  have hreleased (c₁ : Coordinator) : (c₁.releaseLocks s).openCount = c₁.openCount :=
    congrArg Prod.snd releaseLocks_accounts
  rw [endTx, hreleased]
  by_cases hopen : (c.tx s).isOpen = true
  · have hstill : ((c.releaseRows rows).tx s).isOpen = true := hopen
    rw [if_pos hopen, if_pos hstill]
    rfl
  · have hstill : ¬((c.releaseRows rows).tx s).isOpen = true := hopen
    rw [if_neg hopen, if_neg hstill]
    rfl

theorem owners_endTx {rows : List RowId} : (c.endTx s rows).owners = c.owners.release rows := by
  have hreleased (c₁ : Coordinator) : (c₁.releaseLocks s).owners = c₁.owners :=
    congrArg Prod.fst releaseLocks_accounts
  rw [endTx, hreleased]
  split <;> rfl

@[simp] theorem closeTx_owners : (c.closeTx s now).owners = c.owners := rfl

@[simp] theorem closeTx_openCount : (c.closeTx s now).openCount = c.openCount := rfl

@[simp] theorem signal_owners {f : Signals → Signals} : (c.signal s f).owners = c.owners := rfl

@[simp] theorem signal_openCount {f : Signals → Signals} : (c.signal s f).openCount = c.openCount := rfl

/-- The transaction of a session ends: the rows are given back, then the locks. -/
theorem freed_endTx (h : c.locks.Coherent) {rows : List RowId}
    (hrows : ∀ row, c.owners.owner? row = some s → row ∈ rows)
    (hlocks : c₂.locks = (c.endTx s rows).locks) (haccounts : c₂.accounts = (c.endTx s rows).accounts) :
    (c₂.closeTx s now).Freed s := by
  have hclosed : (c₂.closeTx s now).tx s = { (c₂.tx s).clear with actionAt := now, endedAt := now } :=
    tx_updateTx_self
  have hended : (c₂.closeTx s now).locks = (c.endTx s rows).locks := hlocks
  have howners : c₂.owners = c.owners.release rows := by
    have hsame : c₂.owners = (c.endTx s rows).owners := congrArg Prod.fst haccounts
    rw [hsame, owners_endTx]
  have hcoherent : (c₂.closeTx s now).locks.Coherent := by
    have hspares : Spares (s + 1) c (c.endTx s rows) := spares_endTx (Nat.succ_ne_self s)
    rw [hended]
    exact hspares.coherent h
  refine ⟨?_, fun t => ?_, ?_, fun row hrow => ?_⟩
  · rw [hclosed]
    rfl
  · rw [hended, endTx]
    refine mode?_releaseLocks ?_
    split <;> exact h
  · refine hcoherent.isWaiting_eq_false.mpr fun n w hq => ?_
    rw [hended] at hq
    exact not_queued_endTx h hq
  · have hheld : (c.owners.release rows).owner? row = some s := howners ▸ hrow
    rw [RowOwnership.owner?_release] at hheld
    split at hheld
    next => cases hheld
    next hkept => exact hkept (hrows row hheld)

/-- The books are closed with the transaction. -/
theorem books_of_freed (rows : List RowId) (hfreed : c.Booked s → c'.Freed s)
    (hclosed : (c'.tx s).isOpen = false) (howners : c'.owners = c.owners.release rows)
    (hcount : c'.openCount = if (c.tx s).isOpen = true then c.openCount - 1 else c.openCount) :
    Books s c c' := by
  refine ⟨fun h => (hfreed h).booked, fun y _ row hrow => ?_, fun hpos => ?_⟩
  · rw [howners, RowOwnership.owner?_release] at hrow
    split at hrow
    next => cases hrow
    next => exact hrow
  · rw [hcount, hclosed]
    split
    next hopen =>
      have hsome := hpos hopen
      rw [hopen, Bool.toNat_true, Bool.toNat_false]
      omega
    next hopen => rw [Bool.eq_false_iff.mpr hopen]

/-- When a rollback has taken the signals of its session, the log is as it was. -/
theorem log_begun : ((c.signal s fun g => g.clearAbort.takeRedo.2).tick.2.tx s).log = (c.tx s).log := by
  show ((c.signal s fun g => g.clearAbort.takeRedo.2).tx s).log = (c.tx s).log
  rw [tx_signal_self]
  rfl

theorem rollback_freed (h : c.locks.Coherent) :
    (c.Booked s → (c.rollback s).Freed s) ∧ Books s c (c.rollback s) := by
  obtain ⟨rows, now, c₁, c₂, hbegun, hundo, heq⟩ := rollback_undone c s
  have hbooks : Books s c c₁ := by
    rw [hbegun]
    exact books_signal.trans books_tick
  have hsame : c₁.locks = c.locks ∧ c₁.owners = c.owners ∧ c₁.openCount = c.openCount ∧
      (c₁.tx s).isOpen = (c.tx s).isOpen := by
    rw [hbegun]
    exact ⟨rfl, rfl, rfl, congrArg Prod.fst log_begun⟩
  obtain ⟨hlocks, howners, hcount, hopen⟩ := hsame
  have hundone : c₂.locks = c₁.locks ∧ c₂.owners = c₁.owners ∧ c₂.openCount = c₁.openCount := by
    have hkept : (c₁.undoTo s 0 now).2.locks = c₁.locks ∧ (c₁.undoTo s 0 now).2.owners = c₁.owners ∧
        (c₁.undoTo s 0 now).2.openCount = c₁.openCount := ⟨rfl, rfl, rfl⟩
    rw [hundo] at hkept
    exact hkept
  obtain ⟨hlocks₂, howners₂, hcount₂⟩ := hundone
  have hopen₂ : (c₂.tx s).isOpen = (c₁.tx s).isOpen := by
    have hlog : ((c₁.undoTo s 0 now).2.tx s).log = ((c₁.tx s).isOpen, (c₁.tx s).actions.take 0,
        ((c₁.tx s).truncateActions 0).2.rowIndex) := log_undoTo
    rw [hundo] at hlog
    exact congrArg Prod.fst hlog
  have hcoherent : c₂.locks.Coherent := by
    rw [hlocks₂, hlocks]
    exact h
  have hfreed (hb : c.Booked s) : (c.rollback s).Freed s := by
    rw [heq]
    refine freed_endTx hcoherent (fun row hrow => ?_) signal_locks rfl
    by_contra hkept
    have hkept : row ∉ (c₁.undoTo s 0 now).1 := by rwa [hundo]
    obtain ⟨a, ha, -⟩ := (hbooks.own hb).kept_of_undoTo (howners₂ ▸ hrow) hkept
    rw [SessionTx.truncateActions_actions, List.take_zero] at ha
    cases ha
  refine ⟨hfreed, books_of_freed rows hfreed ?_ ?_ ?_⟩
  · rw [heq, closeTx, tx_updateTx_self]
    rfl
  · rw [heq, closeTx_owners, signal_owners, owners_endTx, howners₂, howners]
  · rw [heq, closeTx_openCount, signal_openCount, openCount_endTx, hopen₂, hopen, hcount₂, hcount]

theorem rollback_gives (h : ∀ a ∈ (c.tx s).actions, ∀ r type, p (a.store, .rollback r type)) :
    ∃ c₁, c₁.locks = c.locks ∧ c.storage.Adds p c₁.storage ∧ Traces s p c c₁ ∧
      GivesBack s c₁ (c.rollback s) := by
  obtain ⟨rows, now, c₁, c₂, hbegun, hundo, heq⟩ := rollback_undone c s
  obtain ⟨hlocks, hstorage, htrace, hactions⟩ : c₁.locks = c.locks ∧ c₁.storage = c.storage ∧
      c₁.trace = c.trace ∧ (c₁.tx s).actions = (c.tx s).actions := by
    rw [hbegun]
    exact ⟨rfl, rfl, rfl, congrArg (fun log => log.2.1) log_begun⟩
  have hlocks₂ : (c₁.undoTo s 0 now).2.locks = c₁.locks := rfl
  have hmay : ∀ a ∈ (c₁.tx s).actions, ∀ r type, p (a.store, .rollback r type) := by
    rw [hactions]
    exact h
  have hundone : c₁.storage.Adds p (c₁.undoTo s 0 now).2.storage := undoTo_adds hmay
  have htraces : Traces s p c₁ (c₁.undoTo s 0 now).2 := traces_undoTo hmay
  have hbefore : Traces s p c c₁ := traces_of_eq (congrArg Storage.calls hstorage) htrace
  rw [hundo] at hlocks₂ hundone htraces
  rw [heq]
  exact ⟨c₂, hlocks₂.trans hlocks, hstorage ▸ hundone, hbefore.trans hlocks htraces, .rollback⟩

theorem rollback_last (h : ∀ a ∈ (c.tx s).actions, ∀ r type, p (a.store, .rollback r type)) :
    LocksLast s p c (c.rollback s) := by
  obtain ⟨c₁, hlocks, hcalls, htraces, hback⟩ := rollback_gives h
  exact .gives hlocks hcalls htraces hback

theorem rollbackStatement_last
    (h : ∀ a ∈ (c.tx s).actions, ∀ r type, p (a.store, .rollback r type)) :
    LocksLast s p c (c.rollbackStatement s) := by
  have hundone : c.storage.Adds p
      (c.undoTo s (c.tx s).statementStart (c.tx s).actionAt).2.storage := undoTo_adds h
  have hstatement (c₁ : Coordinator) : GivesBack s c₁ (c₁.endStatement s) := .statement
  exact .gives (b := (c.undoTo s (c.tx s).statementStart (c.tx s).actionAt).2.releaseRows
    (c.undoTo s (c.tx s).statementStart (c.tx s).actionAt).1) rfl hundone (traces_undoTo h)
    (hstatement _)

/-- Every row that a session owns is among those of its log. -/
theorem Booked.mem_touchedRows (h : c.Booked s) {row : RowId}
    (howned : c.owners.owner? row = some s) : row ∈ (c.tx s).touchedRows := by
  obtain ⟨a, ha, hrow⟩ := h.owned row howned
  rw [SessionTx.touchedRows, IdMap.mem_keys, Option.isSome_iff_ne_none]
  exact fun hnone => h.indexed.get?_eq_none.mp hnone a ha hrow

theorem commit_books (h : c.locks.Coherent) :
    (c.Booked s → c.abortRequested s = false → (c.commit s).2.Freed s) ∧
      Books s c (c.commit s).2 := by
  have hcommits := c.commit_commits s
  generalize c.commitEvent? s = e, (c.commit s).2 = c' at hcommits
  cases hcommits with
  | refused habort =>
    refine ⟨fun _ hnot => ?_, .refl s c⟩
    rw [habort] at hnot
    cases hnot
  | @failed f journal habort hlog =>
    have hlogged : Books s c { c.tick.2 with journal } := books_of_log rfl rfl fun _ => id
    obtain ⟨hfreed, hbooks⟩ := rollback_freed (c := { c.tick.2 with journal }) (s := s) h
    exact ⟨fun hb _ => hfreed (hlogged.own hb), hlogged.trans hbooks⟩
  | @done journal habort hlog =>
    generalize (finalizeAll c.tick.1 (c.tx s).actions c.storage).2 = storage
    obtain ⟨c₁, hc₁⟩ : ∃ c₁, ({ c.tick.2 with journal } : Coordinator).withCalls s storage = c₁ :=
      ⟨_, rfl⟩
    obtain ⟨hlocks, howners, hcount, hopen⟩ : c₁.locks = c.locks ∧ c₁.owners = c.owners ∧
        c₁.openCount = c.openCount ∧ c₁.tx s = c.tx s := by
      rw [← hc₁]
      exact ⟨rfl, rfl, rfl, rfl⟩
    rw [hc₁]
    have hfreed (hb : c.Booked s) :
        ((c₁.endTx s (c.tx s).touchedRows).closeTx s c.tick.1).Freed s :=
      freed_endTx (hlocks ▸ h) (fun row hrow => hb.mem_touchedRows (howners ▸ hrow)) rfl rfl
    refine ⟨fun hb _ => hfreed hb, books_of_freed (c.tx s).touchedRows hfreed ?_ ?_ ?_⟩
    · rw [closeTx, tx_updateTx_self]
      rfl
    · rw [closeTx_owners, owners_endTx, howners]
    · rw [closeTx_openCount, openCount_endTx, hcount, hopen]

theorem commit_last (h : ∀ a ∈ (c.tx s).actions, ∀ r type,
    p (a.store, .rollback r type) ∧ p (a.store, .commit r type)) :
    LocksLast s p c (c.commit s).2 := by
  have hcommits := c.commit_commits s
  generalize c.commitEvent? s = e, (c.commit s).2 = c' at hcommits
  cases hcommits with
  | refused habort => exact .idle rfl rfl
  | @failed f journal habort hlog =>
    have hback : LocksLast s p { c.tick.2 with journal } ({ c.tick.2 with journal }.rollback s) :=
      rollback_last fun a ha r type => (h a ha r type).1
    exact hback.of_same rfl rfl rfl
  | @done journal habort hlog =>
    have hcalls : c.storage.Adds p (finalizeAll c.tick.1 (c.tx s).actions c.storage).2 :=
      Storage.finalizeAll_adds fun a ha r type => (h a ha r type).2
    generalize (finalizeAll c.tick.1 (c.tx s).actions c.storage).2 = storage at hcalls
    have htraces : Traces s p c ({ c.tick.2 with journal }.withCalls s storage) :=
      traces_withCalls (c := { c.tick.2 with journal }) hcalls
    exact .gives (b := ({ c.tick.2 with journal } : Coordinator).withCalls s storage) rfl hcalls
      htraces .commit

theorem mode?_of_withdraw (h : c.locks.Coherent) {t : TableId} (hnone : c.locks.mode? s t = none) :
    (c.withdraw s).locks.mode? s t = none := by
  have hleft : (c.locks.withdraw s).2.mode? s t = none := LockTable.mode?_withdraw.trans hnone
  have hout : (c.locks.withdraw s).2.isWaiting s = false :=
    h.withdraw.isWaiting_eq_false.mpr fun n w hq => (h.queued_withdraw.mp hq).1 rfl
  unfold withdraw
  dsimp only
  split
  next => exact mode?_promote h.withdraw hout hleft
  next => exact hleft

theorem Freed.withdraw (hf : c.Freed s) (h : c.locks.Coherent) : (c.withdraw s).Freed s := by
  have hspares : Spares (s + 1) c (c.withdraw s) := spares_withdraw (Nat.succ_ne_self s)
  have hlog : ((c.withdraw s).tx s).log = (c.tx s).log := by
    rw [SessionTx.eq_of_unlatched unlatched_withdraw]
    rfl
  have howners : (c.withdraw s).owners = c.owners := owners_of_accounts withdraw_accounts
  refine ⟨hlog.trans hf.log, fun t => mode?_of_withdraw h (hf.unlocked t), ?_, fun row hrow => ?_⟩
  · exact (hspares.coherent h).isWaiting_eq_false.mpr fun n w => not_queued_withdraw h
  · exact hf.owned row (howners ▸ hrow)

theorem Booked.freed (hb : c.Booked s) (hclosed : (c.tx s).isOpen = false)
    (hunlocked : ∀ t, c.locks.mode? s t = none) (hout : c.locks.isWaiting s = false) :
    c.Freed s := by
  have hactions : (c.tx s).actions = [] := by
    by_contra hsome
    have hopen := hb.isOpen hsome
    rw [hclosed] at hopen
    cases hopen
  have hindex : (c.tx s).rowIndex = ∅ := by
    refine IdMap.ext fun row => hb.indexed.get?_eq_none.mpr fun a ha => ?_
    rw [hactions] at ha
    cases ha
  refine ⟨?_, hunlocked, hout, fun row hrow => ?_⟩
  · rw [SessionTx.log, hclosed, hactions, hindex]
  · obtain ⟨a, ha, -⟩ := hb.owned row hrow
    rw [hactions] at ha
    cases ha

theorem unlocked_of_isEmpty (h : (c.locks.locksOf s).isEmpty = true) (t : TableId) :
    c.locks.mode? s t = none := IdMap.isEmpty_iff.mp h t

theorem unregister_freed (h : c.locks.Coherent) :
    (c.Booked s → (c.unregister s).Freed s) ∧ Books s c (c.unregister s) := by
  have hleave (c₁ : Coordinator) (hf : (c₁.withdraw s).Freed s) :
      ({ c₁.withdraw s with registered := (c₁.withdraw s).registered.erase s } : Coordinator).Freed s :=
    ⟨hf.log, hf.unlocked, hf.waits, hf.owned⟩
  have hbooks (c₁ : Coordinator) : Books s c₁
      { c₁.withdraw s with registered := (c₁.withdraw s).registered.erase s } :=
    books_withdraw.trans (books_of_log rfl rfl fun _ => id)
  unfold unregister
  dsimp only
  split
  next =>
    obtain ⟨hfreed, hrolled⟩ := rollback_freed (s := s) h
    have hspares : Spares (s + 1) c (c.rollback s) := spares_rollback (Nat.succ_ne_self s)
    exact ⟨fun hb => hleave _ ((hfreed hb).withdraw (hspares.coherent h)),
      hrolled.trans (hbooks (c.rollback s))⟩
  next hnothing =>
    obtain ⟨hclosed, hempty⟩ : (c.tx s).isOpen = false ∧ (c.locks.locksOf s).isEmpty = true := by
      simpa using hnothing
    refine ⟨fun hb => hleave _ ?_, hbooks c⟩
    have hwithdrawn : (c.withdraw s).Booked s := books_withdraw.own hb
    have hspares : Spares (s + 1) c (c.withdraw s) := spares_withdraw (Nat.succ_ne_self s)
    have hstill : ((c.withdraw s).tx s).isOpen = false := by
      rw [SessionTx.eq_of_unlatched unlatched_withdraw]
      exact hclosed
    refine hwithdrawn.freed hstill (fun t => ?_) ?_
    · exact mode?_of_withdraw h (unlocked_of_isEmpty hempty t)
    · exact (hspares.coherent h).isWaiting_eq_false.mpr fun n w => not_queued_withdraw h

theorem unregister_last (h : ∀ a ∈ (c.tx s).actions, ∀ r type, p (a.store, .rollback r type)) :
    LocksLast s p c (c.unregister s) := by
  have hwithdrawn : (c.withdraw s).data = c.data := withdraw_data
  unfold Coordinator.unregister
  dsimp only
  split
  next =>
    obtain ⟨c₁, hlocks, hcalls, htraces, hback⟩ := rollback_gives h
    exact .gives hlocks hcalls htraces (.leave hback)
  next => exact .idle (congrArg Prod.fst hwithdrawn) (trace_of_data hwithdrawn)

end Coordinator

end LockingDb
