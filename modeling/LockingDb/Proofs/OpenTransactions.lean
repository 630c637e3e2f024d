import LockingDb.Proofs.DatabaseStanding

namespace LockingDb

theorem StateChange.apply_isOpen (k : StateChange) (tx : SessionTx) : (k.apply tx).isOpen = tx.isOpen := by
  cases k with
  | isolation level =>
    simp only [apply, SessionTx.setIsolation]
    split <;> rfl
  | readOnly on =>
    simp only [apply, SessionTx.setReadOnly]
    split <;> rfl
  | _ => rfl

namespace Coordinator

variable {c c' : Coordinator} {s x : SessionId} {k : CoordinatorCall}

/-- The sessions whose transaction is open. -/
def openSessions (c : Coordinator) : List SessionId := c.sessions.keys.filter fun s => (c.tx s).isOpen

theorem nodup_openSessions : c.openSessions.Nodup := (IdMap.nodup_keys c.sessions).filter _

theorem mem_openSessions : s ∈ c.openSessions ↔ (c.tx s).isOpen = true := by
  rw [openSessions, List.mem_filter, and_iff_right_iff_imp, IdMap.mem_keys]
  intro hopen
  cases hs : c.sessions.get? s with
  | some tx => rfl
  | none => simp [tx, hs, SessionTx.fresh] at hopen

theorem counted_iff : c.Counted ↔ c.openCount = c.openSessions.length := by
  constructor
  · rintro ⟨ss, hnodup, hmem, hcount⟩
    have hperm : ss.Perm c.openSessions := by
      apply (List.perm_ext_iff_of_nodup hnodup nodup_openSessions).mpr
      intro s
      rw [hmem, mem_openSessions]
    rw [hcount, hperm.length_eq]
  · intro hcount
    exact ⟨c.openSessions, nodup_openSessions, fun s => mem_openSessions, hcount⟩

/-- A session has one transaction at most, so the count tells it whether another one is open. -/
theorem Counted.openCount_le_iff (h : c.Counted) :
    c.openCount ≤ (c.tx s).isOpen.toNat ↔ ∀ x, x ≠ s → (c.tx x).isOpen = false := by
  have hothers : c.openSessions.erase s = [] ↔ ∀ x, x ≠ s → (c.tx x).isOpen = false := by
    simp [List.eq_nil_iff_forall_not_mem, nodup_openSessions.mem_erase_iff, mem_openSessions]
  rw [← hothers, ← List.length_eq_zero_iff, List.length_erase, counted_iff.mp h]
  cases hopen : (c.tx s).isOpen with
  | true =>
    rw [if_pos (mem_openSessions.mpr hopen), Bool.toNat_true]
    omega
  | false =>
    have hout : s ∉ c.openSessions := by simp [mem_openSessions, hopen]
    rw [if_neg hout, Bool.toNat_false]
    omega

theorem tallies_of_eq (hopen : (c'.tx s).isOpen = (c.tx s).isOpen) (hcount : c'.openCount = c.openCount) :
    Tallies s c c' := by
  intro _
  rw [hopen, hcount]

theorem tallies_claim {storage : Storage} {owners : RowOwnership} {f : SessionTx → SessionTx}
    (hf : ∀ tx : SessionTx, (f tx).isOpen = tx.isOpen) :
    Tallies s c ({ c.withCalls s storage with owners }.updateTx s f) := by
  apply tallies_of_eq
  · rw [tx_updateTx_self]
    exact hf (c.tx s)
  · rfl

theorem tallies_recordInsert {store : TableId} {row : Row} :
    Tallies s c (c.recordInsert s store row).2 := by
  unfold recordInsert
  split
  next => exact tallies_of_eq rfl rfl
  next => exact tallies_claim fun _ => rfl

theorem tallies_recordDelete {store : TableId} {row : Row} :
    Tallies s c (c.recordDelete s store row).2 := by
  unfold recordDelete
  split
  next => exact tallies_of_eq rfl rfl
  next =>
    split
    next => exact tallies_of_eq rfl rfl
    next => exact tallies_claim fun _ => rfl

/-- The count of open transactions follows each call. -/
theorem tallies_call (hcaller : k.caller? = some s) (h : c.locks.Coherent) :
    Tallies s c (c.perform k) := by
  cases k with
  | register level => cases hcaller
  | change y change => cases hcaller
  | outside storage journal => cases hcaller
  | unregister y => cases hcaller; exact (unregister_freed h).2.tallies
  | beginTransaction y => cases hcaller; exact books_beginTransaction.tallies
  | beginStatement y r => cases hcaller; exact (beginStatement_begins c s r).books.tallies
  | resumeStatement y => cases hcaller; exact books_resumeStatement.tallies
  | cancelWait y => cases hcaller; exact books_cancelWait.tallies
  | completeStatement y => cases hcaller; exact books_completeStatement.tallies
  | rollbackStatement y => cases hcaller; exact books_rollbackStatement.tallies
  | prepare y => cases hcaller; exact books_prepare.tallies
  | commit y => cases hcaller; exact (commit_books h).2.tallies
  | rollback y => cases hcaller; exact (rollback_freed h).2.tallies
  | rollbackToIndex y i => cases hcaller; exact books_rollbackToIndex.tallies
  | rollbackToSavepoint y name => cases hcaller; exact books_rollbackToSavepoint.tallies
  | recordInsert y store row => cases hcaller; exact tallies_recordInsert
  | recordDelete y store row => cases hcaller; exact tallies_recordDelete

/-- Only registered sessions call. -/
def CallsRegistered (c : Coordinator) (k : CoordinatorCall) : Prop := ∀ s ∈ k.caller?, s ∈ c.registered

instance (c : Coordinator) (k : CoordinatorCall) : Decidable (c.CallsRegistered k) :=
  inferInstanceAs (Decidable (∀ s ∈ k.caller?, s ∈ c.registered))

/-- The open transactions are counted, and the next session to be registered has a number that no
session has which calls or has a transaction. -/
structure Enrolled (c : Coordinator) : Prop where
  coherent : c.locks.Coherent
  counted : c.Counted
  registered_lt : ∀ s ∈ c.registered, s < c.nextSession
  open_lt : ∀ s, (c.tx s).isOpen = true → s < c.nextSession

theorem Enrolled.call (h : c.Enrolled) (hcaller : k.caller? = some s) (hs : s ∈ c.registered) :
    (c.perform k).Enrolled := by
  have hothers (x : SessionId) (hx : x ≠ s) : Spares x c (c.perform k) := spares_call hcaller hx
  have hspares : Spares (s + 1) c (c.perform k) := hothers (s + 1) (Nat.succ_ne_self s)
  have hknown : s < c.nextSession := h.registered_lt s hs
  constructor
  · exact hspares.coherent h.coherent
  · exact h.counted.of_tallies (fun x hx => (hothers x hx).isOpen) (tallies_call hcaller h.coherent)
  · intro x hx
    rw [hspares.nextSession]
    by_cases hxs : x = s
    · rw [hxs]
      exact hknown
    · exact h.registered_lt x ((hothers x hxs).registered.mp hx)
  · intro x hx
    rw [hspares.nextSession]
    by_cases hxs : x = s
    · rw [hxs]
      exact hknown
    · exact h.open_lt x ((hothers x hxs).isOpen.symm.trans hx)

theorem Enrolled.of_same (h : c.Enrolled) (hlocks : c'.locks = c.locks)
    (hopen : ∀ x, (c'.tx x).isOpen = (c.tx x).isOpen) (hcount : c'.openCount = c.openCount)
    (hregistered : ∀ x ∈ c'.registered, x < c'.nextSession) (hnext : c.nextSession ≤ c'.nextSession) :
    c'.Enrolled := by
  constructor
  · rw [hlocks]
    exact h.coherent
  · exact h.counted.of_tallies (s := 0) (fun x _ => hopen x) (tallies_of_eq (hopen 0) hcount)
  · exact hregistered
  · intro x hx
    rw [hopen] at hx
    exact Nat.lt_of_lt_of_le (h.open_lt x hx) hnext

theorem Enrolled.register (h : c.Enrolled) (level : IsolationLevel) : (c.register level).2.Enrolled := by
  apply h.of_same
  · rfl
  · intro x
    by_cases hx : x = c.nextSession
    · have hclosed : (c.tx x).isOpen = false := by
        apply Bool.eq_false_iff.mpr
        intro hopen
        exact Nat.ne_of_lt (h.open_lt x hopen) hx
      have hfresh : (c.register level).2.tx x = .fresh c.nextSession level := by
        rw [hx]
        exact tx_setTx_self
      rw [hclosed, hfresh]
      rfl
    · exact congrArg SessionTx.isOpen (tx_setTx_of_ne hx)
  · rfl
  · intro x hx
    rcases IdSet.mem_insert.mp hx with rfl | hx
    · exact Nat.lt_succ_self c.nextSession
    · exact Nat.lt_succ_of_lt (h.registered_lt x hx)
  · exact Nat.le_succ c.nextSession

theorem Enrolled.change (h : c.Enrolled) (change : StateChange) : (c.updateTx s change.apply).Enrolled := by
  apply h.of_same
  · rfl
  · intro x
    by_cases hx : x = s
    · rw [hx, tx_updateTx_self]
      exact change.apply_isOpen (c.tx s)
    · exact congrArg SessionTx.isOpen (tx_setTx_of_ne hx)
  · rfl
  · exact h.registered_lt
  · exact Nat.le_refl c.nextSession

theorem Enrolled.perform (h : c.Enrolled) (hk : c.CallsRegistered k) : (c.perform k).Enrolled := by
  cases hcaller : k.caller? with
  | some s => exact h.call hcaller (hk s hcaller)
  | none =>
    cases k with
    | register level => exact h.register level
    | change y change => exact h.change change
    | outside storage journal => exact h.of_same rfl (fun _ => rfl) rfl h.registered_lt (Nat.le_refl _)
    | _ => cases hcaller

theorem Enrolled.run (h : c.Enrolled) {calls : List CoordinatorCall}
    (hcalls : c.Throughout CallsRegistered calls) : (c.run calls).Enrolled := by
  apply hcalls.preserves _ h
  intro c k hc hk
  exact hc.perform hk

theorem enrolled_started {clock : Clock} {storage : Storage} {journal : Journal} :
    (started clock storage journal).Enrolled where
  coherent := LockTable.coherent_empty
  counted := counted_iff.mpr rfl
  registered_lt := nofun
  open_lt := nofun

end Coordinator

end LockingDb
