import LockingDb.Proofs.LockCoherence

namespace LockingDb

namespace LockRequest

variable {r q : LockRequest} {t : TableId} {reads writes reads' writes' : List TableId}

/-- A table is written by one of the requests and at least read by the other. -/
def ClashOn (r q : LockRequest) (t : TableId) : Prop :=
  (t ∈ r.writes ∧ (t ∈ q.writes ∨ t ∈ q.reads)) ∨ (t ∈ q.writes ∧ (t ∈ r.writes ∨ t ∈ r.reads))

theorem conflictsWith_iff : r.conflictsWith q = true ↔ ∃ t, r.ClashOn q t := by
  simp only [conflictsWith, Bool.or_eq_true, List.any_eq_true, allowsRead_iff, IdSet.mem_toList,
    ClashOn, exists_or]

theorem ClashOn.symm (h : r.ClashOn q t) : q.ClashOn r t := Or.symm h

theorem conflictsWith_comm (r q : LockRequest) : r.conflictsWith q = q.conflictsWith r := by
  rw [Bool.eq_iff_iff, conflictsWith_iff, conflictsWith_iff]
  exact exists_congr fun t => ⟨.symm, .symm⟩

theorem mem_writes_ofTables : t ∈ (ofTables reads writes).writes ↔ t ∈ writes := IdSet.mem_ofList

theorem mem_reads_ofTables : t ∈ (ofTables reads writes).reads ↔ t ∈ reads ∧ t ∉ writes := by
  simp [ofTables]

/-- A table that is listed for both is only written, but it is touched all the same. -/
theorem touches_ofTables : t ∈ (ofTables reads writes).writes ∨ t ∈ (ofTables reads writes).reads ↔
    t ∈ writes ∨ t ∈ reads := by
  rw [mem_writes_ofTables, mem_reads_ofTables]
  by_cases ht : t ∈ writes <;> simp [ht]

theorem clashOn_ofTables : (ofTables reads writes).ClashOn (ofTables reads' writes') t ↔
    (t ∈ writes ∧ (t ∈ writes' ∨ t ∈ reads')) ∨ (t ∈ writes' ∧ (t ∈ writes ∨ t ∈ reads)) := by
  unfold ClashOn
  rw [touches_ofTables, touches_ofTables, mem_writes_ofTables, mem_writes_ofTables]

end LockRequest

namespace LockTable

variable {l : LockTable} {s x : SessionId} {t : TableId} {m : LockMode} {r : LockRequest}

/-- The tables that a session has locked in a mode. -/
def lockedTables (l : LockTable) (s : SessionId) (m : LockMode) : List TableId :=
  ((l.locksOf s).entries.filter (·.2 = m)).map Prod.fst

/-- The request for just the locks that a session has. -/
def heldRequest (l : LockTable) (s : SessionId) : LockRequest :=
  .ofTables (l.lockedTables s .shared) (l.lockedTables s .exclusive)

theorem mem_lockedTables : t ∈ l.lockedTables s m ↔ l.mode? s t = some m := by
  unfold lockedTables mode?
  rw [List.mem_map]
  constructor
  · rintro ⟨⟨u, n⟩, hentry, rfl⟩
    obtain ⟨hentry, hmode⟩ := List.mem_filter.mp hentry
    have hmode : n = m := of_decide_eq_true hmode
    exact hmode ▸ IdMap.mem_entries.mp hentry
  · intro hmode
    exact ⟨(t, m), List.mem_filter.mpr ⟨IdMap.mem_entries.mpr hmode, decide_eq_true rfl⟩, rfl⟩

theorem mem_writes_heldRequest : t ∈ (l.heldRequest s).writes ↔ l.mode? s t = some .exclusive :=
  LockRequest.mem_writes_ofTables.trans mem_lockedTables

theorem mem_heldRequest : t ∈ (l.heldRequest s).writes ∨ t ∈ (l.heldRequest s).reads ↔
    (l.mode? s t).isSome = true := by
  unfold heldRequest
  rw [LockRequest.touches_ofTables, mem_lockedTables, mem_lockedTables]
  cases l.mode? s t with
  | none => simp
  | some m => cases m <;> simp

/-- Locks are in the way of a request if the request for them conflicts with it. -/
theorem bars_iff_conflicts : l.Bars x r ↔ (l.heldRequest x).conflictsWith r = true := by
  rw [LockRequest.conflictsWith_iff]
  constructor
  · rintro (⟨t, ht, hheld⟩ | ⟨t, ht, hwriter⟩)
    · exact ⟨t, Or.inr ⟨ht, mem_heldRequest.mpr hheld⟩⟩
    · exact ⟨t, Or.inl ⟨mem_writes_heldRequest.mpr hwriter, Or.inr ht⟩⟩
  · rintro ⟨t, ⟨hwriter, ht⟩ | ⟨ht, hheld⟩⟩
    · have hwriter := mem_writes_heldRequest.mp hwriter
      rcases ht with ht | ht
      · exact Or.inl ⟨t, ht, by rw [hwriter]; rfl⟩
      · exact Or.inr ⟨t, ht, hwriter⟩
    · exact Or.inl ⟨t, ht, mem_heldRequest.mp hheld⟩

/-- Whatever was asked of the lock table, a session holds a lock in the way of another one's request
exactly if the request for all its locks conflicts with that request, as the requests in the queue
are compared. Two requests conflict, the one with the other and the other with the one, if a table is
written by either and written or read by the other, however their tables were listed. -/
theorem conflict_tests_agree (steps : List LockStep) (s x : SessionId)
    (reads writes reads' writes' : List TableId) :
    (x ∈ (run steps).conflictingHolders s (.ofTables reads writes) ↔
      x ≠ s ∧ ((run steps).heldRequest x).conflictsWith (.ofTables reads writes) = true) ∧
    (∀ r q : LockRequest, r.conflictsWith q = q.conflictsWith r) ∧
    ((LockRequest.ofTables reads writes).conflictsWith (.ofTables reads' writes') = true ↔
      ∃ t, (t ∈ writes ∧ (t ∈ writes' ∨ t ∈ reads')) ∨ (t ∈ writes' ∧ (t ∈ writes ∨ t ∈ reads))) := by
  have hagree : (run steps).HoldersAgree := (coherent_empty.foldl_perform steps).toHoldersAgree
  refine ⟨?_, LockRequest.conflictsWith_comm, ?_⟩
  · rw [hagree.mem_conflictingHolders, bars_iff_conflicts]
  · rw [LockRequest.conflictsWith_iff]
    exact exists_congr fun t => LockRequest.clashOn_ofTables

/-- A reader of one table and writer of another is in the way of who writes the first and of who
reads the second, but not of who reads the first. -/
example : let l := run [.acquire 1 (.ofTables [1, 2, 1] [2])]
    l.conflictingHolders 2 (.write [1]) = .ofList [1] ∧
    l.conflictingHolders 2 (.read [2]) = .ofList [1] ∧
    l.conflictingHolders 2 (.read [1]) = ∅ := by
  decide

end LockTable

end LockingDb
