import LockingDb.Proofs.ClockTimes
import LockingDb.Proofs.ReinsertedRows
import LockingDb.Proofs.SavepointRollback

namespace LockingDb

namespace Coordinator

variable {c c' : Coordinator} {s : SessionId} {k : CoordinatorCall} {name : String} {p : Savepoint}
  {calls : List CoordinatorCall} {i : Nat}

/-- What a call does to the log and the savepoints of a session. Only the rollback of a statement
cuts the log off and leaves all savepoints. -/
inductive Reworks (s : SessionId) (c c' : Coordinator) : CoordinatorCall → Prop where
  | grows {k : CoordinatorCall} {added : List RowAction}
      (hactions : (c'.tx s).actions = (c.tx s).actions ++ added)
      (hsavepoints : (c'.tx s).savepoints = (c.tx s).savepoints) : Reworks s c c' k
  | clears {k : CoordinatorCall} (hactions : (c'.tx s).actions = [])
      (hsavepoints : (c'.tx s).savepoints = []) : Reworks s c c' k
  | undoes (hactions : (c'.tx s).actions = (c.tx s).actions.take (c.tx s).statementStart)
      (hsavepoints : (c'.tx s).savepoints = (c.tx s).savepoints) :
      Reworks s c c' (.rollbackStatement s)
  | returns {k : CoordinatorCall} {i : Nat} {q : Savepoint} (hq : (c.tx s).savepoints[i]? = some q)
      (hactions : (c'.tx s).actions = (c.tx s).actions.take q.logLength)
      (hsavepoints : (c'.tx s).savepoints = (c.tx s).savepoints.take (i + 1)) : Reworks s c c' k
  | drops {k : CoordinatorCall} {n : Nat} (hactions : (c'.tx s).actions = (c.tx s).actions)
      (hsavepoints : (c'.tx s).savepoints = (c.tx s).savepoints.take n) : Reworks s c c' k
  | sets {name : String} (hmarks : Marks s name c c') : Reworks s c c' (.change s (.savepoint name))

theorem reworks_of_work (h : (c'.tx s).work = (c.tx s).work) : Reworks s c c' k := by
  have hactions : (c'.tx s).actions = (c.tx s).actions ++ [] := by
    rw [actions_of_work h, List.append_nil]
  exact .grows hactions (savepoints_of_work h)

theorem actions_rollback : ((c.rollback s).tx s).actions = [] := by
  unfold Coordinator.rollback
  dsimp only
  rw [closeTx, tx_updateTx_self]
  rfl

theorem reworks_commit : Reworks s c (c.commit s).2 k := by
  have hcommits := c.commit_commits s
  generalize c.commitEvent? s = e, (c.commit s).2 = c' at hcommits
  cases hcommits with
  | refused habort => exact reworks_of_work rfl
  | failed habort hlog => exact .clears actions_rollback savepoints_rollback
  | done habort hlog =>
    refine .clears ?_ ?_
    all_goals
      rw [closeTx, tx_updateTx_self]
      rfl

theorem reworks_unregister : Reworks s c (c.unregister s) k := by
  have hleft (c₁ : Coordinator) :
      (({ c₁.withdraw s with registered := (c₁.withdraw s).registered.erase s } : Coordinator).tx
        s).work = (c₁.tx s).work := quiet_withdraw.work
  unfold Coordinator.unregister
  dsimp only
  split
  next =>
    refine .clears ?_ ?_
    · exact (actions_of_work (hleft _)).trans actions_rollback
    · exact (savepoints_of_work (hleft _)).trans savepoints_rollback
  next => exact reworks_of_work (hleft c)

theorem reworks_rollbackToIndex : Reworks s c (c.rollbackToIndex s i).2 k := by
  cases hq : (c.tx s).savepoints[i]? with
  | none =>
    have hrefused : (c.rollbackToIndex s i).2 = c := by
      unfold rollbackToIndex
      rw [hq]
    rw [hrefused]
    exact reworks_of_work rfl
  | some q =>
    obtain ⟨-, hactions, hsavepoints, -⟩ := rollbackToIndex_undone hq
    exact .returns hq hactions hsavepoints

theorem savepoints_recordInsert {store : TableId} {row : Row} :
    ((c.recordInsert s store row).2.tx s).savepoints = (c.tx s).savepoints := by
  unfold Coordinator.recordInsert
  split
  next => rfl
  next => rw [tx_updateTx_self]; rfl

theorem savepoints_recordDelete {store : TableId} {row : Row} :
    ((c.recordDelete s store row).2.tx s).savepoints = (c.tx s).savepoints := by
  unfold Coordinator.recordDelete
  split
  next => rfl
  next =>
    split
    next => rfl
    next => rw [tx_updateTx_self]; rfl

theorem reworks_own (hcaller : k.caller? = some s) : Reworks s c (c.perform k) k := by
  cases k with
  | register level => cases hcaller
  | change y k => cases hcaller
  | outside storage journal => cases hcaller
  | unregister y => cases hcaller; exact reworks_unregister
  | beginTransaction y => cases hcaller; exact reworks_of_work quiet_beginTransaction.work
  | beginStatement y r => cases hcaller; exact reworks_of_work (beginStatement_begins c s r).quiet.work
  | resumeStatement y => cases hcaller; exact reworks_of_work quiet_resumeStatement.work
  | cancelWait y => cases hcaller; exact reworks_of_work quiet_cancelWait.work
  | completeStatement y => cases hcaller; exact reworks_of_work quiet_completeStatement.work
  | rollbackStatement y =>
    cases hcaller
    exact .undoes actions_rollbackStatement savepoints_rollbackStatement
  | prepare y => cases hcaller; exact reworks_of_work quiet_prepare.work
  | commit y => cases hcaller; exact reworks_commit
  | rollback y => cases hcaller; exact .clears actions_rollback savepoints_rollback
  | rollbackToIndex y i => cases hcaller; exact reworks_rollbackToIndex
  | rollbackToSavepoint y name =>
    cases hcaller
    show Reworks s c (c.rollbackToSavepoint s name).2 _
    unfold rollbackToSavepoint
    split
    next => exact reworks_of_work rfl
    next => exact reworks_rollbackToIndex
  | recordInsert y store row =>
    cases hcaller
    exact .grows actions_recordInsert savepoints_recordInsert
  | recordDelete y store row =>
    cases hcaller
    exact .grows actions_recordDelete savepoints_recordDelete

theorem tx_savepoint :
    (c.perform (.change s (.savepoint name))).tx s = (c.tx s).setSavepoint name := tx_updateTx_self

theorem marks_savepoint : Marks s name c (c.perform (.change s (.savepoint name))) :=
  ⟨by rw [tx_savepoint]; rfl, by rw [tx_savepoint], rfl⟩

theorem reworks_change {change : StateChange} :
    Reworks s c (c.updateTx s change.apply) (.change s change) := by
  have hsame (hwork : (change.apply (c.tx s)).work = (c.tx s).work) :
      Reworks s c (c.updateTx s change.apply) (.change s change) :=
    reworks_of_work (by rw [tx_updateTx_self, hwork])
  cases change with
  | isolation level =>
    refine hsame ?_
    unfold StateChange.apply SessionTx.setIsolation
    dsimp only
    split <;> rfl
  | readOnly on =>
    refine hsame ?_
    unfold StateChange.apply SessionTx.setReadOnly
    dsimp only
    split <;> rfl
  | savepoint name => exact .sets marks_savepoint
  | truncateSavepoints length =>
    refine .drops (n := length) ?_ ?_
    all_goals
      rw [tx_updateTx_self]
      rfl
  | isolationDefault level => exact hsame rfl
  | readOnlyDefault on => exact hsame rfl
  | raiseAbort => exact hsame rfl
  | requestRedo => exact hsame rfl
  | takeRedo => exact hsame rfl

theorem reworks_perform (c : Coordinator) (s : SessionId) (k : CoordinatorCall) :
    Reworks s c (c.perform k) k := by
  cases concerns_perform s c k with
  | own hcaller => exact reworks_own hcaller
  | registers htx => exact .clears (by rw [htx]; rfl) (by rw [htx]; rfl)
  | changes _ => exact reworks_change
  | spares htx => exact reworks_of_work (SessionTx.work_of_unlatched htx)

/-- No savepoint is after the end of the log. -/
def Fits (c : Coordinator) (s : SessionId) : Prop :=
  ∀ p ∈ (c.tx s).savepoints, p.logLength ≤ (c.tx s).actions.length

/-- No savepoint has been set in the running statement after an action of it. -/
def Covers (c : Coordinator) (s : SessionId) : Prop :=
  ∀ p ∈ (c.tx s).savepoints, p.logLength ≤ (c.tx s).statementStart

/-- The log reaches up to the savepoint, and no savepoint behind it is at an earlier place. -/
structure Reaches (c : Coordinator) (s : SessionId) (p : Savepoint) : Prop where
  within : p.logLength ≤ (c.tx s).actions.length
  later : (c.tx s).savepoints.Pairwise fun q r => q = p → p.logLength ≤ r.logLength

theorem Reaches.of_sublist (h : c.Reaches s p) (hwithin : p.logLength ≤ (c'.tx s).actions.length)
    (hsub : (c'.tx s).savepoints.Sublist (c.tx s).savepoints) : c'.Reaches s p :=
  ⟨hwithin, h.later.sublist hsub⟩

/-- To go back to a savepoint cuts nothing off that the savepoints in front of it stand behind. -/
theorem Reaches.le_of_returns (h : c.Reaches s p) {q : Savepoint}
    (hq : (c.tx s).savepoints[i]? = some q) (hp : p ∈ (c.tx s).savepoints.take (i + 1)) :
    p.logLength ≤ q.logLength := by
  obtain ⟨j, hj⟩ := List.mem_iff_getElem?.mp hp
  rw [List.getElem?_take] at hj
  split at hj
  next hlt =>
    rcases Nat.lt_or_eq_of_le (Nat.le_of_lt_succ hlt) with hbefore | heq
    · obtain ⟨hjlen, hjp⟩ := List.getElem?_eq_some_iff.mp hj
      obtain ⟨hilen, hiq⟩ := List.getElem?_eq_some_iff.mp hq
      have hle := List.pairwise_iff_getElem.mp h.later j i hjlen hilen hbefore hjp
      rwa [hiq] at hle
    · rw [heq, hq] at hj
      cases hj
      exact Nat.le_refl _
  next => cases hj

/-- A savepoint is set behind those that are kept, in place of an older one of the name. -/
theorem Marks.exists_kept (h : Marks s name c c') : ∃ kept, kept.Sublist (c.tx s).savepoints ∧
    (c'.tx s).savepoints = kept ++ [⟨name, (c.tx s).actions.length, (c.tx s).actionAt⟩] := by
  refine ⟨_, ?_, h.savepoints⟩
  split
  next i _ => exact List.eraseIdx_sublist _ i
  next => exact List.Sublist.refl _

theorem Marks.reaches (h : Marks s name c c') {kept : List Savepoint} (hsavepoints :
    (c'.tx s).savepoints = kept ++ [⟨name, (c.tx s).actions.length, (c.tx s).actionAt⟩])
    (hnew : ⟨name, (c.tx s).actions.length, (c.tx s).actionAt⟩ ∉ kept) :
    c'.Reaches s ⟨name, (c.tx s).actions.length, (c.tx s).actionAt⟩ := by
  refine ⟨Nat.le_of_eq (congrArg List.length h.actions.symm), ?_⟩
  rw [hsavepoints]
  refine List.pairwise_append.mpr ⟨?_, List.pairwise_singleton _ _, ?_⟩
  · exact List.pairwise_of_forall_mem_list fun q hq _ _ heq => absurd (heq ▸ hq) hnew
  · intro q hq _ _ heq
    exact absurd (heq ▸ hq) hnew

/-- A savepoint that stays is reached as before, unless a statement is rolled back that began before
the savepoint was set. -/
theorem Reworks.reaches (h : Reworks s c c' k) (hp : c.Reaches s p) (hin : p ∈ (c'.tx s).savepoints)
    (hcovers : k = .rollbackStatement s → p.logLength ≤ (c.tx s).statementStart) :
    c'.Reaches s p := by
  have hwithin := hp.within
  cases h with
  | @grows _ added hactions hsavepoints =>
    refine hp.of_sublist ?_ (hsavepoints ▸ List.Sublist.refl _)
    rw [hactions, List.length_append]
    omega
  | clears hactions hsavepoints =>
    rw [hsavepoints] at hin
    cases hin
  | undoes hactions hsavepoints =>
    refine hp.of_sublist ?_ (hsavepoints ▸ List.Sublist.refl _)
    rw [hactions, List.length_take]
    exact Nat.le_min.mpr ⟨hcovers rfl, hwithin⟩
  | @returns _ i q hq hactions hsavepoints =>
    rw [hsavepoints] at hin
    refine hp.of_sublist ?_ (hsavepoints ▸ List.take_sublist _ _)
    rw [hactions, List.length_take]
    exact Nat.le_min.mpr ⟨hp.le_of_returns hq hin, hwithin⟩
  | drops hactions hsavepoints =>
    exact hp.of_sublist (hactions ▸ hwithin) (hsavepoints ▸ List.take_sublist _ _)
  | sets hmarks =>
    obtain ⟨kept, hkept, hsavepoints⟩ := hmarks.exists_kept
    refine ⟨hmarks.actions ▸ hwithin, ?_⟩
    rw [hsavepoints]
    refine List.pairwise_append.mpr ⟨hp.later.sublist hkept, List.pairwise_singleton _ _, ?_⟩
    intro q _ r hr _
    rw [List.mem_singleton.mp hr]
    exact hwithin

/-- A savepoint is new only if it is at the end of the log and behind all others. -/
theorem Reworks.reaches_new (h : Reworks s c c' k) (hold : p ∉ (c.tx s).savepoints)
    (hin : p ∈ (c'.tx s).savepoints) : c'.Reaches s p := by
  cases h with
  | grows _ hsavepoints => exact absurd (hsavepoints ▸ hin) hold
  | clears _ hsavepoints => exact absurd (hsavepoints ▸ hin) List.not_mem_nil
  | undoes _ hsavepoints => exact absurd (hsavepoints ▸ hin) hold
  | returns _ _ hsavepoints => exact absurd (List.mem_of_mem_take (hsavepoints ▸ hin)) hold
  | drops _ hsavepoints => exact absurd (List.mem_of_mem_take (hsavepoints ▸ hin)) hold
  | sets hmarks =>
    obtain ⟨kept, hkept, hsavepoints⟩ := hmarks.exists_kept
    rw [hsavepoints] at hin
    have hnew := (List.mem_append.mp hin).resolve_left fun hmem => hold (hkept.subset hmem)
    obtain rfl := List.mem_singleton.mp hnew
    exact hmarks.reaches hsavepoints fun hmem => hold (hkept.subset hmem)

/-- All savepoints are reached. -/
def AllReached (c : Coordinator) (s : SessionId) : Prop := ∀ p ∈ (c.tx s).savepoints, c.Reaches s p

theorem Reworks.allReached (h : Reworks s c c' k) (hc : c.AllReached s)
    (hcovers : k = .rollbackStatement s → c.Covers s) : c'.AllReached s := by
  intro p hin
  by_cases hold : p ∈ (c.tx s).savepoints
  · exact h.reaches (hc p hold) hin fun hk => hcovers hk p hold
  · exact h.reaches_new hold hin

theorem run_snoc : c.run (calls ++ [k]) = (c.run calls).perform k := run_append

theorem AllReached.run (hc : c.AllReached s)
    (hcovers : ∀ mid, mid ++ [.rollbackStatement s] <+: calls → (c.run mid).Covers s) :
    (c.run calls).AllReached s := by
  induction calls using List.reverseRecOn with
  | nil => exact hc
  | append_singleton mid k ih =>
    have hmid := ih fun first hfirst => hcovers first (hfirst.trans (List.prefix_append _ _))
    rw [run_snoc]
    refine (reworks_perform _ s k).allReached hmid fun hk => hcovers mid ?_
    rw [hk]

theorem AllReached.fits (hc : c.AllReached s) : c.Fits s := fun p hp => (hc p hp).within

/-- The savepoints of a session never get behind the end of its log if and only if no statement is
rolled back in which a savepoint was set after an action. -/
theorem fits_run_iff (hc : c.AllReached s) : (∀ mid, mid <+: calls → (c.run mid).Fits s) ↔
    ∀ mid, mid ++ [.rollbackStatement s] <+: calls → (c.run mid).Covers s := by
  constructor
  · intro hfits mid hmid p hp
    have hafter := hfits _ hmid p
    rw [run_snoc] at hafter
    have hshort : p.logLength ≤ (((c.run mid).rollbackStatement s).tx s).actions.length :=
      hafter (by rw [perform, savepoints_rollbackStatement]; exact hp)
    rw [actions_rollbackStatement, List.length_take] at hshort
    omega
  · rintro hcovers mid ⟨rest, rfl⟩
    refine (hc.run fun first hfirst => hcovers first ?_).fits
    exact hfirst.trans (List.prefix_append _ _)

theorem Reworks.namesApart (h : Reworks s c c' k) (hs : c.NamesApart s) : c'.NamesApart s := by
  cases h with
  | grows _ hsavepoints => exact hs.of_sublist (hsavepoints ▸ List.Sublist.refl _)
  | clears _ hsavepoints => exact hs.of_sublist (hsavepoints ▸ List.nil_sublist _)
  | undoes _ hsavepoints => exact hs.of_sublist (hsavepoints ▸ List.Sublist.refl _)
  | returns _ _ hsavepoints => exact hs.of_sublist (hsavepoints ▸ List.take_sublist _ _)
  | drops _ hsavepoints => exact hs.of_sublist (hsavepoints ▸ List.take_sublist _ _)
  | sets hmarks => exact hmarks.namesApart hs

theorem NamesApart.run (hs : c.NamesApart s) : (c.run calls).NamesApart s :=
  List.foldlRecOn (motive := fun c => c.NamesApart s) calls perform hs
    fun c hc k _ => (reworks_perform c s k).namesApart hc

/-- A savepoint that is in place was there before, unless its name has been set. -/
theorem Reworks.mem_before (h : Reworks s c c' k) (hk : k ≠ .change s (.savepoint p.name))
    (hp : p ∈ (c'.tx s).savepoints) : p ∈ (c.tx s).savepoints := by
  cases h with
  | grows _ hsavepoints => exact hsavepoints ▸ hp
  | clears _ hsavepoints => exact absurd (hsavepoints ▸ hp) List.not_mem_nil
  | undoes _ hsavepoints => exact hsavepoints ▸ hp
  | returns _ _ hsavepoints => exact List.mem_of_mem_take (hsavepoints ▸ hp)
  | drops _ hsavepoints => exact List.mem_of_mem_take (hsavepoints ▸ hp)
  | sets hmarks =>
    refine hmarks.mem_savepoints hp fun hname => hk ?_
    rw [hname]

theorem mem_of_run (honce : .change s (.savepoint p.name) ∉ calls)
    (hp : p ∈ ((c.run calls).tx s).savepoints) : p ∈ (c.tx s).savepoints := by
  induction calls using List.reverseRecOn with
  | nil => exact hp
  | append_singleton mid k ih =>
    rw [run_snoc] at hp
    rw [List.mem_append, not_or, List.mem_singleton] at honce
    exact ih honce.1 ((reworks_perform _ s k).mem_before (Ne.symm honce.2) hp)

/-- No call cuts the log off in front of a savepoint that stays, but for the rollback of a statement
that began there. -/
theorem Reaches.run (h : c.Reaches s p) (honce : .change s (.savepoint p.name) ∉ calls)
    (hin : p ∈ ((c.run calls).tx s).savepoints) (hcovers : ∀ mid,
      mid ++ [.rollbackStatement s] <+: calls → p.logLength ≤ ((c.run mid).tx s).statementStart) :
    (c.run calls).Reaches s p := by
  induction calls using List.reverseRecOn with
  | nil => exact h
  | append_singleton mid k ih =>
    rw [run_snoc] at hin ⊢
    rw [List.mem_append, not_or, List.mem_singleton] at honce
    have hstep := reworks_perform (c.run mid) s k
    have hmid := ih honce.1 (hstep.mem_before (Ne.symm honce.2) hin) fun first hfirst =>
      hcovers first (hfirst.trans (List.prefix_append _ _))
    refine hstep.reaches hmid hin fun hk => hcovers mid ?_
    rw [hk]

/-- The action at a place of the log has come there in the course of the calls: after some of them
the log did not reach up to the place. -/
def AddedSince (c : Coordinator) (s : SessionId) (calls : List CoordinatorCall) (i : Nat) : Prop :=
  i < ((c.run calls).tx s).actions.length ∧
    ∃ mid, mid <+: calls ∧ ((c.run mid).tx s).actions.length ≤ i

theorem Reworks.getElem?_actions (h : Reworks s c c' k) (hbefore : i < (c.tx s).actions.length)
    (hafter : i < (c'.tx s).actions.length) :
    (c'.tx s).actions[i]? = (c.tx s).actions[i]? := by
  have htake {n : Nat} (hactions : (c'.tx s).actions = (c.tx s).actions.take n) :
      (c'.tx s).actions[i]? = (c.tx s).actions[i]? := by
    rw [hactions, List.length_take] at hafter
    rw [hactions, List.getElem?_take_of_lt (by omega)]
  cases h with
  | grows hactions _ => rw [hactions, List.getElem?_append_left hbefore]
  | clears hactions _ =>
    rw [hactions] at hafter
    cases hafter
  | undoes hactions _ => exact htake hactions
  | returns _ hactions _ => exact htake hactions
  | drops hactions _ => rw [hactions]
  | sets hmarks => rw [hmarks.actions]

/-- What has not been added since was there before. -/
theorem getElem?_of_not_addedSince (hi : i < ((c.run calls).tx s).actions.length)
    (hnot : ¬c.AddedSince s calls i) :
    ((c.run calls).tx s).actions[i]? = (c.tx s).actions[i]? := by
  have hreached : ∀ mid, mid <+: calls → i < ((c.run mid).tx s).actions.length :=
    fun mid hmid => Nat.lt_of_not_le fun hle => hnot ⟨hi, mid, hmid, hle⟩
  clear hi hnot
  induction calls using List.reverseRecOn with
  | nil => rfl
  | append_singleton mid k ih =>
    have hbefore := hreached mid (List.prefix_append _ _)
    have hafter := hreached _ (List.prefix_refl _)
    rw [run_snoc] at hafter ⊢
    rw [(reworks_perform _ s k).getElem?_actions hbefore hafter]
    exact ih fun first hfirst => hreached first (hfirst.trans (List.prefix_append _ _))

theorem rollbackToSavepoint_eq (hs : c.NamesApart s) (hp : p ∈ (c.tx s).savepoints) :
    ∃ i, (c.tx s).savepoints[i]? = some p ∧
      c.rollbackToSavepoint s p.name = c.rollbackToIndex s i := by
  unfold rollbackToSavepoint
  split
  next hnone =>
    have hother := List.findIdx?_eq_none_iff.mp hnone p hp
    simp at hother
  next i hfound =>
    obtain ⟨hi, hname, -⟩ := List.findIdx?_eq_some_iff_getElem.mp hfound
    have hsame := List.inj_on_of_nodup_map hs (List.getElem_mem hi) hp (of_decide_eq_true hname)
    exact ⟨i, hsame ▸ List.getElem?_eq_getElem hi, rfl⟩

theorem storage_rollbackToIndex (hp : (c.tx s).savepoints[i]? = some p) :
    (c.rollbackToIndex s i).2.storage =
      undoAll p.timestamp ((c.tx s).actions.drop p.logLength).reverse c.storage := by
  rw [← SessionTx.truncateActions_removed]
  unfold rollbackToIndex
  rw [hp]
  rfl

/-- How a session goes back, after some calls, to a savepoint that was set at the end of its log and
is still in place. -/
structure GoesBack (set : Coordinator) (s : SessionId) (name : String)
    (calls : List CoordinatorCall) : Prop where
  answered : ((set.run calls).rollbackToSavepoint s name).1 = .ok ()
  left : (((set.run calls).rollbackToSavepoint s name).2.tx s).actions =
    ((set.run calls).tx s).actions.take (set.tx s).actions.length
  undone : ((set.run calls).rollbackToSavepoint s name).2.storage =
    undoAll (set.tx s).actionAt
      (((set.run calls).tx s).actions.drop (set.tx s).actions.length).reverse (set.run calls).storage
  earlier : ∀ i < ((set.run calls).tx s).actions.length, ¬set.AddedSince s calls i →
    ((set.run calls).tx s).actions[i]? = (set.tx s).actions[i]?
  later_iff : (∀ i, set.AddedSince s calls i →
      (((set.run calls).rollbackToSavepoint s name).2.tx s).actions.length ≤ i) ↔
    (∀ mid, mid ++ [.rollbackStatement s] <+: calls →
      (set.tx s).actions.length ≤ ((set.run mid).tx s).statementStart) ∨
    ∀ i, ¬set.AddedSince s calls i

/-- The log is cut off in front of the savepoint, so what has been added in between stays when the
session goes back. -/
theorem exists_addedSince_of_cut {mid : List CoordinatorCall} {n : Nat}
    (hmid : mid ++ [.rollbackStatement s] <+: calls)
    (hcut : ((c.run mid).tx s).statementStart < n) (hadded : c.AddedSince s calls i) :
    ∃ j, c.AddedSince s calls j ∧ j < n := by
  have hshort : ((c.run (mid ++ [.rollbackStatement s])).tx s).actions.length < n := by
    rw [run_snoc, perform, actions_rollbackStatement, List.length_take]
    omega
  by_cases hlog : ((c.run (mid ++ [.rollbackStatement s])).tx s).actions.length <
      ((c.run calls).tx s).actions.length
  · exact ⟨_, ⟨hlog, _, hmid, Nat.le_refl _⟩, hshort⟩
  · have hi := hadded.1
    exact ⟨i, hadded, by omega⟩

theorem Reaches.goesBack (h : c.Reaches s p) (hs : c.NamesApart s) (hp : p ∈ (c.tx s).savepoints)
    (hlength : p.logLength = (c.tx s).actions.length) (htime : p.timestamp = (c.tx s).actionAt)
    (honce : .change s (.savepoint p.name) ∉ calls) (hplace : (c.run calls).InPlace s p.name) :
    GoesBack c s p.name calls := by
  obtain ⟨q, hq, hname⟩ := hplace
  have hbefore : q ∈ (c.tx s).savepoints := mem_of_run (hname ▸ honce) hq
  obtain rfl := List.inj_on_of_nodup_map hs hbefore hp hname
  obtain ⟨i, hi, heq⟩ := rollbackToSavepoint_eq hs.run hq
  obtain ⟨hanswer, hleft, -, -⟩ := rollbackToIndex_undone hi
  rw [hlength] at hleft
  refine ⟨heq ▸ hanswer, heq ▸ hleft, ?_, fun i => getElem?_of_not_addedSince, ?_⟩
  · rw [heq, storage_rollbackToIndex hi, hlength, htime]
  rw [heq, hleft, List.length_take]
  constructor
  · intro hundone
    refine or_iff_not_imp_left.mpr fun hcut i hadded => ?_
    push Not at hcut
    obtain ⟨mid, hmid, hlt⟩ := hcut
    obtain ⟨j, hj, hjn⟩ := exists_addedSince_of_cut hmid hlt hadded
    have hle := hundone j hj
    have hin := hj.1
    omega
  · rintro (hcovers | hnone) j hj
    · obtain ⟨-, mid, ⟨rest, rfl⟩, hle⟩ := hj
      rw [List.mem_append, not_or] at honce
      have hrun : (c.run (mid ++ rest)) = (c.run mid).run rest := run_append
      have hmid : (c.run mid).Reaches s q := by
        refine h.run honce.1 (mem_of_run honce.2 (hrun ▸ hq)) fun first hfirst => ?_
        rw [hlength]
        exact hcovers first (hfirst.trans (List.prefix_append _ _))
      have hwithin := hmid.within
      omega
    · exact absurd hj (hnone j)

theorem allReached_started {clock : Clock} {storage : Storage} {journal : Journal} :
    (started clock storage journal).AllReached s := nofun

theorem namesApart_started {clock : Clock} {storage : Storage} {journal : Journal} :
    (started clock storage journal).NamesApart s := List.nodup_nil

/-- A savepoint is set at the end of the log, behind all others. -/
theorem goesBack_of_set (hs : c.NamesApart s) (honce : .change s (.savepoint name) ∉ calls)
    (hplace : ((c.perform (.change s (.savepoint name))).run calls).InPlace s name) :
    GoesBack (c.perform (.change s (.savepoint name))) s name calls := by
  have hmarks : Marks s name c (c.perform (.change s (.savepoint name))) := marks_savepoint
  have hnames := hmarks.namesApart hs
  obtain ⟨kept, -, hsavepoints⟩ := hmarks.exists_kept
  have hnew : ⟨name, (c.tx s).actions.length, (c.tx s).actionAt⟩ ∉ kept := by
    intro hmem
    unfold NamesApart at hnames
    rw [hsavepoints, List.map_append] at hnames
    exact (List.nodup_append.mp hnames).2.2 _ (List.mem_map_of_mem hmem) _ List.mem_cons_self rfl
  refine (hmarks.reaches hsavepoints hnew).goesBack hnames ?_ ?_ ?_ honce hplace
  · rw [hsavepoints]
    exact List.mem_append_right _ List.mem_cons_self
  · rw [hmarks.actions]
  · rw [tx_savepoint]
    rfl

/-- Whatever the calls are, the savepoints of a session stay within its log if and only if no
statement is rolled back in which a savepoint was set after an action. When the session goes back to
a savepoint that it has set, the log is cut off where it ended then. This takes back all that was
added to the log since if and only if no statement was rolled back meanwhile that had begun before
the actions in front of the savepoint were done, or nothing of what was added is left. -/
theorem goes_back_iff (clock : Clock) (storage : Storage) (journal : Journal)
    (calls : List CoordinatorCall) (s : SessionId) :
    ((∀ mid, mid <+: calls → ((started clock storage journal).run mid).Fits s) ↔
      ∀ mid, mid ++ [.rollbackStatement s] <+: calls →
        ((started clock storage journal).run mid).Covers s) ∧
    ∀ before after name, calls = before ++ .change s (.savepoint name) :: after →
      .change s (.savepoint name) ∉ after →
      ((started clock storage journal).run calls).InPlace s name →
      GoesBack ((started clock storage journal).run (before ++ [.change s (.savepoint name)])) s
        name after := by
  refine ⟨fits_run_iff allReached_started, ?_⟩
  rintro before after name rfl honce hplace
  rw [List.append_cons, run_append, run_snoc] at hplace
  rw [run_snoc]
  exact goesBack_of_set namesApart_started.run honce hplace

/-- A session inserts a row and sets a savepoint in the same statement. -/
def insertAndMark : List CoordinatorCall :=
  [.register .readCommitted, .beginTransaction 1, .beginStatement 1 (.write [1]),
    .recordInsert 1 1 ⟨1, 1, 1, []⟩, .change 1 (.savepoint "a")]

/-- The statement is rolled back, and the next one inserts another row. -/
def undoAndInsert : List CoordinatorCall :=
  [.rollbackStatement 1, .beginStatement 1 (.write [1]), .recordInsert 1 1 ⟨2, 2, 1, []⟩]

theorem goes_back_iff_undoAndInsert :
    ((started .zero (Storage.empty.addTable 1 false) .empty).run
      (insertAndMark ++ undoAndInsert)).InPlace 1 "a" ∧
    GoesBack ((started .zero (Storage.empty.addTable 1 false) .empty).run insertAndMark) 1 "a"
      undoAndInsert := by
  have hplace : ((started .zero (Storage.empty.addTable 1 false) .empty).run
      (insertAndMark ++ undoAndInsert)).InPlace 1 "a" := by
    unfold InPlace
    decide
  have honce : .change 1 (.savepoint "a") ∉ undoAndInsert := by simp [undoAndInsert]
  exact ⟨hplace, (goes_back_iff .zero (Storage.empty.addTable 1 false) .empty
    (insertAndMark ++ undoAndInsert) 1).2 (insertAndMark.take 4) undoAndInsert "a" rfl honce hplace⟩

/-- The savepoint is behind the end of the log after the rollback, and to go back to it later takes
nothing back of what was done since. -/
theorem stale_savepoint_takes_nothing_back : ∃ set late : Coordinator,
    (started .zero (Storage.empty.addTable 1 false) .empty).run insertAndMark = set ∧
    set.run undoAndInsert = late ∧ ¬(set.perform (.rollbackStatement 1)).Fits 1 ∧
    set.AddedSince 1 undoAndInsert 0 ∧ (late.rollbackToSavepoint 1 "a").1 = .ok () ∧
    ((late.rollbackToSavepoint 1 "a").2.tx 1).actions = (late.tx 1).actions := by
  refine ⟨_, _, rfl, rfl, ?_, ⟨by decide, [.rollbackStatement 1], ⟨_, rfl⟩, by decide⟩, by decide,
    by decide⟩
  unfold Fits
  decide

end Coordinator

end LockingDb
