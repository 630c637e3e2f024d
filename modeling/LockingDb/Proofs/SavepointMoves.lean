import LockingDb.Proofs.StatementRuns

namespace LockingDb

open Coordinator Session

/-- The name of the savepoint that a call sets. -/
def SessionCall.marks? : SessionCall → Option String
  | .savepoint name => some name
  | _ => none

namespace SessionTx

variable {tx tx' tx'' : SessionTx} {name : String} {set : Option String}

/-- The savepoints of a session with its log, and with the place where the running statement began. -/
def stack (tx : SessionTx) : List Savepoint × List RowAction × Nat :=
  (tx.savepoints, tx.actions, tx.statementStart)

/-- No action has been done since a statement began. -/
def Rested (tx : SessionTx) : Prop := tx.statementStart = tx.actions.length

/-- The savepoints have different names and are in the order of the log, and none of them is behind
the place where the running statement began. -/
structure Stacked (tx : SessionTx) : Prop where
  apart : (tx.savepoints.map Savepoint.name).Nodup
  rising : tx.savepoints.Pairwise fun p q => p.logLength ≤ q.logLength
  marked : ∀ p ∈ tx.savepoints, p.logLength ≤ tx.statementStart
  started : tx.statementStart ≤ tx.actions.length

/-- What a move does to savepoints and log, and the name of the savepoint that it sets. -/
inductive Restacks (tx tx' : SessionTx) : Option String → Prop where
  | grows {more : List RowAction} (hsavepoints : tx'.savepoints = tx.savepoints)
      (hactions : tx'.actions = tx.actions ++ more)
      (hstart : tx'.statementStart = tx.statementStart) : Restacks tx tx' none
  | starts (hsavepoints : tx'.savepoints = tx.savepoints) (hactions : tx'.actions = tx.actions)
      (hstart : tx'.statementStart = tx.actions.length) : Restacks tx tx' none
  | cuts {k n : Nat} (hsavepoints : tx'.savepoints = tx.savepoints.take k)
      (hactions : tx'.actions = tx.actions.take n)
      (hstart : tx'.statementStart = min tx.statementStart n)
      (hfits : ∀ p ∈ tx'.savepoints, p.logLength ≤ n) : Restacks tx tx' none
  | sets {name : String} (hsavepoints : tx'.savepoints = (tx.setSavepoint name).savepoints)
      (hactions : tx'.actions = tx.actions) (hstart : tx'.statementStart = tx.statementStart) :
      Restacks tx tx' (some name)

/-- What a session does to savepoints and log between the runs of its statements. -/
structure Settles (tx tx' : SessionTx) (set : Option String) : Prop where
  restacks : Restacks tx tx' set
  rested : tx.Rested → tx'.Rested

theorem stack_of_unlatched (h : tx'.unlatched = tx.unlatched) : tx'.stack = tx.stack := by
  have hsame : tx'.unlatched.stack = tx.unlatched.stack := congrArg stack h
  exact hsame

theorem Restacks.of_stack (h : Restacks tx tx' set) (hstack : tx''.stack = tx'.stack) :
    Restacks tx tx'' set := by
  simp only [stack, Prod.mk.injEq] at hstack
  obtain ⟨hps, hlog, hbegan⟩ := hstack
  cases h with
  | grows hsavepoints hactions hstart =>
    exact .grows (hps.trans hsavepoints) (hlog.trans hactions) (hbegan.trans hstart)
  | starts hsavepoints hactions hstart =>
    exact .starts (hps.trans hsavepoints) (hlog.trans hactions) (hbegan.trans hstart)
  | cuts hsavepoints hactions hstart hfits =>
    exact .cuts (hps.trans hsavepoints) (hlog.trans hactions) (hbegan.trans hstart) (hps ▸ hfits)
  | sets hsavepoints hactions hstart =>
    exact .sets (hps.trans hsavepoints) (hlog.trans hactions) (hbegan.trans hstart)

theorem Restacks.after_stack (h : Restacks tx tx' none) (hstack : tx.stack = tx''.stack) :
    Restacks tx'' tx' none := by
  simp only [stack, Prod.mk.injEq] at hstack
  obtain ⟨hps, hlog, hbegan⟩ := hstack
  cases h with
  | grows hsavepoints hactions hstart =>
    exact .grows (hsavepoints.trans hps) (hlog ▸ hactions) (hstart.trans hbegan)
  | starts hsavepoints hactions hstart =>
    exact .starts (hsavepoints.trans hps) (hactions.trans hlog) (hlog ▸ hstart)
  | cuts hsavepoints hactions hstart hfits =>
    exact .cuts (hps ▸ hsavepoints) (hlog ▸ hactions) (hbegan ▸ hstart) hfits

theorem restacks_refl (tx : SessionTx) : Restacks tx tx none :=
  .grows rfl (List.append_nil tx.actions).symm rfl

theorem rested_of_stack (hstack : tx'.stack = tx.stack) (hrest : tx.Rested) : tx'.Rested := by
  simp only [stack, Prod.mk.injEq] at hstack
  unfold Rested
  rw [hstack.2.1, hstack.2.2]
  exact hrest

theorem Settles.of_stack (h : Settles tx tx' set) (hstack : tx''.stack = tx'.stack) :
    Settles tx tx'' set :=
  ⟨h.restacks.of_stack hstack, fun hrest => rested_of_stack hstack (h.rested hrest)⟩

theorem settles_of_stack (hstack : tx'.stack = tx.stack) : Settles tx tx' none :=
  ⟨(restacks_refl tx).of_stack hstack, rested_of_stack hstack⟩

/-- Savepoints and log are cut off, and the statement begins at the end of the log if it did. -/
theorem settles_cuts {k n : Nat} (hsavepoints : tx'.savepoints = tx.savepoints.take k)
    (hactions : tx'.actions = tx.actions.take n)
    (hstart : tx'.statementStart = min tx.statementStart n)
    (hfits : ∀ p ∈ tx'.savepoints, p.logLength ≤ n) : Settles tx tx' none := by
  refine ⟨.cuts hsavepoints hactions hstart hfits, fun hrest => ?_⟩
  unfold Rested at hrest ⊢
  rw [hstart, hactions, hrest, List.length_take, Nat.min_comm]

/-- The session is left without savepoints and log. -/
theorem settles_cleared (hstack : tx'.stack = ([], [], 0)) : Settles tx tx' none := by
  simp only [stack, Prod.mk.injEq] at hstack
  obtain ⟨hsavepoints, hactions, hstart⟩ := hstack
  refine settles_cuts (k := 0) (n := 0) hsavepoints hactions ?_ ?_
  · rw [hstart, Nat.min_zero]
  · rw [hsavepoints]
    exact nofun

theorem eraseP_eq_filter {ps : List Savepoint} (hapart : (ps.map Savepoint.name).Nodup) :
    ps.eraseP (·.name = name) = ps.filter (·.name ≠ name) := by
  induction ps with
  | nil => rfl
  | cons p ps ih =>
    obtain ⟨hout, hrest⟩ := List.nodup_cons.mp hapart
    by_cases hp : p.name = name
    · have hother : ∀ q ∈ ps, q.name ≠ name := by
        rintro q hq rfl
        rw [hp] at hout
        exact hout (List.mem_map_of_mem hq)
      have hkept : ps.filter (·.name ≠ name) = ps :=
        List.filter_eq_self.mpr fun q hq => decide_eq_true (hother q hq)
      rw [List.filter_cons, hkept, List.eraseP_cons]
      simp [hp]
    · rw [List.filter_cons, List.eraseP_cons]
      simpa [hp] using ih hrest

/-- Setting a savepoint removes the older one of the name. -/
theorem savepoints_setSavepoint (hapart : (tx.savepoints.map Savepoint.name).Nodup) (name : String) :
    (tx.setSavepoint name).savepoints = tx.savepoints.filter (·.name ≠ name) ++
      [⟨name, tx.actions.length, tx.actionAt⟩] := by
  rw [← eraseP_eq_filter hapart, List.eraseP_eq_eraseIdx]
  unfold setSavepoint savepointIndex?
  cases tx.savepoints.findIdx? (·.name = name) <;> rfl

theorem Restacks.stacked (h : Restacks tx tx' set) (hs : tx.Stacked)
    (hrest : set ≠ none → tx.Rested) : tx'.Stacked := by
  cases h with
  | grows hsavepoints hactions hstart =>
    refine ⟨hsavepoints ▸ hs.apart, hsavepoints ▸ hs.rising, fun p hp => ?_, ?_⟩
    · rw [hstart]
      exact hs.marked p (hsavepoints ▸ hp)
    · rw [hstart, hactions, List.length_append]
      exact Nat.le_add_right_of_le hs.started
  | starts hsavepoints hactions hstart =>
    refine ⟨hsavepoints ▸ hs.apart, hsavepoints ▸ hs.rising, fun p hp => ?_, ?_⟩
    · rw [hstart]
      exact Nat.le_trans (hs.marked p (hsavepoints ▸ hp)) hs.started
    · rw [hstart, hactions]
  | @cuts k n hsavepoints hactions hstart hfits =>
    have hsub : tx'.savepoints.Sublist tx.savepoints := hsavepoints ▸ List.take_sublist k _
    refine ⟨hs.apart.sublist (hsub.map _), hs.rising.sublist hsub, fun p hp => ?_, ?_⟩
    · rw [hstart]
      exact Nat.le_min.mpr ⟨hs.marked p (hsub.subset hp), hfits p hp⟩
    · rw [hstart, hactions, List.length_take, Nat.min_comm n]
      have hstarted := hs.started
      omega
  | @sets name hsavepoints hactions hstart =>
    have hrested : tx.statementStart = tx.actions.length := hrest nofun
    rw [savepoints_setSavepoint hs.apart] at hsavepoints
    have hsub : (tx.savepoints.filter (·.name ≠ name)).Sublist tx.savepoints := List.filter_sublist
    refine ⟨?_, ?_, fun p hp => ?_, ?_⟩
    · rw [hsavepoints, List.map_append, List.map_singleton, List.nodup_append]
      refine ⟨hs.apart.sublist (hsub.map _), List.nodup_singleton name, fun n hn o ho => ?_⟩
      obtain ⟨p, hp, rfl⟩ := List.mem_map.mp hn
      rw [List.mem_singleton.mp ho]
      simpa using (List.mem_filter.mp hp).2
    · rw [hsavepoints]
      refine List.pairwise_append.mpr ⟨hs.rising.sublist hsub, List.pairwise_singleton .., ?_⟩
      intro p hp q hq
      rw [List.mem_singleton.mp hq]
      exact Nat.le_trans (hs.marked p (hsub.subset hp)) hs.started
    · rw [hsavepoints] at hp
      rw [hstart]
      rcases List.mem_append.mp hp with hold | hnew
      · exact hs.marked p (hsub.subset hold)
      · rw [List.mem_singleton.mp hnew]
        exact Nat.le_of_eq hrested.symm
    · rw [hstart, hactions]
      exact hs.started

/-- A savepoint stands in front of those that are set behind it. -/
theorem Stacked.logLength_le (hs : tx.Stacked) {p q : Savepoint} {i : Nat}
    (hq : tx.savepoints[i]? = some q) (hp : p ∈ tx.savepoints.take (i + 1)) :
    p.logLength ≤ q.logLength := by
  obtain ⟨j, hj⟩ := List.mem_iff_getElem?.mp hp
  rw [List.getElem?_take] at hj
  split at hj
  next hlt =>
    obtain ⟨hilen, rfl⟩ := List.getElem?_eq_some_iff.mp hq
    obtain ⟨hjlen, rfl⟩ := List.getElem?_eq_some_iff.mp hj
    rcases Nat.lt_or_eq_of_le (Nat.le_of_lt_succ hlt) with hbefore | rfl
    · exact List.pairwise_iff_getElem.mp hs.rising j i hjlen hilen hbefore
    · exact Nat.le_refl _
  next => cases hj

theorem Stacked.of_stack (hs : tx.Stacked) (hstack : tx'.stack = tx.stack) : tx'.Stacked :=
  ((restacks_refl tx).of_stack hstack).stacked hs fun hset => absurd rfl hset

theorem stack_truncateActions (hs : tx.statementStart ≤ tx.actions.length) (n : Nat) :
    (tx.truncateActions n).2.stack =
      (tx.savepoints, tx.actions.take n, min tx.statementStart n) := by
  unfold truncateActions
  split
  next hshort =>
    rw [List.take_of_length_le hshort, Nat.min_eq_left (Nat.le_trans hs hshort)]
    rfl
  next => rfl

end SessionTx

namespace Coordinator

variable {c c' : Coordinator} {s : SessionId} {t : TableId} {r : LockRequest} {row : Row}
  {now : Timestamp} {i : Nat}

theorem stack_setTx {tx : SessionTx} (h : tx.stack = (c.tx s).stack) :
    ((c.setTx s tx).tx s).stack = (c.tx s).stack := by
  rw [tx_setTx_self]
  exact h

theorem stack_endStatement : ((c.endStatement s).tx s).stack = (c.tx s).stack := by
  have hclear : ((c.setTx s { c.tx s with request := none }).tx s).stack = (c.tx s).stack :=
    stack_setTx rfl
  unfold endStatement
  dsimp only
  split
  next => exact hclear
  next =>
    split
    next => exact hclear
    next r _ =>
      split
      next => exact hclear
      next =>
        have hdropped : (((c.setTx s { c.tx s with request := none }).dropReads s
            r.reads.toList).tx s).stack = (c.tx s).stack :=
          (SessionTx.stack_of_unlatched unlatched_dropReads).trans hclear
        refine Eq.trans ?_ hdropped
        exact stack_setTx rfl

theorem stack_beginTransaction : ((c.beginTransaction s).tx s).stack = (c.tx s).stack := by
  unfold beginTransaction
  split
  next => rfl
  next => exact stack_setTx rfl

theorem stack_resumeStatement : ((c.resumeStatement s).2.tx s).stack = (c.tx s).stack := by
  unfold resumeStatement
  split
  next => rfl
  next =>
    dsimp only
    split <;> exact stack_setTx rfl

theorem stack_cancelWait : ((c.cancelWait s).tx s).stack = (c.tx s).stack := by
  have hwithdrawn : ((c.withdraw s).tx s).stack = (c.tx s).stack :=
    SessionTx.stack_of_unlatched unlatched_withdraw
  refine Eq.trans ?_ hwithdrawn
  exact stack_setTx rfl

theorem stack_prepare : ((c.prepare s).2.tx s).stack = (c.tx s).stack := by
  unfold prepare
  split
  next => rfl
  next => exact stack_setTx rfl

theorem settles_rollback : (c.tx s).Settles ((c.rollback s).tx s) none := by
  obtain ⟨rows, now, c₁, c₂, -, -, heq⟩ := rollback_undone c s
  apply SessionTx.settles_cleared
  rw [heq, closeTx, tx_updateTx_self]
  rfl

theorem settles_commit : (c.tx s).Settles ((c.commit s).2.tx s) none := by
  have hcommits := c.commit_commits s
  generalize c.commitEvent? s = e, (c.commit s).2 = c' at hcommits
  cases hcommits with
  | refused habort => exact SessionTx.settles_of_stack rfl
  | @failed f journal habort hlog =>
    have hback : (({ c.tick.2 with journal } : Coordinator).tx s).Settles
        ((({ c.tick.2 with journal } : Coordinator).rollback s).tx s) none := settles_rollback
    exact hback
  | done habort hlog =>
    apply SessionTx.settles_cleared
    rw [closeTx, tx_updateTx_self]
    rfl

theorem settles_unregister : (c.tx s).Settles ((c.unregister s).tx s) none := by
  have hleft (c₁ : Coordinator) : (({ c₁.withdraw s with
      registered := (c₁.withdraw s).registered.erase s } : Coordinator).tx s).stack =
        (c₁.tx s).stack := SessionTx.stack_of_unlatched unlatched_withdraw
  unfold unregister
  dsimp only
  split
  next => exact settles_rollback.of_stack (hleft _)
  next => exact SessionTx.settles_of_stack (hleft c)

theorem stack_undoTo (hs : (c.tx s).Stacked) (n : Nat) (now : Timestamp) :
    ((c.undoTo s n now).2.tx s).stack =
      ((c.tx s).savepoints, (c.tx s).actions.take n, min (c.tx s).statementStart n) := by
  rw [tx_undoTo_self]
  exact SessionTx.stack_truncateActions hs.started n

theorem settles_rollbackToIndex (hs : (c.tx s).Stacked) :
    (c.tx s).Settles ((c.rollbackToIndex s i).2.tx s) none := by
  unfold rollbackToIndex
  split
  next => exact SessionTx.settles_of_stack rfl
  next q hq =>
    have hundone : ((c.undoTo s q.logLength q.timestamp).2.tx s).stack = ((c.tx s).savepoints,
        (c.tx s).actions.take q.logLength, min (c.tx s).statementStart q.logLength) :=
      stack_undoTo hs _ _
    simp only [SessionTx.stack, Prod.mk.injEq] at hundone
    obtain ⟨hsavepoints, hactions, hstart⟩ := hundone
    have hcut : ((c.undoTo s q.logLength q.timestamp).2.updateTx s
        (·.truncateSavepoints (i + 1))).tx s =
          ((c.undoTo s q.logLength q.timestamp).2.tx s).truncateSavepoints (i + 1) := tx_updateTx_self
    have htx : (((c.undoTo s q.logLength q.timestamp).2.updateTx s
        (·.truncateSavepoints (i + 1))).releaseRows (c.undoTo s q.logLength q.timestamp).1).tx s =
          ((c.undoTo s q.logLength q.timestamp).2.tx s).truncateSavepoints (i + 1) := hcut
    dsimp only
    rw [htx]
    refine SessionTx.settles_cuts (congrArg (List.take (i + 1)) hsavepoints) hactions hstart ?_
    intro p hp
    rw [SessionTx.truncateSavepoints, hsavepoints] at hp
    exact hs.logLength_le hq hp

theorem settles_rollbackToSavepoint (hs : (c.tx s).Stacked) {name : String} :
    (c.tx s).Settles ((c.rollbackToSavepoint s name).2.tx s) none := by
  unfold rollbackToSavepoint
  split
  next => exact SessionTx.settles_of_stack rfl
  next => exact settles_rollbackToIndex hs

/-- The work of a statement is taken back to where it began, which is behind all savepoints. -/
theorem restacks_rollbackStatement (hs : (c.tx s).Stacked) :
    (c.tx s).Restacks ((c.rollbackStatement s).tx s) none ∧
      ((c.rollbackStatement s).tx s).Rested := by
  have hundone : ((c.rollbackStatement s).tx s).stack = ((c.tx s).savepoints,
      (c.tx s).actions.take (c.tx s).statementStart,
      min (c.tx s).statementStart (c.tx s).statementStart) :=
    stack_endStatement.trans (stack_undoTo hs _ (c.tx s).actionAt)
  simp only [SessionTx.stack, Prod.mk.injEq] at hundone
  obtain ⟨hsavepoints, hactions, hstart⟩ := hundone
  refine ⟨.cuts (k := (c.tx s).savepoints.length) ?_ hactions hstart fun p hp => ?_, ?_⟩
  · rw [hsavepoints, List.take_length]
  · exact hs.marked p (hsavepoints ▸ hp)
  · rw [SessionTx.Rested, hstart, hactions, List.length_take, Nat.min_self,
      Nat.min_eq_left hs.started]

theorem restacks_completeStatement : (c.tx s).Restacks ((c.completeStatement s).tx s) none ∧
    ((c.completeStatement s).tx s).Rested := by
  have hstarts : (c.tx s).Restacks { c.tx s with statementStart := (c.tx s).actions.length } none :=
    .starts rfl rfl rfl
  have hbegun : (c.updateTx s fun tx => { tx with statementStart := tx.actions.length }).tx s =
      { c.tx s with statementStart := (c.tx s).actions.length } := tx_updateTx_self
  have hended : ((c.completeStatement s).tx s).stack =
      { c.tx s with statementStart := (c.tx s).actions.length }.stack :=
    stack_endStatement.trans (congrArg SessionTx.stack hbegun)
  exact ⟨hstarts.of_stack hended, SessionTx.rested_of_stack hended rfl⟩

theorem restacks_recordInsert :
    (c.tx s).Restacks ((c.recordInsert s t row).2.tx s) none := by
  unfold recordInsert
  split
  next => exact SessionTx.restacks_refl _
  next =>
    rw [tx_updateTx_self]
    exact .grows rfl rfl rfl

theorem restacks_recordDelete :
    (c.tx s).Restacks ((c.recordDelete s t row).2.tx s) none := by
  unfold recordDelete
  split
  next => exact SessionTx.restacks_refl _
  next =>
    split
    next => exact SessionTx.restacks_refl _
    next =>
      rw [tx_updateTx_self]
      exact .grows rfl rfl rfl

theorem restacks_insertInto {values : List Value} :
    (c.tx s).Restacks ((c.insertInto s r t values).2.tx s) none := by
  have heq : (c.insertInto s r t values).2 = c ∨
      (c.insertInto s r t values).2 = (c.insertRow s t t values).2 := insertInto_eq
  rcases heq with heq | heq
  · rw [heq]
    exact SessionTx.restacks_refl _
  · rw [heq]
    unfold insertRow
    generalize c.storage.newRow t values = allotted
    obtain ⟨f | row, storage⟩ := allotted
    · exact SessionTx.restacks_refl _
    · have hrecord : (c.tx s).Restacks (({ c with storage }.recordInsert s t row).2.tx s) none :=
        restacks_recordInsert (c := { c with storage })
      dsimp only
      generalize { c with storage }.recordInsert s t row = recorded at hrecord
      obtain ⟨answer, c₁⟩ := recorded
      cases answer <;> exact hrecord

theorem restacks_deleteAt {position : RowPosition} :
    (c.tx s).Restacks ((c.deleteAt s r t position).2.tx s) none := by
  have heq : (c.deleteAt s r t position).2 = c ∨
      ∃ row, (c.deleteAt s r t position).2 = (c.recordDelete s t row).2 := deleteAt_eq
  rcases heq with heq | ⟨row, heq⟩
  · rw [heq]
    exact SessionTx.restacks_refl _
  · rw [heq]
    exact restacks_recordDelete

end Coordinator

namespace Session

variable {c : Coordinator} {s : SessionId} {x : Session} {k : SessionCall}

/-- Whoever is in a run of a statement neither waits nor is idle, and has a transaction open. -/
theorem Stands.of_inside (h : x.Stands s c) (hin : x.phase = .inside) :
    x.isIdle = false ∧ x.isWaiting = false ∧ (c.tx s).isOpen = true := by
  unfold Stands at h
  unfold isIdle isWaiting
  cases hactivity : x.activity with
  | running body =>
    simp only [hactivity] at h
    exact ⟨rfl, rfl, h.isOpen⟩
  | deleting t rows count next =>
    simp only [hactivity] at h
    exact ⟨rfl, rfl, h.1.isOpen⟩
  | failing error =>
    simp only [hactivity] at h
    exact ⟨rfl, rfl, h.2⟩
  | finishing result =>
    simp only [hactivity] at h
    exact ⟨rfl, rfl, h.2⟩
  | _ => simp [phase, hactivity] at hin

theorem restacks_runBody (body : StatementBody) :
    (c.tx s).Restacks ((x.runBody s c body).2.tx s) none := by
  cases body with
  | requestRedo next => exact (SessionTx.restacks_refl _).of_stack (stack_setTx rfl)
  | raiseAbort next => exact (SessionTx.restacks_refl _).of_stack (stack_setTx rfl)
  | insert t values next => exact restacks_insertInto
  | delete t position next => exact restacks_deleteAt
  | deleteWhere t test next =>
    dsimp only [runBody]
    split <;> exact SessionTx.restacks_refl _
  | _ => exact SessionTx.restacks_refl _

/-- A step of a session sets no savepoint, and outside of the runs of its statement the session has
done no action since it began the statement. -/
theorem restacks_step (hs : (c.tx s).Stacked) (hrest : x.phase ≠ .inside → (c.tx s).Rested) :
    (c.tx s).Restacks ((x.step s c).2.tx s) none ∧
      ((x.step s c).1.phase ≠ .inside → ((x.step s c).2.tx s).Rested) := by
  have hsettles {x' : Session} {c' : Coordinator} (h : (c.tx s).Settles (c'.tx s) none)
      (hx : x.phase ≠ .inside) : (c.tx s).Restacks (c'.tx s) none ∧
        (x'.phase ≠ .inside → (c'.tx s).Rested) := ⟨h.restacks, fun _ => h.rested (hrest hx)⟩
  have hworks {x' : Session} {c' : Coordinator} (h : (c.tx s).Restacks (c'.tx s) none)
      (hx : x'.phase = .inside) : (c.tx s).Restacks (c'.tx s) none ∧
        (x'.phase ≠ .inside → (c'.tx s).Rested) := ⟨h, fun hout => absurd hx hout⟩
  have hstays {x' : Session} (hx : x.phase ≠ .inside) : (c.tx s).Restacks (c.tx s) none ∧
      (x'.phase ≠ .inside → (c.tx s).Rested) := hsettles (SessionTx.settles_of_stack rfl) hx
  unfold step
  cases hactivity : x.activity with
  | idle => exact hstays (by simp [phase, hactivity])
  | entering =>
    have hx : x.phase ≠ .inside := by simp [phase, hactivity]
    dsimp only
    split <;> exact hstays hx
  | acquiring =>
    have hx : x.phase ≠ .inside := by simp [phase, hactivity]
    obtain ⟨signals, granted, htx⟩ := (c.beginStatement_begins s x.statement.request).tx_eq
    have hbegun : (c.tx s).Settles ((c.beginStatement s x.statement.request).2.tx s) none := by
      rw [htx]
      exact ⟨.starts rfl rfl rfl, fun _ => rfl⟩
    generalize c.beginStatement s x.statement.request = begun at hbegun
    obtain ⟨f | (_ | _), c₁⟩ := begun
    case error => cases f <;> exact hsettles hbegun hx
    all_goals exact hsettles hbegun hx
  | waiting =>
    have hx : x.phase ≠ .inside := by simp [phase, hactivity]
    dsimp only
    split <;> exact hstays hx
  | timedOut =>
    exact hsettles (SessionTx.settles_of_stack stack_cancelWait) (by simp [phase, hactivity])
  | resuming =>
    have hx : x.phase ≠ .inside := by simp [phase, hactivity]
    have hresumed : (c.tx s).Settles ((c.resumeStatement s).2.tx s) none :=
      SessionTx.settles_of_stack stack_resumeStatement
    dsimp only
    split
    next => exact hstays hx
    next =>
      generalize c.resumeStatement s = resumed at hresumed
      obtain ⟨answer, c₁⟩ := resumed
      cases answer <;> exact hsettles hresumed hx
  | running body => exact hworks (restacks_runBody body) (runBody_phase body).1
  | deleting t rows count next =>
    cases rows with
    | nil => exact hworks (SessionTx.restacks_refl _) rfl
    | cons row rows =>
      have hdeleted : (c.tx s).Restacks ((c.recordDelete s t row).2.tx s) none :=
        restacks_recordDelete
      dsimp only
      generalize c.recordDelete s t row = deleted at hdeleted
      obtain ⟨answer, c₁⟩ := deleted
      cases answer <;> exact hworks hdeleted rfl
  | failing error =>
    obtain ⟨hcut, hrested⟩ := restacks_rollbackStatement hs
    exact ⟨hcut, fun _ => hrested⟩
  | failed error =>
    have hx : x.phase ≠ .inside := by simp [phase, hactivity]
    dsimp only
    split
    next => exact hstays hx
    next => split <;> exact hstays hx
  | finishing result =>
    have htaken : ((c.signal s fun _ => (c.tx s).signals.takeRedo.2).tx s).stack = (c.tx s).stack :=
      stack_setTx rfl
    dsimp only
    split
    next =>
      obtain ⟨hcut, hrested⟩ := restacks_rollbackStatement (hs.of_stack htaken)
      exact ⟨hcut.after_stack htaken, fun _ => hrested⟩
    next =>
      obtain ⟨hkept, hrested⟩ := restacks_completeStatement (s := s)
        (c := c.signal s fun _ => (c.tx s).signals.takeRedo.2)
      exact ⟨hkept.after_stack htaken, fun _ => hrested⟩
  | finished result =>
    have hx : x.phase ≠ .inside := by simp [phase, hactivity]
    dsimp only
    split
    next => exact hstays hx
    next => split <;> exact hstays hx
  | committing autocommit answer =>
    have hcommitted : (c.tx s).Settles ((c.commit s).2.tx s) none := settles_commit
    dsimp only
    generalize c.commit s = committed at hcommitted
    obtain ⟨f | (_ | _), c₁⟩ := committed <;> exact hsettles hcommitted (by simp [phase, hactivity])
  | rollingBack reply => exact hsettles settles_rollback (by simp [phase, hactivity])

/-- Between its runs a session works on its savepoints by its calls. -/
theorem settles_callOpen (hs : (c.tx s).Stacked) (k : SessionCall) :
    (c.tx s).Settles ((x.callOpen s c k).2.tx s) k.marks? := by
  have hstays : (c.tx s).Settles (c.tx s) none := SessionTx.settles_of_stack rfl
  have hset {tx : SessionTx} (hstack : tx.stack = (c.tx s).stack) :
      (c.tx s).Settles ((c.setTx s tx).tx s) none :=
    SessionTx.settles_of_stack (stack_setTx hstack)
  cases k with
  | begin => exact SessionTx.settles_of_stack stack_beginTransaction
  | prepare =>
    have hprepared : (c.tx s).Settles ((c.prepare s).2.tx s) none :=
      SessionTx.settles_of_stack stack_prepare
    dsimp only [callOpen]
    generalize c.prepare s = prepared at hprepared
    obtain ⟨_ | _, c₁⟩ := prepared <;> exact hprepared
  | rollback =>
    dsimp only [callOpen]
    split <;> exact hstays
  | savepoint name =>
    have htx : (c.updateTx s (·.setSavepoint name)).tx s = (c.tx s).setSavepoint name :=
      tx_updateTx_self
    have hmarked : (c.tx s).Settles ((c.updateTx s (·.setSavepoint name)).tx s) (some name) := by
      rw [htx]
      exact ⟨.sets rfl rfl rfl, id⟩
    exact hmarked
  | rollbackTo name =>
    have hundone : (c.tx s).Settles ((c.rollbackToSavepoint s name).2.tx s) none :=
      settles_rollbackToSavepoint hs
    dsimp only [callOpen]
    generalize c.rollbackToSavepoint s name = undone at hundone
    obtain ⟨answer, c₁⟩ := undone
    cases answer <;> exact hundone
  | rollbackToFirst =>
    have hundone : (c.tx s).Settles ((c.rollbackToIndex s 0).2.tx s) none :=
      settles_rollbackToIndex hs
    dsimp only [callOpen]
    generalize c.rollbackToIndex s 0 = undone at hundone
    obtain ⟨answer, c₁⟩ := undone
    cases answer <;> exact hundone
  | release name =>
    dsimp only [callOpen]
    split
    next => exact hstays
    next i _ =>
      have htx : (c.updateTx s (·.truncateSavepoints i)).tx s = (c.tx s).truncateSavepoints i :=
        tx_updateTx_self
      refine SessionTx.settles_cuts (k := i) (n := (c.tx s).actions.length) ?_ ?_ ?_ fun p hp => ?_
      · rw [htx]
        rfl
      · rw [htx, List.take_length]
        rfl
      · rw [htx, Nat.min_eq_left hs.started]
        rfl
      · rw [htx] at hp
        exact Nat.le_trans (hs.marked p (List.mem_of_mem_take hp)) hs.started
  | setAutocommit on =>
    dsimp only [callOpen]
    split <;> exact hstays
  | setIsolation level =>
    dsimp only [callOpen, SessionTx.setIsolation]
    split
    next => exact hstays
    next => exact hset rfl
  | setReadOnly on =>
    dsimp only [callOpen, SessionTx.setReadOnly]
    split
    next => exact hstays
    next => exact hset rfl
  | setIsolationDefault level => exact hset rfl
  | setReadOnlyDefault on => exact hset rfl
  | execute statement =>
    dsimp only [callOpen]
    split <;> exact hstays
  | close =>
    dsimp only [callOpen, close]
    split
    next => exact hstays
    next => exact settles_unregister
  | _ => exact hstays

theorem settles_call (hs : (c.tx s).Stacked) (k : SessionCall) :
    (c.tx s).Settles ((x.call s c k).2.tx s) (if x.closed then none else k.marks?) := by
  by_cases hgone : x.closed = true
  · obtain ⟨timeout, reply, hcall⟩ := call_of_closed (s := s) (c := c) hgone k
    rw [hcall, if_pos hgone]
    exact SessionTx.settles_of_stack rfl
  · rw [call_of_open (Bool.eq_false_iff.mpr hgone), if_neg hgone]
    exact settles_callOpen hs k

end Session

end LockingDb
