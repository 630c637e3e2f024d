import LockingDb.Proofs.NoMissedGrant
import LockingDb.Proofs.RowOwners
import LockingDb.Proofs.RowsInHand
import Mathlib.Data.List.Infix

namespace LockingDb

/-- The call ends the transaction of its session or takes a part of it back. -/
def CoordinatorCall.cuts : CoordinatorCall → Bool
  | .unregister _ | .rollbackStatement _ | .commit _ | .rollback _ | .rollbackToIndex _ _
  | .rollbackToSavepoint _ _ => true
  | _ => false

namespace RowStep

/-- The step puts no row where it does not belong, and no store that fails. -/
def KeepsPlaces : RowStep → Prop
  | .call (.outside storage _) => storage.InPlace
  | _ => True

/-- The transaction of the session goes on with all that it has done. -/
def goesOn (s : SessionId) : RowStep → Bool
  | .allocate _ _ => true
  | .call k => k.caller? ≠ some s || !k.cuts

end RowStep

namespace Coordinator

open RowAction

variable {c c' : Coordinator} {s y : SessionId} {t u : TableId} {row : Row} {now : Timestamp}
  {step : RowStep} {between after : List RowStep} {k : CoordinatorCall} {inHand : List Row}

/-- The rows are where they belong, and the actions of all logs wait for their end. -/
structure Tidy (c : Coordinator) : Prop where
  inPlace : c.storage.InPlace
  pending : ∀ s, ∀ a ∈ (c.tx s).actions, a.type.isPending = true

theorem tidy_started {clock : Clock} {storage : Storage} {journal : Journal}
    (hstorage : storage.InPlace) : (started clock storage journal).Tidy :=
  ⟨hstorage, nofun⟩

theorem Tidy.of_cuts (h : c.Tidy) (hcuts : Cuts s c c') (hstorage : c'.storage.InPlace) : c'.Tidy := by
  refine ⟨hstorage, fun y a ha => ?_⟩
  by_cases hy : y = s
  · subst hy
    exact h.pending y a (hcuts.kept.subset ha)
  · have hsame : (c'.tx y).actions = (c.tx y).actions := congrArg Prod.fst (hcuts.others y hy)
    rw [hsame] at ha
    exact h.pending y a ha

theorem Tidy.of_quiet (h : c.Tidy) (hcuts : Cuts s c c') (hquiet : Quiet s c c') : c'.Tidy :=
  h.of_cuts hcuts (hquiet.storage ▸ h.inPlace)

theorem Tidy.inPlace_rollback (h : c.Tidy) : (c.rollback s inHand).storage.InPlace := by
  obtain ⟨now, hstorage⟩ := storage_rollback c s inHand
  exact hstorage ▸ h.inPlace.undoAll

theorem Tidy.rollback (h : c.Tidy) : (c.rollback s).Tidy := h.of_cuts cuts_rollback h.inPlace_rollback

/-- A rollback makes of a place where nobody has a row in hand what the log says. -/
theorem Tidy.spot_rollback (h : c.Tidy) {p : RowPosition}
    (hfree : ¬InHandAt (c.tx s).actions inHand t p) :
    (c.rollback s inHand).storage.spot t p = rewind (c.tx s).actions t p (c.storage.spot t p) := by
  obtain ⟨now, hstorage⟩ := storage_rollback c s inHand
  rw [hstorage]
  exact h.inPlace.spot_undoAll_of_free hfree

/-- The tables exist that the actions were done on whose rows somebody has in hand. -/
def TablesInHand (c : Coordinator) (s : SessionId) (inHand : List Row) : Prop :=
  ∀ a ∈ (c.tx s).actions, a.InHand inHand → (c.storage.tables.get? a.store).isSome = true

theorem tablesInHand_nil : c.TablesInHand s [] := fun _ _ hheld => absurd hheld not_inHand_nil

/-- A rollback brings a row back that somebody has in hand, if it was inserted after it was deleted
only. -/
theorem Tidy.rollback_reinserted (h : c.Tidy) {a : RowAction} {before later : List RowAction}
    (hlog : (c.tx s).actions = before ++ a :: later) (hdeletes : a.Deletes t row.position)
    (hon : a.isOn row = true) (hbefore : ¬Inserted before t row.position)
    (hafter : Inserted later t row.position) (hnamed : row.table = t)
    (htables : c.TablesInHand s inHand) (hheld : row ∈ inHand)
    (honly : OnlyInHandAt (c.tx s).actions inHand t row.position row) :
    row ∈ (c.rollback s inHand).storage.scan t := by
  have hin : a ∈ (c.tx s).actions := hlog ▸ List.mem_append_right before List.mem_cons_self
  have htable : (c.storage.tables.get? t).isSome = true :=
    hdeletes.1 ▸ htables a hin ⟨row, hheld, hon⟩
  obtain ⟨now, hstorage⟩ := storage_rollback c s inHand
  have hspot : (undoAll now (c.tx s).actions.reverse c.storage inHand).spot t row.position =
      rewindWith inHand (c.tx s).actions.reverse.reverse t row.position
        (c.storage.spot t row.position) := by
    refine h.inPlace.spot_undoAll now _ fun b hb hat other hother hon => ?_
    rw [honly b (List.mem_reverse.mp hb) hat other hother hon]
    exact ⟨hnamed, htable⟩
  rw [List.reverse_reverse, ← hstorage] at hspot
  rw [h.inPlace_rollback.shown_iff, hspot]
  rw [hlog] at honly ⊢
  exact rewindWith_reinserted honly hdeletes hon hheld hbefore hafter

/-- A transaction commits if and only if it was not told to give up and the log takes it. What it has
deleted is gone then, and all else is as it was. -/
theorem Tidy.finalized_commit (h : c.Tidy) (htables : c.TablesInHand s inHand) :
    ((c.commit s inHand).1 = .ok true ↔ c.abortRequested s = false ∧
      (persist s c.tick.1 (c.tx s).actions c.storage c.journal inHand).1 = .ok ()) ∧
    ((c.commit s inHand).1 = .ok true →
      Storage.Finalized (c.tx s).actions c.storage (c.commit s inHand).2.storage) := by
  unfold Coordinator.commit
  by_cases habort : c.abortRequested s = true
  · rw [if_pos habort, habort]
    exact ⟨iff_of_false nofun fun hnot => (by cases hnot.1), nofun⟩
  · rw [if_neg habort, Bool.eq_false_iff.mpr habort]
    have htx : c.tick.2.tx s = c.tx s := rfl
    have hfinal : (finalizeAll c.tick.1 (c.tx s).actions c.tick.2.storage inHand).1 = none ∧
        Storage.Finalized (c.tx s).actions c.storage
          (finalizeAll c.tick.1 (c.tx s).actions c.storage inHand).2 :=
      h.inPlace.finalizeAll (h.pending s) htables
    obtain ⟨answer, journal, hlog⟩ : ∃ answer journal,
        persist s c.tick.1 (c.tx s).actions c.storage c.journal inHand = (answer, journal) :=
      ⟨_, _, rfl⟩
    have hlogged : persist s c.tick.1 (c.tick.2.tx s).actions c.tick.2.storage c.tick.2.journal
        inHand = (answer, journal) := hlog
    dsimp only
    rw [hlogged, hlog, htx]
    cases answer with
    | error f => exact ⟨iff_of_false nofun fun hnot => (by cases hnot.2), nofun⟩
    | ok _ =>
      dsimp only
      rw [hfinal.1]
      refine ⟨iff_of_true rfl ⟨rfl, rfl⟩, fun _ => ?_⟩
      rw [storage_closed]
      exact hfinal.2

theorem Tidy.commit (h : c.Tidy) : (c.commit s).2.Tidy := by
  refine h.of_cuts cuts_commit ?_
  have hcommits := c.commit_commits s
  generalize c.commitEvent? s = e, (c.commit s).2 = c' at hcommits
  cases hcommits with
  | refused habort => exact h.inPlace
  | @failed f journal habort hlog =>
    have hlogged : { c.tick.2 with journal }.Tidy := ⟨h.inPlace, h.pending⟩
    exact hlogged.rollback.inPlace
  | @done journal habort hlog =>
    rw [storage_closed]
    exact (h.inPlace.finalizeAll (h.pending s) tablesInHand_nil).2.inPlace

/-- A pending action is added to the log of a session. -/
theorem Tidy.record (h : c.Tidy) {storage : Storage} (hstorage : storage.InPlace)
    {owners : RowOwnership} (a : SessionTx → RowAction) (ha : ∀ tx, (a tx).type.isPending = true) :
    Tidy ({ c.withCalls s storage with owners }.updateTx s fun tx => tx.pushAction (a tx)) := by
  refine ⟨hstorage, fun y b hb => ?_⟩
  by_cases hy : y = s
  · subst hy
    rw [tx_updateTx_self] at hb
    rcases List.mem_append.mp hb with hold | hnew
    · exact h.pending y b hold
    · rw [List.mem_singleton.mp hnew]
      exact ha _
  · rw [updateTx, tx_setTx_of_ne hy] at hb
    exact h.pending y b hb

theorem Tidy.recordInsert (h : c.Tidy) : (c.recordInsert s t row).2.Tidy := by
  have hcall : (c.storage.call t (.index row)).2.InPlace := h.inPlace.call
  unfold Coordinator.recordInsert
  generalize c.storage.call t (.index row) = called at hcall
  obtain ⟨answer, storage⟩ := called
  cases answer with
  | error f => exact ⟨hcall, h.pending⟩
  | ok _ => exact h.record hcall (fun tx => .insert s tx.actionAt t row) fun _ => rfl

theorem Tidy.recordDelete (h : c.Tidy) : (c.recordDelete s t row).2.Tidy := by
  have hcall : (c.storage.call t (.delete row)).2.InPlace := h.inPlace.call
  unfold Coordinator.recordDelete
  split
  next => exact h
  next =>
    generalize c.storage.call t (.delete row) = called at hcall
    obtain ⟨answer, storage⟩ := called
    cases answer with
    | error f => exact ⟨hcall, h.pending⟩
    | ok _ =>
      refine h.record hcall (fun tx => .delete s tx.actionAt t row (tx.insertedHere row.id))
        fun tx => ?_
      cases hinserted : tx.insertedHere row.id with
      | false => rfl
      | true => rfl

theorem Tidy.register (h : c.Tidy) {level : IsolationLevel} : (c.register level).2.Tidy := by
  refine ⟨h.inPlace, fun y a ha => ?_⟩
  by_cases hy : y = c.nextSession
  · have hfresh : (c.register level).2.tx y = .fresh c.nextSession level := by
      rw [hy]
      exact tx_setTx_self
    rw [hfresh] at ha
    cases ha
  · have hsame : (c.register level).2.tx y = c.tx y := tx_setTx_of_ne hy
    rw [hsame] at ha
    exact h.pending y a ha

theorem Tidy.change (h : c.Tidy) (k : StateChange) : (c.updateTx s k.apply).Tidy := by
  refine ⟨h.inPlace, fun y a ha => ?_⟩
  by_cases hy : y = s
  · subst hy
    have hsame : (k.apply (c.tx y)).actions = (c.tx y).actions :=
      congrArg Prod.fst (k.apply_log (c.tx y))
    rw [tx_updateTx_self, hsame] at ha
    exact h.pending y a ha
  · rw [updateTx, tx_setTx_of_ne hy] at ha
    exact h.pending y a ha

theorem Tidy.unregister (h : c.Tidy) : (c.unregister s).Tidy := by
  have hwithdrawn (c₁ : Coordinator) : (c₁.withdraw s).storage = c₁.storage :=
    congrArg Prod.fst withdraw_data
  refine h.of_cuts cuts_unregister ?_
  unfold Coordinator.unregister
  dsimp only
  rw [hwithdrawn]
  split
  next => exact h.rollback.inPlace
  next => exact h.inPlace

theorem Tidy.rollbackStatement (h : c.Tidy) : (c.rollbackStatement s).Tidy := by
  refine h.of_cuts cuts_rollbackStatement ?_
  have hrest := quiet_rest_of_rollbackStatement (c := c) (s := s)
  rw [hrest.storage]
  exact h.inPlace.undoAll

theorem Tidy.rollbackToIndex (h : c.Tidy) {i : Nat} : (c.rollbackToIndex s i).2.Tidy := by
  refine h.of_cuts cuts_rollbackToIndex ?_
  unfold Coordinator.rollbackToIndex
  split
  next => exact h.inPlace
  next => exact h.inPlace.undoAll

theorem Tidy.rollbackToSavepoint (h : c.Tidy) {name : String} :
    (c.rollbackToSavepoint s name).2.Tidy := by
  unfold Coordinator.rollbackToSavepoint
  split
  next => exact h
  next => exact h.rollbackToIndex

theorem Tidy.takeStep (h : c.Tidy) (hstep : step.KeepsPlaces) : (c.takeStep step).Tidy := by
  cases step with
  | allocate t values => exact ⟨h.inPlace.newRow, h.pending⟩
  | call k =>
    cases k with
    | register level => exact h.register
    | unregister s => exact h.unregister
    | beginTransaction s => exact h.of_quiet cuts_beginTransaction quiet_beginTransaction
    | beginStatement s r => exact h.of_quiet cuts_beginStatement (beginStatement_begins c s r).quiet
    | resumeStatement s => exact h.of_quiet cuts_resumeStatement quiet_resumeStatement
    | cancelWait s => exact h.of_quiet cuts_cancelWait quiet_cancelWait
    | completeStatement s => exact h.of_quiet cuts_completeStatement quiet_completeStatement
    | rollbackStatement s => exact h.rollbackStatement
    | prepare s => exact h.of_quiet cuts_prepare quiet_prepare
    | commit s => exact h.commit
    | rollback s => exact h.rollback
    | rollbackToIndex s i => exact h.rollbackToIndex
    | rollbackToSavepoint s name => exact h.rollbackToSavepoint
    | recordInsert s store row => exact h.recordInsert
    | recordDelete s store row => exact h.recordDelete
    | change s k => exact h.change k
    | outside storage journal => exact ⟨hstep, h.pending⟩

theorem Tidy.takeSteps (h : c.Tidy) {steps : List RowStep}
    (hsteps : ∀ step ∈ steps, step.KeepsPlaces) : (c.takeSteps steps).Tidy := by
  induction steps generalizing c with
  | nil => exact h
  | cons step rest ih =>
    have hfirst := h.takeStep (hsteps step List.mem_cons_self)
    exact ih hfirst fun step hstep => hsteps step (List.mem_cons_of_mem _ hstep)

theorem actions_recordInsert : ((c.recordInsert s t row).2.tx s).actions = (c.tx s).actions ++
    if (c.recordInsert s t row).1.isOk then [.insert s (c.tx s).actionAt t row] else [] := by
  unfold Coordinator.recordInsert
  generalize c.storage.call t (.index row) = called
  obtain ⟨answer, storage⟩ := called
  cases answer with
  | error f => exact (List.append_nil _).symm
  | ok _ =>
    dsimp only
    rw [tx_updateTx_self]
    rfl

theorem actions_recordDelete : ((c.recordDelete s t row).2.tx s).actions = (c.tx s).actions ++
    if (c.recordDelete s t row).1.isOk then
      [.delete s (c.tx s).actionAt t row ((c.tx s).insertedHere row.id)] else [] := by
  unfold Coordinator.recordDelete
  split
  next => exact (List.append_nil _).symm
  next =>
    generalize c.storage.call t (.delete row) = called
    obtain ⟨answer, storage⟩ := called
    cases answer with
    | error f => exact (List.append_nil _).symm
    | ok _ =>
      dsimp only
      rw [tx_updateTx_self]
      rfl

theorem logged_of_recordInsert (hok : (c.recordInsert s t row).1 = .ok ()) :
    ∃ a, ((c.recordInsert s t row).2.tx s).actions = (c.tx s).actions ++ [a] ∧
      a.Inserts t row.position := by
  rw [actions_recordInsert, hok]
  exact ⟨_, rfl, rfl, rfl, rfl⟩

theorem logged_of_recordDelete (hok : (c.recordDelete s t row).1 = .ok ()) :
    ∃ a, ((c.recordDelete s t row).2.tx s).actions = (c.tx s).actions ++ [a] ∧
      a.Deletes t row.position ∧ a.isOn row = true := by
  rw [actions_recordDelete, hok]
  exact ⟨_, rfl, deletes_delete, isOn_delete⟩

theorem prefix_own (hcaller : k.caller? = some s) (hcuts : k.cuts = false) :
    (c.tx s).actions <+: ((c.perform k).tx s).actions := by
  have hquiet {c' : Coordinator} (h : Quiet s c c') : (c.tx s).actions <+: (c'.tx s).actions := by
    have hactions : (c'.tx s).actions = (c.tx s).actions := congrArg Prod.fst (log_of_work h.work)
    rw [hactions]
  cases k with
  | register level => cases hcaller
  | change y k => cases hcaller
  | outside storage journal => cases hcaller
  | unregister y => cases hcuts
  | rollbackStatement y => cases hcuts
  | commit y => cases hcuts
  | rollback y => cases hcuts
  | rollbackToIndex y i => cases hcuts
  | rollbackToSavepoint y name => cases hcuts
  | beginTransaction y => cases hcaller; exact hquiet quiet_beginTransaction
  | beginStatement y r => cases hcaller; exact hquiet (beginStatement_begins c s r).quiet
  | resumeStatement y => cases hcaller; exact hquiet quiet_resumeStatement
  | cancelWait y => cases hcaller; exact hquiet quiet_cancelWait
  | completeStatement y => cases hcaller; exact hquiet quiet_completeStatement
  | prepare y => cases hcaller; exact hquiet quiet_prepare
  | recordInsert y store row =>
    cases hcaller
    rw [perform, actions_recordInsert]
    exact List.prefix_append _ _
  | recordDelete y store row =>
    cases hcaller
    rw [perform, actions_recordDelete]
    exact List.prefix_append _ _

/-- While a transaction goes on, its log only grows. -/
theorem prefix_takeStep (hs : s < c.nextSession) (hstep : step.goesOn s = true) :
    (c.tx s).actions <+: ((c.takeStep step).tx s).actions ∧ s < (c.takeStep step).nextSession := by
  have hsame {c' : Coordinator} (hlog : (c'.tx s).log.2 = (c.tx s).log.2)
      (hnext : s < c'.nextSession) :
      (c.tx s).actions <+: (c'.tx s).actions ∧ s < c'.nextSession := by
    have hactions : (c'.tx s).actions = (c.tx s).actions := congrArg Prod.fst hlog
    rw [hactions]
    exact ⟨List.prefix_refl _, hnext⟩
  cases step with
  | allocate t values => exact hsame rfl hs
  | call k =>
    cases hcaller : k.caller? with
    | some y =>
      by_cases hy : y = s
      · subst hy
        have hcuts : k.cuts = false := by simpa [RowStep.goesOn, hcaller] using hstep
        have hspares : Spares (y + 1) c (c.perform k) := spares_call hcaller (Nat.succ_ne_self y)
        exact ⟨prefix_own hcaller hcuts, Nat.lt_of_lt_of_eq hs hspares.nextSession.symm⟩
      · have hspares : Spares s c (c.perform k) := spares_call hcaller (Ne.symm hy)
        exact hsame hspares.log (Nat.lt_of_lt_of_eq hs hspares.nextSession.symm)
    | none =>
      cases k with
      | register level =>
        refine hsame ?_ (Nat.lt_succ_of_lt hs)
        show ((c.setTx c.nextSession _).tx s).log.2 = _
        rw [tx_setTx_of_ne (Nat.ne_of_lt hs)]
      | change y k =>
        refine hsame ?_ hs
        show ((c.setTx y _).tx s).log.2 = _
        rw [tx_setTx]
        split
        next hy =>
          rw [hy]
          exact k.apply_log (c.tx y)
        next => rfl
      | outside storage journal => exact hsame rfl hs
      | _ => cases hcaller

theorem prefix_takeSteps {steps : List RowStep} (hs : s < c.nextSession)
    (hsteps : ∀ step ∈ steps, step.goesOn s = true) :
    (c.tx s).actions <+: ((c.takeSteps steps).tx s).actions ∧
      s < (c.takeSteps steps).nextSession := by
  induction steps generalizing c with
  | nil => exact ⟨List.prefix_refl _, hs⟩
  | cons step rest ih =>
    obtain ⟨hfirst, hnext⟩ := prefix_takeStep hs (hsteps step List.mem_cons_self)
    obtain ⟨hrest, hlast⟩ := ih hnext fun step hstep => hsteps step (List.mem_cons_of_mem _ hstep)
    exact ⟨hfirst.trans hrest, hlast⟩

theorem takeSteps_append {steps rest : List RowStep} :
    c.takeSteps (steps ++ rest) = (c.takeSteps steps).takeSteps rest := List.foldl_append ..

/-- What a transaction does that deletes a row and inserts it again later, both without an error,
and that goes on in between and afterwards. -/
structure Reinserts (c : Coordinator) (s : SessionId) (t : TableId) (row : Row)
    (between after : List RowStep) : Prop where
  registered : s < c.nextSession
  goesOn : ∀ step ∈ between ++ after, step.goesOn s = true
  deleted : (c.recordDelete s t row).1 = .ok ()
  inserted : (((c.recordDelete s t row).2.takeSteps between).recordInsert s t row).1 = .ok ()

/-- The steps of a transaction that deletes a row and inserts it again. -/
def reinsertion (s : SessionId) (t : TableId) (row : Row) (between after : List RowStep) :
    List RowStep :=
  .call (.recordDelete s t row) :: between ++ .call (.recordInsert s t row) :: after

/-- The log goes on with the delete in the end, and the insert comes later. -/
theorem Reinserts.logged (h : c.Reinserts s t row between after) :
    ∃ a later, ((c.takeSteps (reinsertion s t row between after)).tx s).actions =
      (c.tx s).actions ++ a :: later ∧
      a.Deletes t row.position ∧ a.isOn row = true ∧ Inserted later t row.position := by
  have hstep (k : CoordinatorCall) (hcuts : k.cuts = false) :
      (RowStep.call k).goesOn s = true := by
    simp [RowStep.goesOn, hcuts]
  have hbetween : ∀ step ∈ between, step.goesOn s = true := fun step hin =>
    h.goesOn step (List.mem_append_left _ hin)
  have hafter : ∀ step ∈ after, step.goesOn s = true := fun step hin =>
    h.goesOn step (List.mem_append_right _ hin)
  -- The logs after the delete, before the insert, after it, and in the end.
  obtain ⟨-, hs₁⟩ := prefix_takeStep h.registered (hstep (.recordDelete s t row) rfl)
  obtain ⟨⟨others, hlog₂⟩, hs₂⟩ := prefix_takeSteps hs₁ hbetween
  obtain ⟨-, hs₃⟩ := prefix_takeStep hs₂ (hstep (.recordInsert s t row) rfl)
  obtain ⟨⟨rest, hlog⟩, -⟩ := prefix_takeSteps hs₃ hafter
  obtain ⟨a, hdeleted, hdeletes, hon⟩ := logged_of_recordDelete h.deleted
  obtain ⟨b, hinserted, hinserts⟩ := logged_of_recordInsert h.inserted
  have hlast : ((c.takeSteps (reinsertion s t row between after)).tx s).actions =
      (((c.recordDelete s t row).2.tx s).actions ++ others) ++ [b] ++ rest := by
    rw [reinsertion, takeSteps_append]
    refine hlog.symm.trans (congrArg (· ++ rest) ?_)
    exact hinserted.trans (congrArg (· ++ [b]) hlog₂.symm)
  refine ⟨a, others ++ b :: rest, ?_, hdeletes, hon,
    b, List.mem_append_right others List.mem_cons_self, hinserts⟩
  rw [hlast, hdeleted]
  simp only [List.append_assoc, List.cons_append, List.nil_append]

/-- A row that was inserted names the table that it was inserted into. -/
theorem Tidy.table_of_recordInsert (h : c.Tidy) (hok : (c.recordInsert s t row).1 = .ok ()) :
    row.table = t := by
  have hcall := c.storage.call_calls t (.index row)
  unfold Coordinator.recordInsert at hok
  generalize c.storage.call t (.index row) = called at hok hcall
  obtain ⟨answer, storage⟩ := called
  cases answer with
  | error f => cases hok
  | ok _ =>
    cases hcall with
    | done _ hk _ =>
      obtain ⟨htable, -⟩ := RowStore.of_indexRow hk
      exact htable.trans (h.inPlace.named t)

theorem Reinserts.table_eq (hr : c.Reinserts s t row between after) (h : c.Tidy)
    (hplaces : ∀ step ∈ reinsertion s t row between after, step.KeepsPlaces) : row.table = t := by
  have hbefore : (c.takeSteps (.call (.recordDelete s t row) :: between)).Tidy :=
    h.takeSteps fun step hstep => hplaces step (List.mem_append_left _ hstep)
  exact hbefore.table_of_recordInsert hr.inserted

/-- A row that a transaction deletes and inserts again is lost: a commit makes the delete final, and
a rollback takes the insert back. It is not lost by a rollback if somebody has the row in hand, since
the delete is taken back then as well. The other rows that were deleted are gone after a commit and
visible again after a rollback, and those that were inserted the other way round. -/
theorem reinserted_row_lost (clock : Clock) (journal : Journal) {storage : Storage}
    (hstorage : storage.InPlace) {before between after : List RowStep}
    (hplaces : ∀ step ∈ before ++ reinsertion s t row between after, step.KeepsPlaces)
    (hr : ((started clock storage journal).takeSteps before).Reinserts s t row between after) :
    let c := (started clock storage journal).takeSteps (before ++ reinsertion s t row between after)
    let log := (c.tx s).actions
    ∀ inHand, c.TablesInHand s inHand →
      ((c.commit s inHand).1 = .ok true ↔ c.abortRequested s = false ∧
        (persist s c.tick.1 log c.storage c.journal inHand).1 = .ok ()) ∧
      ((c.commit s inHand).1 = .ok true →
        (c.commit s inHand).2.storage.get? t row.position = none ∧
        ∀ u other, other ∈ (c.commit s inHand).2.storage.scan u ↔
          other ∈ c.storage.scan u ∧ ¬Deleted log u other.position) ∧
      (¬InHandAt log inHand t row.position →
        (c.rollback s inHand).storage.get? t row.position = none) ∧
      (row ∈ inHand → OnlyInHandAt log inHand t row.position row →
        ¬Inserted (((started clock storage journal).takeSteps before).tx s).actions t row.position →
        row ∈ (c.rollback s inHand).storage.scan t) ∧
      ∀ u other, ¬InHandAt log inHand u other.position →
        (other ∈ (c.rollback s inHand).storage.scan u ↔
          ¬Inserted log u other.position ∧ (other ∈ c.storage.scan u ∨
            Deleted log u other.position ∧ c.storage.get? u other.position = some other)) := by
  intro c log inHand htables
  have hc : c = ((started clock storage journal).takeSteps before).takeSteps
      (reinsertion s t row between after) := takeSteps_append
  have hstarted : ((started clock storage journal).takeSteps before).Tidy :=
    (tidy_started hstorage).takeSteps fun step hstep => hplaces step (List.mem_append_left _ hstep)
  have h : c.Tidy := (tidy_started hstorage).takeSteps hplaces
  obtain ⟨a, later, hlogged, hdeletes, hon, hinserted⟩ := hr.logged
  have hlog : log = (((started clock storage journal).takeSteps before).tx s).actions ++ a :: later :=
    (congrArg (fun c => (c.tx s).actions) hc).trans hlogged
  have hin : a ∈ log := hlog ▸ List.mem_append_right _ List.mem_cons_self
  obtain ⟨hanswer, hfinal⟩ := h.finalized_commit htables
  refine ⟨hanswer, fun hcommit => ⟨?_, (hfinal hcommit).shown⟩, fun hnobody => ?_,
    fun hheld honly hold => ?_, fun u other hnobody => ?_⟩
  · refine Option.eq_none_iff_forall_ne_some.mpr fun other hother => ?_
    exact (((hfinal hcommit).left t row.position other).mp hother).2 ⟨a, hin, hdeletes⟩
  · have hgone : Inserted log t row.position := by
      obtain ⟨b, hb, hinserts⟩ := hinserted
      exact ⟨b, hlog ▸ List.mem_append_right _ (List.mem_cons_of_mem a hb), hinserts⟩
    rw [← Storage.fst_spot, h.spot_rollback hnobody, rewind_of_inserted hgone]
    rfl
  · have hnamed : row.table = t := hr.table_eq hstarted fun step hstep =>
      hplaces step (List.mem_append_right _ hstep)
    exact h.rollback_reinserted hlog hdeletes hon hold hinserted hnamed htables hheld honly
  · rw [h.inPlace_rollback.shown_iff, h.spot_rollback hnobody, rewind_shown, h.inPlace.shown_iff,
      Storage.fst_spot]

/-- Tables of which one, still empty, has been created. -/
def oneTable : Storage := (Storage.empty.createTable "t" false).2

theorem inPlace_oneTable : oneTable.InPlace := (Storage.sound_empty.createTable "t" false).1.inPlace

/-- Session 1 commits a row and begins another transaction. -/
def committedRow : List RowStep :=
  [.call (.register .readCommitted), .call (.beginTransaction 1), .allocate 1 [.integer 7],
    .call (.recordInsert 1 1 ⟨1, 1, 1, [.integer 7]⟩), .call (.commit 1),
    .call (.beginTransaction 1)]

theorem keepsPlaces_committedRow :
    ∀ step ∈ committedRow ++ reinsertion 1 1 ⟨1, 1, 1, [.integer 7]⟩ [] [], step.KeepsPlaces := by
  simp [committedRow, reinsertion, RowStep.KeepsPlaces]

theorem reinserts_committedRow : ((started .zero oneTable .empty).takeSteps committedRow).Reinserts
    1 1 ⟨1, 1, 1, [.integer 7]⟩ [] [] := by
  constructor <;> decide

theorem reinserted_row_lost_committedRow :
    let row : Row := ⟨1, 1, 1, [.integer 7]⟩
    let c := (started .zero oneTable .empty).takeSteps
      (committedRow ++ reinsertion 1 1 row [] [])
    oneTable.InPlace ∧ (∀ step ∈ committedRow ++ reinsertion 1 1 row [] [], step.KeepsPlaces) ∧
    ((started .zero oneTable .empty).takeSteps committedRow).Reinserts 1 1 row [] [] ∧
    c.TablesInHand 1 [] ∧ c.TablesInHand 1 [row] ∧
    (c.commit 1).2.storage.get? 1 1 = none ∧ (c.commit 1 [row]).2.storage.get? 1 1 = none ∧
    (c.rollback 1).storage.get? 1 1 = none ∧ row ∈ (c.rollback 1 [row]).storage.scan 1 := by
  intro row c
  have htables : c.TablesInHand 1 [row] := by
    have hthere : ∀ a ∈ (c.tx 1).actions, (c.storage.tables.get? a.store).isSome = true := by decide
    exact fun a ha _ => hthere a ha
  have honly : OnlyInHandAt (c.tx 1).actions [row] 1 1 row := fun a _ _ other hother _ =>
    List.mem_singleton.mp hother
  have hends := reinserted_row_lost .zero .empty inPlace_oneTable keepsPlaces_committedRow
    reinserts_committedRow
  obtain ⟨hanswer, hcommit, hrollback, -⟩ := hends [] tablesInHand_nil
  obtain ⟨hanswer', hcommit', -, hback, -⟩ := hends [row] htables
  exact ⟨inPlace_oneTable, keepsPlaces_committedRow, reinserts_committedRow, tablesInHand_nil,
    htables, (hcommit (hanswer.mpr (by decide))).1, (hcommit' (hanswer'.mpr (by decide))).1,
    hrollback not_inHandAt_nil, hback List.mem_cons_self honly not_inserted_nil⟩

/-- A row that is visible, and on which no open transaction has worked, is invisible after either
end. -/
theorem reinserted_row_invisible :
    (¬∀ (before between after : List RowStep) (s : SessionId) (t : TableId) (row : Row),
      (∀ step ∈ before ++ reinsertion s t row between after, step.KeepsPlaces) →
      row ∈ ((started .zero oneTable .empty).takeSteps before).storage.scan t →
      (∀ y, ¬((started .zero oneTable .empty).takeSteps before).Records y row.id) →
      ((started .zero oneTable .empty).takeSteps before).Reinserts s t row between after →
      (((started .zero oneTable .empty).takeSteps
        (before ++ reinsertion s t row between after)).commit s).1 = .ok true →
      row ∈ (((started .zero oneTable .empty).takeSteps
        (before ++ reinsertion s t row between after)).commit s).2.storage.scan t) ∧
    ¬∀ (before between after : List RowStep) (s : SessionId) (t : TableId) (row : Row),
      (∀ step ∈ before ++ reinsertion s t row between after, step.KeepsPlaces) →
      row ∈ ((started .zero oneTable .empty).takeSteps before).storage.scan t →
      (∀ y, ¬((started .zero oneTable .empty).takeSteps before).Records y row.id) →
      ((started .zero oneTable .empty).takeSteps before).Reinserts s t row between after →
      row ∈ (((started .zero oneTable .empty).takeSteps
        (before ++ reinsertion s t row between after)).rollback s).storage.scan t := by
  have hvisible : (⟨1, 1, 1, [.integer 7]⟩ : Row) ∈
      ((started .zero oneTable .empty).takeSteps committedRow).storage.scan 1 := by
    decide
  have hsettled (y : SessionId) :
      ¬((started .zero oneTable .empty).takeSteps committedRow).Records y 1 := by
    intro hrecords
    have hin := mem_recordedRows.mpr ⟨y, hrecords⟩
    exact absurd hin (by decide)
  constructor
  · intro hclaim
    have hrow := hclaim committedRow [] [] 1 1 _ keepsPlaces_committedRow hvisible hsettled
      reinserts_committedRow (by decide)
    exact absurd hrow (by decide)
  · intro hclaim
    have hrow := hclaim committedRow [] [] 1 1 _ keepsPlaces_committedRow hvisible hsettled
      reinserts_committedRow
    exact absurd hrow (by decide)

end Coordinator

end LockingDb
