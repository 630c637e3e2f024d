import LockingDb.Proofs.LedgerCalls

namespace LockingDb

/-- The entry of the log for a change. -/
def Change.record (s : SessionId) : Change → LogRecord
  | .insert row => .insert s row.table row.position row.values
  | .delete row => .delete s row.table row.position

/-- What a commit leaves in the log: its net changes, and the commit itself after them. Nothing is
left of a transaction that has changed nothing. -/
def Commit.block (k : Commit) : List LogRecord :=
  if k.changes = [] then []
  else (Change.net k.changes).map (Change.record k.session) ++ [.commit k.session k.time]

/-- A row is inserted before it is deleted. -/
theorem Contents.Evolved.insert_before {m : IdMap Row} {ks : List Change} {c : Contents} {row : Row}
    (h : Contents.Evolved m ks c) (hinsert : .insert row ∈ ks) (hdelete : .delete row ∈ ks) :
    ∃ before after, ks = before ++ .delete row :: after ∧ .insert row ∈ before := by
  induction h with
  | start => cases hinsert
  | @step ks k c h hk ih =>
    rcases List.mem_append.mp hdelete with hold | hnew
    · rcases List.mem_append.mp hinsert with hin | hlast
      · obtain ⟨before, after, rfl, hbefore⟩ := ih hin hold
        exact ⟨before, after ++ [k], by simp, hbefore⟩
      · obtain rfl := List.mem_singleton.mp hlast
        have hfree : c.rows.get? row.position = none := hk
        have hother : (Change.delete row).row ≠ row := h.fresh hfree hold
        exact absurd rfl hother
    · obtain rfl := List.mem_singleton.mp hnew
      rcases List.mem_append.mp hinsert with hin | hlast
      · exact ⟨ks, [], rfl, hin⟩
      · cases List.mem_singleton.mp hlast

section Types

variable {s : SessionId} {as : List RowAction} {ks before after : List Change} {a : RowAction}
  {row : Row}

theorem Logged.inserted_of_type (h : Logged s as ks) (ha : a ∈ as)
    (htype : a.type = .insertThenDelete) :
    ∃ row, a.row = row.id ∧ .insert row ∈ ks ∧ .delete row ∈ ks := by
  induction h with
  | nil => cases ha
  | @concat as ks h k now ih =>
    rcases List.mem_append.mp ha with hold | hnew
    · obtain ⟨row, hrow, hinsert, hdelete⟩ := ih hold
      exact ⟨row, hrow, List.mem_append_left _ hinsert, List.mem_append_left _ hdelete⟩
    · obtain rfl := List.mem_singleton.mp hnew
      cases k with
      | insert row => cases htype
      | delete row =>
        have hinsert : .insert row ∈ ks := by
          by_contra hnot
          have hdelete : (Change.delete row).type ks = .delete := if_neg hnot
          exact absurd (hdelete.symm.trans htype) nofun
        exact ⟨row, rfl, List.mem_append_left _ hinsert, by simp⟩

theorem Logged.exists_type (h : Logged s as (before ++ .delete row :: after))
    (hinsert : .insert row ∈ before) :
    ∃ a ∈ as, a.row = row.id ∧ a.type = .insertThenDelete := by
  generalize hks : before ++ .delete row :: after = ks at h
  induction h generalizing after with
  | nil => simp at hks
  | @concat as ks h k now ih =>
    rcases List.eq_nil_or_concat after with rfl | ⟨after, last, rfl⟩
    · obtain ⟨rfl, hlast⟩ := List.append_inj' hks rfl
      obtain rfl := (List.singleton_inj.mp hlast).symm
      refine ⟨_, List.mem_append_right _ List.mem_cons_self, rfl, ?_⟩
      exact if_pos hinsert
    · rw [List.concat_eq_append, ← List.cons_append, ← List.append_assoc] at hks
      obtain ⟨hinit, -⟩ := List.append_inj' hks rfl
      obtain ⟨a, ha, hfound⟩ := ih hinit
      exact ⟨a, List.mem_append_left _ ha, hfound⟩

end Types

/-- What the log gets from a step: a commit leaves its block, and one that fails may leave the first
of its entries. -/
def Ledger.Logged (l : Ledger) (j j' : Journal) : Option Event → Prop
  | some (.committed s now) => j'.entries = j.entries ++ Commit.block ⟨s, now, (l.draft s).changes⟩
  | some (.rolledBack s) => ∃ left, left <+: (Change.net (l.draft s).changes).map (Change.record s) ∧
      j'.entries = j.entries ++ left ∧ ((∀ n call, j.faults n call = none) → left = [])
  | _ => j'.entries = j.entries

/-- What an attempt to write entries to the log comes to. If it fails, it has stopped before one of
them. -/
structure Journal.Appends (j : Journal) (rs : List LogRecord) (out : Except Failure Unit × Journal) :
    Prop where
  faults : out.2.faults = j.faults
  entries : out.1 = .ok () → out.2.entries = j.entries ++ rs
  stopped : ∀ f, out.1 = .error f → ∃ written r rest, rs = written ++ r :: rest ∧
    out.2.entries = j.entries ++ written
  obeys : (∀ n call, j.faults n call = none) → out.1 = .ok ()

theorem Journal.appends_nil {j : Journal} : j.Appends [] (.ok (), j) :=
  ⟨rfl, fun _ => (List.append_nil _).symm, nofun, fun _ => rfl⟩

theorem Journal.appends_write {j : Journal} {call : LogCall} {r : LogRecord}
    (hrecord : call.record?.toList.filter (·.isWork) = [r]) : j.Appends [r] (j.write call) := by
  have hwrite : (j.write call).2.faults = j.faults ∧ (j.write call).2.entries = j.entries ++
      if (j.write call).1.isOk then call.record?.toList.filter (·.isWork) else [] := entries_write
  obtain ⟨hfaults, hentries⟩ := hwrite
  rw [hrecord] at hentries
  refine ⟨hfaults, fun hok => ?_, fun f hf => ⟨[], r, [], rfl, ?_⟩, fun hobeys => ?_⟩
  · rw [hentries, hok]
    rfl
  · rw [hentries, hf]
    rfl
  · unfold write
    rw [hobeys]

theorem Journal.Appends.andThen {j j' : Journal} {rs rs' : List LogRecord}
    {out : Except Failure Unit × Journal} (h : j.Appends rs (.ok (), j')) (h' : j'.Appends rs' out) :
    j.Appends (rs ++ rs') out := by
  have hfaults : j'.faults = j.faults := h.faults
  have hentries : j'.entries = j.entries ++ rs := h.entries rfl
  refine ⟨h'.faults.trans hfaults, fun hok => ?_, fun f hf => ?_, fun hobeys => h'.obeys fun n call => ?_⟩
  · rw [h'.entries hok, hentries, List.append_assoc]
  · obtain ⟨written, r, rest, rfl, hleft⟩ := h'.stopped f hf
    exact ⟨rs ++ written, r, rest, (List.append_assoc ..).symm,
      by rw [hleft, hentries, List.append_assoc]⟩
  · rw [hfaults]
    exact hobeys n call

theorem Journal.Appends.failed {j j' : Journal} {rs : List LogRecord} {f : Failure}
    (h : j.Appends rs (.error f, j')) (rs' : List LogRecord) : j.Appends (rs ++ rs') (.error f, j') := by
  refine ⟨h.faults, nofun, fun _ _ => ?_, fun hobeys => absurd (h.obeys hobeys) nofun⟩
  obtain ⟨written, r, rest, rfl, hleft⟩ := h.stopped f rfl
  exact ⟨written, r, rest ++ rs', List.append_assoc .., hleft⟩

namespace Coordinator

open Change

variable {c c' : Coordinator} {s x y : SessionId} {t : TableId} {l : Ledger} {d : Draft}
  {k : Change} {now : Timestamp} {row : Row} {storage : Storage} {transient : List RowId}
  {as : List RowAction} {ks : List Change} {keep : Change → Bool}

/-- An action is written down with the row of its change, or left out if the row is transient. -/
structure WrittenAs (s : SessionId) (storage : Storage) (transient : List RowId)
    (keep : Change → Bool) (a : RowAction) (k : Change) : Prop where
  found : a.row? storage = some k.row
  left : transient.contains a.row = !keep k
  record : keep k = true → LogRecord.ofAction? s a.type k.row = some (k.record s)

theorem persistActions_appends (h : List.Forall₂ (WrittenAs s storage transient keep) as ks)
    (j : Journal) :
    j.Appends ((ks.filter keep).map (record s)) (persistActions s transient storage as j) := by
  induction h generalizing j with
  | nil => exact Journal.appends_nil
  | @cons a k as ks ha _ ih =>
    unfold persistActions
    rw [ha.left, ha.found]
    cases hkeep : keep k with
    | false =>
      rw [List.filter_cons_of_neg (by rw [hkeep]; exact Bool.false_ne_true)]
      exact ih j
    | true =>
      have hrecord : (LogCall.action s a.type k.row).record?.toList.filter (·.isWork) =
          [k.record s] := by
        rw [LogCall.record?, ha.record hkeep]
        cases k <;> rfl
      have hwrite : j.Appends [k.record s] (j.write (.action s a.type k.row)) :=
        Journal.appends_write hrecord
      rw [List.filter_cons_of_pos hkeep, List.map_cons, ← List.singleton_append]
      simp only [Bool.not_true, Bool.false_eq_true, if_false]
      generalize j.write (.action s a.type k.row) = written at hwrite
      obtain ⟨answer, j'⟩ := written
      cases answer with
      | error f => exact hwrite.failed _
      | ok done => exact hwrite.andThen (ih j')

/-- The rows that a transaction has inserted and deleted again are those of its deletes of own
rows. -/
theorem InStep.mem_transient (h : c.InStep l) (hagree : c.locks.HoldersAgree)
    (hk : k ∈ (l.draft s).changes) :
    k.row.id ∈ ((c.tx s).actions.filter (·.type = .insertThenDelete)).map RowAction.row ↔
      .insert k.row ∈ (l.draft s).changes ∧ .delete k.row ∈ (l.draft s).changes := by
  have hlogged := (h.carries s).logged
  constructor
  · intro hin
    obtain ⟨a, ha, hrow⟩ := List.mem_map.mp hin
    obtain ⟨ha, htype⟩ := List.mem_filter.mp ha
    obtain ⟨row, hid, hinsert, hdelete⟩ := hlogged.inserted_of_type ha (of_decide_eq_true htype)
    have hfound := (h.of_mem hagree hinsert).1
    have hsame := h.sound.apart _ _ _ _ row k.row hfound (h.of_mem hagree hk).1 (hid.symm.trans hrow)
    rw [← hsame]
    exact ⟨hinsert, hdelete⟩
  · rintro ⟨hinsert, hdelete⟩
    have hevolved := h.evolved_of_mem hagree hinsert
    obtain ⟨first, last, hsplit, hfirst⟩ := hevolved.insert_before
      (mem_onTable.mpr ⟨hinsert, rfl⟩) (mem_onTable.mpr ⟨hdelete, rfl⟩)
    obtain ⟨front, back, hchanges, rfl, hback⟩ := List.filter_eq_append_iff.mp hsplit
    obtain ⟨gap, rest, rfl, -⟩ := List.filter_eq_cons_iff.mp hback
    rw [hchanges, ← List.append_assoc] at hlogged
    obtain ⟨a, ha, hid, htype⟩ := hlogged.exists_type
      (List.mem_append_left gap (List.mem_filter.mp hfirst).1)
    exact List.mem_map.mpr ⟨a, List.mem_filter.mpr ⟨ha, decide_eq_true htype⟩, hid⟩

theorem writtenAs_of_notes {a : RowAction} {p : Prop} [Decidable p] (hnotes : a.Notes k)
    (hfound : storage.get? k.table k.row.position = some k.row) (hleft : k.row.id ∈ transient ↔ p)
    (htype : a.type = .insertThenDelete → a.row ∈ transient) (hkeep : keep k = decide ¬p) :
    WrittenAs s storage transient keep a k := by
  refine ⟨?_, ?_, fun hkept => ?_⟩
  · rw [RowAction.row?, hnotes.store, hnotes.position]
    exact hfound
  · rw [hnotes.row, hkeep]
    by_cases hp : p
    · simpa [hp] using hleft.mpr hp
    · simpa [hp] using fun hin => hp (hleft.mp hin)
  · have hfits := hnotes.type
    cases k with
    | insert row =>
      rw [show a.type = .insert from hfits]
      rfl
    | delete row =>
      rcases hfits with hdelete | hown
      · rw [hdelete]
        rfl
      · have hp : p := hleft.mp (hnotes.row ▸ htype hown)
        rw [hkeep] at hkept
        exact absurd hp (of_decide_eq_true hkept)

/-- What is written down of a transaction is what its commit leaves in the log. -/
theorem InStep.persist (h : c.InStep l) (hagree : c.locks.HoldersAgree) (now : Timestamp)
    (j : Journal) :
    j.Appends (Commit.block ⟨s, now, (l.draft s).changes⟩)
      (persist s now (c.tx s).actions c.storage j) := by
  have hlogged := (h.carries s).logged
  have hempty : (c.tx s).actions.isEmpty = true ↔ (l.draft s).changes = [] := by
    rw [List.isEmpty_iff, ← List.length_eq_zero_iff, hlogged.length_eq, List.length_eq_zero_iff]
  unfold Coordinator.persist Commit.block
  by_cases hnone : (l.draft s).changes = []
  · rw [if_pos (hempty.mpr hnone), if_pos hnone]
    exact Journal.appends_nil
  · rw [if_neg fun hin => hnone (hempty.mp hin), if_neg hnone]
    generalize htransient :
      ((c.tx s).actions.filter (·.type = .insertThenDelete)).map RowAction.row = transient
    have hwritten : List.Forall₂ (WrittenAs s c.storage transient fun k =>
        ¬(.insert k.row ∈ (l.draft s).changes ∧ .delete k.row ∈ (l.draft s).changes))
        (c.tx s).actions (l.draft s).changes := by
      obtain ⟨hlength, hpairs⟩ := List.forall₂_iff_zip.mp hlogged.notes
      refine List.forall₂_iff_zip.mpr ⟨hlength, fun {a k} hpair => ?_⟩
      obtain ⟨ha, hk⟩ := List.of_mem_zip hpair
      have hleft := h.mem_transient hagree hk
      rw [htransient] at hleft
      refine writtenAs_of_notes (hpairs hpair) (h.of_mem hagree hk).1 hleft (fun htype => ?_) rfl
      rw [← htransient]
      exact List.mem_map_of_mem (List.mem_filter.mpr ⟨ha, decide_eq_true htype⟩)
    have hactions := persistActions_appends hwritten j
    dsimp only
    generalize persistActions s transient c.storage (c.tx s).actions j = written at hactions
    obtain ⟨answer, j'⟩ := written
    cases answer with
    | error f => exact hactions.failed _
    | ok done =>
      have hcommit : j'.Appends [.commit s now] (j'.write (.commit s now)) :=
        Journal.appends_write rfl
      exact hactions.andThen hcommit

/-- The ways in which the attempt to commit ends, and what is seen of it. -/
inductive Commits (c : Coordinator) (s : SessionId) : Option Event → Coordinator → Prop where
  | refused (habort : c.abortRequested s = true) : Commits c s none c
  | failed {f : Failure} {journal : Journal} (habort : c.abortRequested s = false)
      (hlog : persist s c.tick.1 (c.tx s).actions c.storage c.journal = (.error f, journal)) :
      Commits c s (c.rollbackEvent? s) ({ c.tick.2 with journal }.rollback s)
  | done {journal : Journal} (habort : c.abortRequested s = false)
      (hlog : persist s c.tick.1 (c.tx s).actions c.storage c.journal = (.ok (), journal)) :
      Commits c s (if (c.tx s).isOpen then some (.committed s c.tick.1) else none)
        ((({ c.tick.2 with journal }.withCalls s
          (finalizeAll c.tick.1 (c.tx s).actions c.storage).2).endTx s
            (c.tx s).touchedRows).closeTx s c.tick.1)

theorem commit_commits (c : Coordinator) (s : SessionId) :
    Commits c s (c.commitEvent? s) (c.commit s).2 := by
  unfold commitEvent? commit
  by_cases habort : c.abortRequested s = true
  · rw [if_pos habort, if_pos habort]
    exact .refused habort
  · rw [if_neg habort, if_neg habort]
    have habort := Bool.eq_false_iff.mpr habort
    have htx : c.tick.2.tx s = c.tx s := rfl
    obtain ⟨answer, journal, hlog⟩ : ∃ answer journal,
        persist s c.tick.1 (c.tx s).actions c.storage c.journal = (answer, journal) := ⟨_, _, rfl⟩
    have hlogged : persist s c.tick.1 (c.tick.2.tx s).actions c.tick.2.storage c.tick.2.journal =
        (answer, journal) := hlog
    dsimp only
    rw [hlogged, htx]
    cases answer with
    | error f => exact .failed habort hlog
    | ok done =>
      have hdone := Commits.done habort hlog
      dsimp only
      cases (finalizeAll c.tick.1 (c.tx s).actions c.tick.2.storage).1 <;> exact hdone

theorem note_rollbackEvent? : l.note s d (c.rollbackEvent? s) = l.note s d none := by
  unfold rollbackEvent?
  split <;> rfl

/-- When all changes of a session are settled, its tables are as committed. -/
theorem InStep.settled (h : c.InStep l) (hagree : c.locks.HoldersAgree)
    (hothers : ∀ y, y ≠ s → Spares y c c') (hsound : c'.storage.Sound)
    (hcontents : ∀ t, c'.storage.contents t =
      (onTable t (l.draft s).changes).foldl Contents.settle (c.storage.contents t))
    (hcarries : c'.Carries s []) (hearly : c.clock.current < now)
    (hlate : now ≤ c'.clock.current) :
    c'.InStep (l.note s .empty (if (c.tx s).isOpen then some (.committed s now) else none)) := by
  by_cases hopen : (c.tx s).isOpen = true
  · rw [if_pos hopen]
    refine h.of_leads hagree hothers (fun y hy => Ledger.draft_note_of_ne hy) hsound ?_
      (fun t => ?_) ?_ fun k hk => ?_
    · rw [Ledger.draft_note_self]
      exact hcarries
    · rw [Leads, Ledger.draft_note_self, Ledger.rows_note_committed, hcontents]
      by_cases hnone : onTable t (l.draft s).changes = []
      · rw [hnone]
        exact Or.inl ⟨rfl, rfl, rfl⟩
      · obtain ⟨k, hfound⟩ := List.exists_mem_of_ne_nil _ hnone
        obtain ⟨hk, rfl⟩ := mem_onTable.mp hfound
        refine Or.inr ⟨(h.carries s).locked k hk, fun hevolved => ?_⟩
        rw [hevolved.settle, hevolved.changeAll_net]
        exact .start
    · refine List.pairwise_append.mpr ⟨h.timed, List.pairwise_singleton .., fun k hk last hlast => ?_⟩
      have hpast := h.past k hk
      rw [List.mem_singleton.mp hlast]
      exact Nat.lt_of_le_of_lt hpast hearly
    · rcases List.mem_append.mp hk with hold | hnew
      · have hpast := h.past k hold
        exact Nat.le_trans (Nat.le_trans hpast (Nat.le_of_lt hearly)) hlate
      · rw [List.mem_singleton.mp hnew]
        exact hlate
  · have hnone := h.changes_eq_nil (Bool.eq_false_iff.mpr hopen)
    rw [if_neg hopen]
    refine h.goesOn hagree hothers hsound hcarries fun t => Or.inl ⟨rfl, ?_, ?_⟩
    · rw [Ledger.draft_note_self, hnone]
      rfl
    · rw [hcontents, hnone]
      rfl

theorem InStep.committed (h : c.InStep l) (hagree : c.locks.HoldersAgree) {journal : Journal} :
    ((({ c.tick.2 with journal }.withCalls s
      (finalizeAll c.tick.1 (c.tx s).actions c.storage).2).endTx s
        (c.tx s).touchedRows).closeTx s c.tick.1).InStep (l.note s .empty
          (if (c.tx s).isOpen then some (.committed s c.tick.1) else none)) := by
  obtain ⟨-, hsound, hsettled⟩ := finalizeAll_settles c.tick.1 h.sound
    (h.carries s).logged.notes
    (fun k hk row hrow => Option.some.inj (hrow.symm.trans
      (Storage.get?_eq.symm.trans (h.of_mem hagree hk).1)))
    (fun row hk => (h.of_mem hagree hk).2 row rfl)
  generalize (finalizeAll c.tick.1 (c.tx s).actions c.storage).2 = storage at hsound hsettled
  have hended (y : SessionId) (hy : y ≠ s) (rows : List RowId) : Spares y c.tick.2
      ((({ c.tick.2 with journal }.withCalls s storage).endTx s rows).closeTx s c.tick.1) := by
    have hfinal : Spares y c.tick.2 ({ c.tick.2 with journal }.withCalls s storage) :=
      spares_of_eq rfl rfl rfl
    exact hfinal.trans ((spares_endTx hy).trans (spares_closeTx hy))
  refine h.settled hagree (fun y hy => spares_tick.trans (hended y hy _)) ?_ (fun t => ?_) ?_
    c.clock.lt_tick (hended (s + 1) (Nat.succ_ne_self s) _).clock
  · rw [storage_closed]
    exact hsound
  · rw [storage_closed]
    exact hsettled t
  · refine carries_nil ?_ ?_
    all_goals
      rw [closeTx, tx_updateTx_self]
      rfl

/-- A failed commit has written no more than the changes, and only an open transaction has any. -/
theorem InStep.logged_of_failed (h : c.InStep l) (hagree : c.locks.HoldersAgree) {f : Failure}
    {journal : Journal}
    (hlog : Coordinator.persist s now (c.tx s).actions c.storage c.journal = (.error f, journal)) :
    journal.faults = c.journal.faults ∧ l.Logged c.journal journal (c.rollbackEvent? s) := by
  have happends := h.persist (s := s) hagree now c.journal
  rw [hlog] at happends
  have hsome : (l.draft s).changes ≠ [] := by
    intro hnone
    have hactions : (c.tx s).actions = [] := by
      rw [← List.length_eq_zero_iff, (h.carries s).logged.length_eq, hnone]
      rfl
    rw [hactions] at hlog
    cases hlog
  have hopen := (h.carries s).isOpen hsome
  unfold rollbackEvent?
  rw [if_pos hopen]
  obtain ⟨written, r, rest, hblock, hleft⟩ := happends.stopped f rfl
  unfold Commit.block at hblock
  rw [if_neg hsome] at hblock
  have hinitial : written <+: (net (l.draft s).changes).map (record s) := by
    have hpart : written <+: (net (l.draft s).changes).map (record s) ++ [.commit s now] :=
      ⟨r :: rest, hblock.symm⟩
    rcases List.prefix_concat_iff.mp hpart with hall | hinitial
    · rw [hall] at hblock
      simp at hblock
    · exact hinitial
  exact ⟨happends.faults, written, hinitial, hleft, fun hobeys => absurd (happends.obeys hobeys) nofun⟩

/-- A commit that is not refused empties the draft of its session. -/
theorem InStep.commit (h : c.InStep l) (hagree : c.locks.HoldersAgree)
    (hd : d = if c.abortRequested s then l.draft s else .empty) :
    (c.commit s).2.InStep (l.note s d (c.commitEvent? s)) ∧
      (c.commit s).2.journal.faults = c.journal.faults ∧
      l.Logged c.journal (c.commit s).2.journal (c.commitEvent? s) := by
  have hcommits := c.commit_commits s
  generalize c.commitEvent? s = e, (c.commit s).2 = c' at hcommits
  subst hd
  cases hcommits with
  | refused habort =>
    rw [if_pos habort]
    exact ⟨h.redraft rfl, rfl, rfl⟩
  | @failed f journal habort hlog =>
    have hstarted : ({ c.tick.2 with journal } : Coordinator).InStep l :=
      h.of_eq rfl (fun _ => rfl) rfl (Nat.le_of_lt c.clock.lt_tick)
    have hrolled := hstarted.rollback (s := s) hagree
    have hjournal := rollback_journal (c := { c.tick.2 with journal }) (s := s)
    rw [if_neg (by rw [habort]; exact Bool.false_ne_true), note_rollbackEvent?, hjournal]
    exact ⟨hrolled, h.logged_of_failed hagree hlog⟩
  | @done journal habort hlog =>
    have happends := h.persist (s := s) hagree c.tick.1 c.journal
    rw [hlog] at happends
    have hjournal (c₁ : Coordinator) (rows : List RowId) :
        ((c₁.endTx s rows).closeTx s c.tick.1).journal = c₁.journal := journal_of_data endTx_data
    rw [if_neg (by rw [habort]; exact Bool.false_ne_true), hjournal]
    refine ⟨h.committed hagree, happends.faults, ?_⟩
    by_cases hopen : (c.tx s).isOpen = true
    · rw [if_pos hopen]
      exact happends.entries rfl
    · have hnone := h.changes_eq_nil (Bool.eq_false_iff.mpr hopen)
      have hblock : Commit.block ⟨s, c.tick.1, (l.draft s).changes⟩ = [] := if_pos hnone
      rw [if_neg hopen]
      exact (happends.entries rfl).trans (by rw [hblock, List.append_nil])

theorem savepoints_rollback : ((c.rollback s).tx s).savepoints = [] := by
  unfold Coordinator.rollback
  dsimp only
  rw [closeTx, tx_updateTx_self]
  rfl

/-- The savepoints of a transaction end with it. -/
theorem savepoints_commit (habort : c.abortRequested s = false) :
    ((c.commit s).2.tx s).savepoints = [] := by
  have hcommits := c.commit_commits s
  generalize c.commitEvent? s = e, (c.commit s).2 = c' at hcommits
  cases hcommits with
  | refused hrefused =>
    rw [habort] at hrefused
    cases hrefused
  | failed habort hlog => exact savepoints_rollback
  | done habort hlog =>
    rw [closeTx, tx_updateTx_self]
    rfl

/-- A session that leaves takes its draft back. -/
theorem InStep.unregister (h : c.InStep l) (hcoherent : c.locks.Coherent) :
    (c.unregister s).InStep (l.note s .empty none) ∧ (c.unregister s).journal = c.journal := by
  have hleft (c₁ : Coordinator) (hcoherent₁ : c₁.locks.Coherent)
      (h₁ : c₁.InStep (l.note s .empty none)) (hjournal : c₁.journal = c.journal) :
      ({ c₁.withdraw s with registered := (c₁.withdraw s).registered.erase s } :
          Coordinator).InStep (l.note s .empty none) ∧
        (c₁.withdraw s).journal = c.journal := by
    have hwithdrawn := h₁.quiet hcoherent₁.toHoldersAgree (fun y hy => spares_withdraw hy)
      (quiet_withdraw (s := s))
    have hsame : (c₁.withdraw s).journal = c₁.journal := journal_of_data withdraw_data
    exact ⟨hwithdrawn.of_eq rfl (fun _ => rfl) rfl (Nat.le_refl _), hsame.trans hjournal⟩
  unfold Coordinator.unregister
  dsimp only
  split
  next =>
    have hspares : Spares (s + 1) c (c.rollback s) := spares_rollback (Nat.succ_ne_self s)
    exact hleft _ (hspares.coherent hcoherent) (h.rollback hcoherent.toHoldersAgree) rollback_journal
  next hidle =>
    have hclosed : (c.tx s).isOpen = false := by
      refine Bool.eq_false_iff.mpr fun hopen => hidle ?_
      rw [hopen]
      rfl
    exact hleft c hcoherent (h.redraft (h.changes_eq_nil hclosed).symm) rfl

end Coordinator

end LockingDb
