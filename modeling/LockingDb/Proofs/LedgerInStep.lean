import LockingDb.Proofs.ActionLog
import LockingDb.Proofs.Ledger
import LockingDb.Proofs.QuietCalls

namespace LockingDb

namespace Ledger

variable {l : Ledger} {s y : SessionId} {t : TableId} {d d' : Draft} {e : Option Event}
  {now : Timestamp}

theorem draft_note : (l.note s d e).draft y = if y = s then d else l.draft y := by
  have hinsert : ((l.drafts.insert s d).get? y).getD .empty = if y = s then d else l.draft y := by
    rw [IdMap.get?_insert]
    split <;> rfl
  unfold note
  split <;> exact hinsert

@[simp] theorem draft_note_self : (l.note s d e).draft s = d := by
  rw [draft_note, if_pos rfl]

theorem draft_note_of_ne (hy : y ≠ s) : (l.note s d e).draft y = l.draft y := by
  rw [draft_note, if_neg hy]

theorem rows_note_committed : (l.note s d (some (.committed y now))).rows t =
    (l.rows t).changeAll (Change.net (Change.onTable t (l.draft s).changes)) := by
  unfold rows note
  simp only [List.flatMap_append, List.flatMap_cons, List.flatMap_nil, List.append_nil]
  rw [Change.onTable_append, IdMap.changeAll_append, Change.net_onTable]

theorem rows_note_of_nil (hnone : Change.onTable t (l.draft s).changes = []) :
    (l.note s d e).rows t = l.rows t := by
  cases e with
  | none => rfl
  | some event =>
    cases event with
    | access a => rfl
    | committed y now =>
      rw [rows_note_committed, hnone]
      rfl
    | rolledBack y => rfl

end Ledger

namespace Coordinator

open Change

variable {c c' : Coordinator} {s x y : SessionId} {t : TableId} {r : LockRequest} {l l' : Ledger}
  {d : Draft} {ks : List Change} {k : Change} {now : Timestamp} {row : Row}

/-- The transaction of a session has made the changes: they are in its log, it has the locks for
them, and it is open if there are any. -/
structure Carries (c : Coordinator) (s : SessionId) (ks : List Change) : Prop where
  logged : Logged s (c.tx s).actions ks
  indexed : Indexes (c.tx s).rowIndex (c.tx s).actions
  locked : ∀ k ∈ ks, c.locks.mode? s k.table = some .exclusive
  isOpen : ks ≠ [] → (c.tx s).isOpen = true

theorem Carries.of_work (h : c.Carries s ks) (hwork : (c'.tx s).work = (c.tx s).work)
    (hup : Upholds s c c') : c'.Carries s ks := by
  have hactions : (c'.tx s).actions = (c.tx s).actions := congrArg Prod.fst hwork
  have hindex : (c'.tx s).rowIndex = (c.tx s).rowIndex := congrArg (fun work => work.2.1) hwork
  refine ⟨?_, ?_, fun k hk => hup.written k.table (h.locked k hk),
    fun hks => hup.isOpen (h.isOpen hks)⟩
  · rw [hactions]
    exact h.logged
  · rw [hindex, hactions]
    exact h.indexed

theorem Carries.of_spares (h : c.Carries x ks) (hspares : Spares x c c') : c'.Carries x ks :=
  h.of_work (SessionTx.work_of_unlatched hspares.tx) hspares.upholds

theorem Carries.of_quiet (h : c.Carries s ks) (hq : Quiet s c c') : c'.Carries s ks :=
  h.of_work hq.work hq.toUpholds

theorem carries_nil (hactions : (c.tx s).actions = []) (hindex : (c.tx s).rowIndex = ∅) :
    c.Carries s [] := by
  refine ⟨hactions ▸ .nil, ?_, nofun, fun hks => absurd rfl hks⟩
  rw [hactions, hindex]
  exact indexes_empty

theorem Carries.push (h : c.Carries s ks) (hmode : c.locks.mode? s k.table = some .exclusive)
    (hopen : (c.tx s).isOpen = true) (hlocks : c'.locks = c.locks)
    (htx : c'.tx s = (c.tx s).pushAction (.ofRow (k.type ks) s now k.table k.row)) :
    c'.Carries s (ks ++ [k]) := by
  refine ⟨?_, ?_, fun j hj => ?_, fun _ => ?_⟩
  · rw [htx]
    exact h.logged.concat k now
  · rw [htx]
    exact SessionTx.indexes_pushAction h.indexed
  · rw [hlocks]
    rcases List.mem_append.mp hj with hold | hnew
    · exact h.locked j hold
    · rw [List.mem_singleton.mp hnew]
      exact hmode
  · rw [htx]
    exact hopen

/-- The ledger is right: the sessions have made the changes of their drafts, a table is where the
changes of the only session that works on it lead from the committed rows, and the commits are in
the order of their times. -/
structure InStep (c : Coordinator) (l : Ledger) : Prop where
  sound : c.storage.Sound
  carries : ∀ s, c.Carries s (l.draft s).changes
  evolved : ∀ t s, (∀ y, y ≠ s → onTable t (l.draft y).changes = []) →
    Contents.Evolved (l.rows t) (onTable t (l.draft s).changes) (c.storage.contents t)
  timed : l.commits.Pairwise (·.time < ·.time)
  past : ∀ k ∈ l.commits, k.time ≤ c.clock.current

/-- Nobody else has changed a table that a session has a lock on. -/
theorem InStep.alone (h : c.InStep l) (hagree : c.locks.HoldersAgree)
    (hheld : (c.locks.mode? s t).isSome = true) (hy : y ≠ s) : onTable t (l.draft y).changes = [] := by
  refine onTable_eq_nil.mpr fun k hk ht => ?_
  have hlocked := (h.carries y).locked k hk
  rw [ht] at hlocked
  rw [hagree.writer_alone t y s hlocked (Ne.symm hy)] at hheld
  cases hheld

theorem InStep.evolved_of_held (h : c.InStep l) (hagree : c.locks.HoldersAgree)
    (hheld : (c.locks.mode? s t).isSome = true) :
    Contents.Evolved (l.rows t) (onTable t (l.draft s).changes) (c.storage.contents t) :=
  h.evolved t s fun _ hy => h.alone hagree hheld hy

/-- A table that nobody has changed is as committed. -/
theorem InStep.contents_of_nil (h : c.InStep l) (hnone : ∀ y, onTable t (l.draft y).changes = []) :
    c.storage.contents t = .ofRows (l.rows t) := by
  have hevolved := h.evolved t 0 fun y _ => hnone y
  rw [hnone] at hevolved
  exact Contents.evolved_nil.mp hevolved

theorem isSome_of_exclusive (h : c.locks.mode? s t = some .exclusive) :
    (c.locks.mode? s t).isSome = true := by
  rw [h]
  rfl

theorem InStep.evolved_of_mem (h : c.InStep l) (hagree : c.locks.HoldersAgree)
    (hk : k ∈ (l.draft s).changes) : Contents.Evolved (l.rows k.table)
      (onTable k.table (l.draft s).changes) (c.storage.contents k.table) :=
  h.evolved_of_held hagree (isSome_of_exclusive ((h.carries s).locked k hk))

/-- The rows of all changes of a session are allocated, and those that it has deleted are not
visible. -/
theorem InStep.of_mem (h : c.InStep l) (hagree : c.locks.HoldersAgree)
    (hk : k ∈ (l.draft s).changes) : c.storage.get? k.table k.row.position = some k.row ∧
      ∀ row, k = .delete row → ¬row.position ∈ (c.storage.contents k.table).visible := by
  rw [Storage.get?_eq]
  exact (h.evolved_of_mem hagree hk).of_mem (mem_onTable.mpr ⟨hk, rfl⟩)

/-- What a step of a session comes to on a table: nothing, or the session has the table for itself
and goes on with its changes there. -/
def Leads (s : SessionId) (t : TableId) (c c' : Coordinator) (l l' : Ledger) : Prop :=
  (l'.rows t = l.rows t ∧ onTable t (l'.draft s).changes = onTable t (l.draft s).changes ∧
    c'.storage.contents t = c.storage.contents t) ∨
  (c.locks.mode? s t = some .exclusive ∧
    (Contents.Evolved (l.rows t) (onTable t (l.draft s).changes) (c.storage.contents t) →
      Contents.Evolved (l'.rows t) (onTable t (l'.draft s).changes) (c'.storage.contents t)))

theorem InStep.of_leads (h : c.InStep l) (hagree : c.locks.HoldersAgree)
    (hothers : ∀ y, y ≠ s → Spares y c c') (hdrafts : ∀ y, y ≠ s → l'.draft y = l.draft y)
    (hsound : c'.storage.Sound) (hcarries : c'.Carries s (l'.draft s).changes)
    (hleads : ∀ t, Leads s t c c' l l') (htimed : l'.commits.Pairwise (·.time < ·.time))
    (hpast : ∀ k ∈ l'.commits, k.time ≤ c'.clock.current) : c'.InStep l' := by
  refine ⟨hsound, fun y => ?_, fun t x hx => ?_, htimed, hpast⟩
  · by_cases hy : y = s
    · exact hy ▸ hcarries
    · rw [hdrafts y hy]
      exact (h.carries y).of_spares (hothers y hy)
  · rcases hleads t with ⟨hrows, hsame, hcontents⟩ | ⟨hmode, hlead⟩
    · have hall (y : SessionId) : onTable t (l'.draft y).changes = onTable t (l.draft y).changes := by
        by_cases hy : y = s
        · exact hy ▸ hsame
        · rw [hdrafts y hy]
      rw [hrows, hcontents, hall]
      exact h.evolved t x fun y hy => (hall y).symm.trans (hx y hy)
    · have hheld := isSome_of_exclusive hmode
      have hnew := hlead (h.evolved_of_held hagree hheld)
      by_cases hxs : x = s
      · exact hxs ▸ hnew
      · have hnone : onTable t (l'.draft x).changes = [] := by
          rw [hdrafts x hxs]
          exact h.alone hagree hheld hxs
        rw [hx s (Ne.symm hxs)] at hnew
        rw [hnone]
        exact hnew

/-- A step of a session that is no commit. -/
theorem InStep.goesOn (h : c.InStep l) (hagree : c.locks.HoldersAgree)
    (hothers : ∀ y, y ≠ s → Spares y c c') (hsound : c'.storage.Sound)
    (hcarries : c'.Carries s d.changes) (hleads : ∀ t, Leads s t c c' l (l.note s d none)) :
    c'.InStep (l.note s d none) := by
  have hspares := hothers (s + 1) (Nat.succ_ne_self s)
  refine h.of_leads hagree hothers (fun y hy => Ledger.draft_note_of_ne hy) hsound ?_ hleads h.timed
    fun k hk => ?_
  · rw [Ledger.draft_note_self]
    exact hcarries
  · have hpast := h.past k hk
    exact Nat.le_trans hpast hspares.clock

theorem InStep.quiet (h : c.InStep l) (hagree : c.locks.HoldersAgree)
    (hothers : ∀ y, y ≠ s → Spares y c c') (hq : Quiet s c c') : c'.InStep l := by
  have hspares := hothers (s + 1) (Nat.succ_ne_self s)
  refine h.of_leads hagree hothers (fun _ _ => rfl) (hq.storage ▸ h.sound)
    ((h.carries s).of_quiet hq) (fun t => Or.inl ⟨rfl, rfl, ?_⟩) h.timed fun k hk => ?_
  · rw [hq.storage]
  · have hpast := h.past k hk
    exact Nat.le_trans hpast hspares.clock

/-- A session that has no transaction has changed nothing. -/
theorem InStep.changes_eq_nil (h : c.InStep l) (hclosed : (c.tx s).isOpen = false) :
    (l.draft s).changes = [] := by
  by_contra hsome
  have hopen := (h.carries s).isOpen hsome
  rw [hclosed] at hopen
  cases hopen

/-- Time may pass, and tables may be created. -/
theorem InStep.of_contents (h : c.InStep l) (hsound : c'.storage.Sound)
    (hcontents : ∀ t, c'.storage.contents t = c.storage.contents t)
    (hcarries : ∀ y, c'.Carries y (l.draft y).changes)
    (hclock : c.clock.current ≤ c'.clock.current) : c'.InStep l := by
  refine ⟨hsound, hcarries, fun t x hx => ?_, h.timed, fun k hk => ?_⟩
  · rw [hcontents]
    exact h.evolved t x hx
  · have hpast := h.past k hk
    exact Nat.le_trans hpast hclock

theorem Carries.of_eq (h : c.Carries s ks) (htx : c'.tx s = c.tx s) (hlocks : c'.locks = c.locks) :
    c'.Carries s ks := by
  refine h.of_work (by rw [htx]) (upholds_of_continues ?_ hlocks)
  rw [htx]
  exact .refl (c.tx s)

/-- The log may change, and time may pass. -/
theorem InStep.of_eq (h : c.InStep l) (hstorage : c'.storage = c.storage)
    (htx : ∀ y, c'.tx y = c.tx y) (hlocks : c'.locks = c.locks)
    (hclock : c.clock.current ≤ c'.clock.current) : c'.InStep l :=
  h.of_contents (hstorage ▸ h.sound) (fun t => by rw [hstorage])
    (fun y => (h.carries y).of_eq (htx y) hlocks) hclock

/-- The state of a session may change apart from the changes of its transaction. -/
theorem InStep.setTx (h : c.InStep l) (hagree : c.locks.HoldersAgree) {tx : SessionTx}
    (hactions : tx.actions = (c.tx s).actions) (hindex : tx.rowIndex = (c.tx s).rowIndex)
    (hopen : (c.tx s).isOpen = true → tx.isOpen = true) : (c.setTx s tx).InStep l := by
  have hcarries := h.carries s
  refine h.of_leads hagree (fun y hy => spares_setTx hy) (fun _ _ => rfl) h.sound
    ⟨?_, ?_, hcarries.locked, fun hks => ?_⟩ (fun t => Or.inl ⟨rfl, rfl, rfl⟩) h.timed h.past
  · rw [tx_setTx_self, hactions]
    exact hcarries.logged
  · rw [tx_setTx_self, hactions, hindex]
    exact hcarries.indexed
  · rw [tx_setTx_self]
    exact hopen (hcarries.isOpen hks)

/-- A draft may note its own points in time as long as its changes are the same. -/
theorem InStep.redraft (h : c.InStep l) (hd : d.changes = (l.draft s).changes) :
    c.InStep (l.note s d none) := by
  have hsame (y : SessionId) : ((l.note s d none).draft y).changes = (l.draft y).changes := by
    rw [Ledger.draft_note]
    split
    next hy => rw [hy, hd]
    next => rfl
  refine ⟨h.sound, fun y => ?_, fun t x hx => ?_, h.timed, h.past⟩
  · rw [hsame]
    exact h.carries y
  · rw [hsame]
    refine h.evolved t x fun y hy => ?_
    rw [← hsame]
    exact hx y hy

/-- A step of another session does nothing to a table that a session has for itself. -/
theorem InStep.spared {e : Option Event} (h : c.InStep l) (hagree : c.locks.HoldersAgree)
    (h' : c'.InStep (l.note s d e)) (hagree' : c'.locks.HoldersAgree) (hy : y ≠ s)
    (hspares : Spares y c c') (hmode : c.locks.mode? y t = some .exclusive) :
    (l.note s d e).rows t = l.rows t ∧ c'.storage.contents t = c.storage.contents t := by
  have hheld := isSome_of_exclusive hmode
  have hrows : (l.note s d e).rows t = l.rows t :=
    Ledger.rows_note_of_nil (h.alone hagree hheld (Ne.symm hy))
  have hafter := h'.evolved_of_held hagree' (isSome_of_exclusive (hspares.keeps.written t hmode))
  rw [hrows, Ledger.draft_note_of_ne hy] at hafter
  exact ⟨hrows, hafter.unique (h.evolved_of_held hagree hheld)⟩

/-- A session makes a change that its table allows. -/
theorem InStep.push (h : c.InStep l) (hagree : c.locks.HoldersAgree)
    (hothers : ∀ y, y ≠ s → Spares y c c')
    (hmode : c.locks.mode? s k.table = some .exclusive) (hopen : (c.tx s).isOpen = true)
    (hallowed : (c.storage.contents k.table).Allows k) (hlocks : c'.locks = c.locks)
    (htx : c'.tx s = (c.tx s).pushAction
      (.ofRow (k.type (l.draft s).changes) s now k.table k.row)) (hsound : c'.storage.Sound)
    (hcontents : c'.storage.contents k.table = (c.storage.contents k.table).change k)
    (hrest : ∀ u, u ≠ k.table → c'.storage.contents u = c.storage.contents u) :
    c'.InStep (l.note s ((l.draft s).add k) none) := by
  have hnew (t : TableId) : onTable t ((l.note s ((l.draft s).add k) none).draft s).changes =
      onTable t (l.draft s).changes ++ if k.table = t then [k] else [] := by
    rw [Ledger.draft_note_self, Draft.add, onTable_append, onTable_singleton]
  refine h.goesOn hagree hothers hsound ((h.carries s).push hmode hopen hlocks htx) fun t => ?_
  by_cases ht : k.table = t
  · subst ht
    refine Or.inr ⟨hmode, fun hevolved => ?_⟩
    rw [hnew, if_pos rfl, hcontents]
    exact .step hevolved hallowed
  · refine Or.inl ⟨rfl, ?_, hrest t (Ne.symm ht)⟩
    rw [hnew, if_neg ht, List.append_nil]

/-- A session without changes gives back its locks. -/
theorem InStep.release (h : c.InStep l) (hagree : c.locks.HoldersAgree)
    (hothers : ∀ y, y ≠ s → Spares y c c') (hdata : c'.data = c.data)
    (hd : (l.draft s).changes = []) (hactions : (c'.tx s).actions = [])
    (hindex : (c'.tx s).rowIndex = ∅) : c'.InStep l := by
  have hstorage : c'.storage = c.storage := congrArg Prod.fst hdata
  have hspares := hothers (s + 1) (Nat.succ_ne_self s)
  refine h.of_leads hagree hothers (fun _ _ => rfl) (hstorage ▸ h.sound) ?_
    (fun t => Or.inl ⟨rfl, rfl, by rw [hstorage]⟩) h.timed fun k hk => ?_
  · rw [hd]
    exact carries_nil hactions hindex
  · have hpast := h.past k hk
    exact Nat.le_trans hpast hspares.clock

end Coordinator

end LockingDb
