import LockingDb.Proofs.FirstWrites
import LockingDb.Proofs.LogKeeping

namespace LockingDb

open Coordinator Session Change

namespace Coordinator

variable {c c' : Coordinator} {s : SessionId} {e : Option Event} {name other : String}
  {as : List RowAction} {q : RowAction → Prop} {i : Nat} {p : Savepoint}

/-- The session has a savepoint of the name. -/
def InPlace (c : Coordinator) (s : SessionId) (name : String) : Prop :=
  ∃ p ∈ (c.tx s).savepoints, p.name = name

/-- As long as the savepoint of the name is in place, it stands at the end of a part that the log
still starts with, and the actions after it are as told. -/
def Pinned (c : Coordinator) (s : SessionId) (name : String) (as : List RowAction)
    (q : RowAction → Prop) : Prop :=
  ∀ p ∈ (c.tx s).savepoints, p.name = name → p.logLength = as.length ∧
    ∃ more, (c.tx s).actions = as ++ more ∧ ∀ a ∈ more, q a

theorem Pinned.of_same (h : c.Pinned s name as q) (hactions : (c'.tx s).actions = (c.tx s).actions)
    (hsavepoints : (c'.tx s).savepoints = (c.tx s).savepoints) : c'.Pinned s name as q := by
  intro p hp hname
  rw [hsavepoints] at hp
  rw [hactions]
  exact h p hp hname

theorem Turn.pinned (h : Turn s c c' e) (hp : c.Pinned s name as q)
    (hq : ∀ a, (c'.tx s).actions = (c.tx s).actions ++ [a] → q a) : c'.Pinned s name as q := by
  cases h with
  | stays hwork howners hgoes => exact hp.of_same (actions_of_work hwork) (savepoints_of_work hwork)
  | @adds a kind hkind hactions hsavepoints hfree howners =>
    intro p hin hname
    rw [hsavepoints] at hin
    obtain ⟨hlength, more, hlog, hmore⟩ := hp p hin hname
    refine ⟨hlength, more ++ [a], by rw [hactions, hlog, List.append_assoc], fun b hb => ?_⟩
    rcases List.mem_append.mp hb with hold | hnew
    · exact hmore b hold
    · rw [List.mem_singleton.mp hnew]
      exact hq a hactions
  | @cuts _ n k hactions hsavepoints hfits hfrees hends =>
    intro p hin hname
    rw [hsavepoints] at hin
    obtain ⟨hlength, more, hlog, hmore⟩ := hp p (List.mem_of_mem_take hin) hname
    have hwithin : as.length ≤ n := hlength ▸ hfits p hin
    refine ⟨hlength, more.take (n - as.length), ?_, fun b hb => hmore b (List.mem_of_mem_take hb)⟩
    rw [hactions, hlog, List.take_append, List.take_of_length_le hwithin]

/-- Savepoints that are there after one is set were there before, but for the new one. -/
theorem Marks.mem_savepoints (h : Marks s other c c') (hp : p ∈ (c'.tx s).savepoints)
    (hne : p.name ≠ other) : p ∈ (c.tx s).savepoints := by
  rw [h.savepoints] at hp
  rcases List.mem_append.mp hp with hold | hnew
  · split at hold
    next => exact List.mem_of_mem_eraseIdx hold
    next => exact hold
  · rw [List.mem_singleton.mp hnew] at hne
    exact absurd rfl hne

theorem Marks.pinned (h : Marks s other c c') (hne : other ≠ name) (hp : c.Pinned s name as q) :
    c'.Pinned s name as q := by
  intro p hin hname
  rw [h.actions]
  exact hp p (h.mem_savepoints hin (hname ▸ hne.symm)) hname

/-- A savepoint that was set is at the end of the log. -/
theorem Marks.sets_pinned (h : Marks s name c c') (hs : c'.NamesApart s) :
    c'.Pinned s name (c.tx s).actions q := by
  have hlast : ⟨name, (c.tx s).actions.length, (c.tx s).actionAt⟩ ∈ (c'.tx s).savepoints := by
    rw [h.savepoints]
    exact List.mem_append_right _ List.mem_cons_self
  intro p hp hname
  obtain rfl := List.inj_on_of_nodup_map hs hp hlast hname
  exact ⟨rfl, [], by rw [h.actions, List.append_nil], nofun⟩

/-- A savepoint that stays was there before, and the transaction goes on. -/
theorem Turn.inPlace (h : Turn s c c' e) (hin : c'.InPlace s name) :
    c.InPlace s name ∧ ∀ event ∈ e, event.ends s = false := by
  obtain ⟨p, hp, hname⟩ := hin
  cases h with
  | stays hwork howners hgoes =>
    rw [savepoints_of_work hwork] at hp
    exact ⟨⟨p, hp, hname⟩, hgoes⟩
  | adds hkind hactions hsavepoints hfree howners =>
    rw [hsavepoints] at hp
    exact ⟨⟨p, hp, hname⟩, goesOn_access.ends⟩
  | cuts hactions hsavepoints hfits hfrees hends =>
    rw [hsavepoints] at hp
    refine ⟨⟨p, List.mem_of_mem_take hp, hname⟩, fun event hevent => ?_⟩
    refine Bool.eq_false_iff.mpr fun hend => ?_
    rw [hends event hevent hend] at hp
    cases hp

theorem Marks.inPlace (h : Marks s other c c') (hne : other ≠ name) (hin : c'.InPlace s name) :
    c.InPlace s name := by
  obtain ⟨p, hp, hname⟩ := hin
  exact ⟨p, h.mem_savepoints hp (hname ▸ hne.symm), hname⟩

end Coordinator

namespace Session

variable {s : SessionId} {c : Coordinator} {x : Session} {d : Draft} {n : String × List Change}
  {k : SessionCall}

/-- A step of a session marks no savepoint in its draft. -/
theorem mem_savepoints_redraft (hn : n ∈ (x.redraft s c d).savepoints) : n ∈ d.savepoints := by
  unfold redraft at hn
  split at hn
  next => exact hn
  next => split at hn <;> exact hn
  next => split at hn <;> exact hn
  next => split at hn <;> exact hn
  next => exact hn
  next => split at hn <;> exact hn
  next =>
    split at hn
    next => exact hn
    next => cases hn
  next => cases hn
  next => exact hn

theorem mem_savepoints_undoTo {i : Nat} (hn : n ∈ (d.undoTo i).savepoints) : n ∈ d.savepoints := by
  unfold Draft.undoTo at hn
  split at hn
  next => exact List.mem_of_mem_take hn
  next => exact hn

theorem mem_savepoints_redraftCall (hn : n ∈ (x.redraftCall d k).savepoints) :
    n ∈ d.savepoints ∨ x.closed = false ∧ k = .savepoint n.1 := by
  unfold redraftCall at hn
  split at hn
  next => exact .inl hn
  next hopen =>
    split at hn
    next name =>
      rcases List.mem_append.mp hn with hold | hnew
      · left
        split at hold
        next => exact List.mem_of_mem_eraseIdx hold
        next => exact hold
      · rw [List.mem_singleton.mp hnew]
        exact .inr ⟨Bool.eq_false_iff.mpr hopen, rfl⟩
    next name =>
      left
      unfold Draft.undoToName at hn
      split at hn
      next => exact mem_savepoints_undoTo hn
      next => exact hn
    next => exact .inl (mem_savepoints_undoTo hn)
    next name =>
      left
      unfold Draft.release at hn
      split at hn
      next => exact List.mem_of_mem_take hn
      next => exact hn
    next => cases hn
    next => exact .inl hn

/-- A rollback to a savepoint that is there is done. -/
theorem call_rollbackTo {name : String} {i : Nat} {p : Savepoint} (hclosed : x.closed = false)
    (hplace : (c.tx s).savepointIndex? name = some i) (hp : (c.tx s).savepoints[i]? = some p) :
    (x.call s c (.rollbackTo name)).1.reply = some (.ok .done) ∧
      ((x.call s c (.rollbackTo name)).2.tx s).actions = (c.tx s).actions.take p.logLength ∧
      ((x.call s c (.rollbackTo name)).2.tx s).savepoints = (c.tx s).savepoints.take (i + 1) ∧
      Unmoved s c (x.call s c (.rollbackTo name)).2 := by
  have hfound : c.rollbackToSavepoint s name = c.rollbackToIndex s i := by
    unfold Coordinator.rollbackToSavepoint
    rw [hplace]
  have hmoved : Unmoved s c (c.rollbackToIndex s i).2 := unmoved_rollbackToIndex
  obtain ⟨hdone, hactions, hsavepoints, -⟩ := rollbackToIndex_undone hp
  rw [call_of_open hclosed]
  simp only [callOpen, hfound]
  generalize c.rollbackToIndex s i = undone at hmoved hdone hactions hsavepoints
  obtain ⟨answer, c₁⟩ := undone
  subst hdone
  exact ⟨rfl, hactions, hsavepoints, hmoved.trans unmoved_noteStatement⟩

end Session

namespace Database

variable {db : Database} {l : Ledger} {s y : SessionId} {m : Move} {moves : List Move}
  {n : String × List Change} {name : String} {as : List RowAction} {q : RowAction → Prop}
  {t : TableId} {k : SessionCall}

theorem mem_savepoints_recordCall (hn : n ∈ ((db.recordCall l y k).draft s).savepoints) :
    n ∈ (l.draft s).savepoints ∨ y = s ∧ k = .savepoint n.1 ∧
      (db.sessions.get? s).any (fun x => x.isIdle && !x.closed) = true := by
  unfold recordCall at hn
  split at hn
  next x hx =>
    split at hn
    next hidle =>
      rw [Ledger.draft_note] at hn
      split at hn
      next hs =>
        subst hs
        refine (mem_savepoints_redraftCall hn).imp id ?_
        rintro ⟨hopen, hk⟩
        exact ⟨rfl, hk, by simp [hx, hidle, hopen]⟩
      next => exact .inl hn
    next => exact .inl hn
  next => exact .inl hn

/-- A savepoint of the draft was there before, unless it is set now. -/
theorem mem_savepoints_record (hset : db.sets s n.1 m = false)
    (hn : n ∈ ((db.record l m).draft s).savepoints) : n ∈ (l.draft s).savepoints := by
  cases m with
  | advance y =>
    simp only [record] at hn
    split at hn
    next x hx =>
      by_cases hs : y = s
      · subst hs
        rw [Ledger.draft_note_self] at hn
        exact mem_savepoints_redraft hn
      · rwa [Ledger.draft_note_of_ne (Ne.symm hs)] at hn
    next => exact hn
  | call y k =>
    rcases mem_savepoints_recordCall hn with hold | ⟨rfl, rfl, hany⟩
    · exact hold
    · simp [sets, hany] at hset
  | drop y =>
    rcases mem_savepoints_recordCall hn with hold | ⟨-, hk, -⟩
    · exact hold
    · cases hk
  | _ => exact hn

/-- No move of a run is of the kind. -/
def Never (db : Database) (kind : Database → Move → Bool) : List Move → Prop
  | [] => True
  | m :: rest => kind db m = false ∧ (db.perform m).Never kind rest

instance instDecidableNever (db : Database) (kind : Database → Move → Bool) : (moves : List Move) →
    Decidable (db.Never kind moves)
  | [] => inferInstanceAs (Decidable True)
  | m :: rest =>
    have := instDecidableNever (db.perform m) kind rest
    inferInstanceAs (Decidable (kind db m = false ∧ (db.perform m).Never kind rest))

theorem never_append {kind : Database → Move → Bool} {rest : List Move} :
    db.Never kind (moves ++ rest) ↔ db.Never kind moves ∧ (db.run moves).Never kind rest := by
  induction moves generalizing db with
  | nil => exact ⟨fun h => ⟨trivial, h⟩, And.right⟩
  | cons m moves ih =>
    show _ ∧ (db.perform m).Never kind (moves ++ rest) ↔ (_ ∧ (db.perform m).Never kind moves) ∧ _
    rw [ih, and_assoc]
    rfl

/-- The move adds an action on the table to the log of the session. -/
def records (db : Database) (s : SessionId) (t : TableId) (m : Move) : Bool :=
  (db.grown s m).any (·.store == t)

theorem ne_of_sets {other : String} (hother : db.sets s other m = true)
    (hset : db.sets s name m = false) : other ≠ name := by
  rintro rfl
  rw [hother] at hset
  cases hset

theorem WellKept.pinned (h : db.WellKept l) (hset : db.sets s name m = false)
    (hp : db.coordinator.Pinned s name as q)
    (hq : ∀ a, ((db.perform m).coordinator.tx s).actions =
      (db.coordinator.tx s).actions ++ [a] → q a) :
    (db.perform m).coordinator.Pinned s name as q := by
  by_cases hown : m.mover? = some s
  · rcases h.turn hown with hturn | ⟨other, hother, hmarks⟩
    · exact hturn.pinned hp hq
    · exact hmarks.pinned (ne_of_sets hother hset) hp
  · rcases h.standing.tx_of_other hown with ⟨signals, htx⟩ | ⟨-, level, htx⟩
    · exact hp.of_same (by rw [htx]) (by rw [htx])
    · intro p hin
      rw [htx] at hin
      cases hin

/-- A savepoint that stays was there before, and the transaction goes on. -/
theorem WellKept.inPlace (h : db.WellKept l) (hset : db.sets s name m = false)
    (hin : (db.perform m).coordinator.InPlace s name) :
    db.coordinator.InPlace s name ∧ ∀ event ∈ db.observe m, event.ends s = false := by
  by_cases hown : m.mover? = some s
  · rcases h.turn hown with hturn | ⟨other, hother, hmarks⟩
    · exact hturn.inPlace hin
    · refine ⟨hmarks.inPlace (ne_of_sets hother hset) hin, ?_⟩
      rw [observe_of_sets hother]
      exact nofun
  · refine ⟨?_, fun event hevent => Bool.eq_false_iff.mpr fun hends =>
      hown (observe_ends hevent hends)⟩
    obtain ⟨p, hp, hname⟩ := hin
    rcases h.standing.tx_of_other hown with ⟨signals, htx⟩ | ⟨-, level, htx⟩
    · rw [htx] at hp
      exact ⟨p, hp, hname⟩
    · rw [htx] at hp
      cases hp

theorem WellKept.inPlace_run (h : db.WellKept l) (hmoves : db.RunsInside moves)
    (honce : db.Never (·.sets s name) moves) (hin : (db.run moves).coordinator.InPlace s name) :
    db.coordinator.InPlace s name ∧ ∀ event ∈ db.history moves, event.ends s = false := by
  induction moves generalizing db l with
  | nil => exact ⟨hin, nofun⟩
  | cons m rest ih =>
    obtain ⟨hinside, hnext, hrest⟩ := hmoves
    obtain ⟨hset, hnever⟩ := honce
    obtain ⟨hplace, hlater⟩ := ih (h.perform hinside hnext) hrest hnever hin
    obtain ⟨hbefore, hgoes⟩ := h.inPlace hset hplace
    refine ⟨hbefore, fun event hevent => ?_⟩
    rcases List.mem_append.mp hevent with hfirst | hlate
    · exact hgoes event (Option.mem_toList.mp hfirst)
    · exact hlater event hlate

/-- In a run on which a savepoint of a session was set: what its log and its draft keep of it, as
long as it stays in place. -/
structure Anchored (db : Database) (l : Ledger) (s : SessionId) (name : String)
    (as : List RowAction) (ks : List Change) (q : RowAction → Prop) : Prop where
  wellKept : db.WellKept l
  pinned : db.coordinator.Pinned s name as q
  drafted : ∀ n ∈ (l.draft s).savepoints, n.1 = name → n.2 = ks

theorem Anchored.run {kind : Database → Move → Bool} (h : db.Anchored l s name as ks q)
    (hmoves : db.RunsInside moves) (honce : db.Never (·.sets s name) moves)
    (hnone : db.Never kind moves)
    (hq : ∀ (db : Database) m a, kind db m = false → ((db.perform m).coordinator.tx s).actions =
      (db.coordinator.tx s).actions ++ [a] → q a) :
    (db.run moves).Anchored (db.ledger l moves) s name as ks q := by
  induction moves generalizing db l with
  | nil => exact h
  | cons m rest ih =>
    obtain ⟨hinside, hnext, hrest⟩ := hmoves
    obtain ⟨hset, hnever⟩ := honce
    obtain ⟨hkind, hfree⟩ := hnone
    refine ih ⟨h.wellKept.perform hinside hnext, ?_, fun n hn hname => ?_⟩ hrest hnever hfree
    · exact h.wellKept.pinned hset h.pinned fun a => hq db m a hkind
    · subst hname
      exact h.drafted n (mem_savepoints_record hset hn) rfl

/-- The log and the draft of the session go on from those at the savepoint. -/
theorem Anchored.goesOn (h : db.Anchored l s name as ks q)
    (hmarked : (l.draft s).Marked (db.coordinator.tx s)) (hin : db.coordinator.InPlace s name) :
    ∃ more js, (db.coordinator.tx s).actions = as ++ more ∧ (l.draft s).changes = ks ++ js ∧
      List.Forall₂ RowAction.Notes more js ∧ ∀ a ∈ more, q a := by
  obtain ⟨p, hp, hname⟩ := hin
  obtain ⟨n, hn, hmark, hlength⟩ := hmarked.exists_mark_of_mem hp
  obtain ⟨hfits, more, hlog, hmore⟩ := h.pinned p hp hname
  have hkept := hmarked.kept n hn
  rw [h.drafted n hn (hmark.trans hname)] at hkept hlength
  obtain ⟨js, hchanges⟩ := hkept
  have hnotes := (h.wellKept.faithful.inStep.carries s).logged.notes
  rw [hlog, ← hchanges] at hnotes
  have hrest := List.forall₂_drop as.length hnotes
  rw [List.drop_left, List.drop_left' (hlength.trans hfits)] at hrest
  exact ⟨more, js, hlog, hchanges.symm, hrest, hmore⟩

/-- A session that writes is open. -/
theorem Faithful.marked_of_write (hf : db.Faithful l) {kind : AccessKind}
    (he : db.observe m = some (.access ⟨s, t, kind⟩)) (hkind : kind.isWrite = true) :
    (l.draft s).Marked (db.coordinator.tx s) := by
  cases m with
  | advance y =>
    obtain ⟨x, hx, he⟩ := Option.bind_eq_some_iff.mp he
    have hengaged := hf.engaged y x hx
    obtain ⟨rfl, -, -⟩ := hengaged.of_write he hkind
    refine hengaged.marked (Bool.eq_false_iff.mpr fun hclosed => ?_)
    simp only [Session.observe, hengaged.resting hclosed] at he
    cases he
  | call y k => exact absurd he callEvent?_ne_access
  | drop y => exact absurd he callEvent?_ne_access
  | _ => cases he

/-- A move that adds an action on a table to the log is a write to the table. -/
theorem WellKept.write_of_records (h : db.WellKept l) (hrecords : db.records s t m = true) :
    ∃ kind : AccessKind, kind.isWrite = true ∧ db.observe m = some (.access ⟨s, t, kind⟩) := by
  obtain ⟨a, ha, hstore⟩ := List.any_eq_true.mp hrecords
  unfold grown at ha
  have hnone {n : Nat} (hcut : ((db.perform m).coordinator.tx s).actions =
      (db.coordinator.tx s).actions.take n) : False := by
    rw [hcut, List.drop_eq_nil_of_le (List.length_take_le' _ _)] at ha
    cases ha
  have hsame (heq : ((db.perform m).coordinator.tx s).actions =
      (db.coordinator.tx s).actions) : False :=
    hnone (heq.trans List.take_length.symm)
  by_cases hown : m.mover? = some s
  · rcases h.turn hown with hturn | ⟨other, -, hmarks⟩
    · generalize db.observe m = e at hturn
      cases hturn with
      | stays hwork howners hgoes => exact (hsame (actions_of_work hwork)).elim
      | @adds b kind hkind hactions hsavepoints hfree howners =>
        rw [hactions, List.drop_left, List.mem_singleton] at ha
        rw [ha] at hstore
        rw [← eq_of_beq hstore]
        exact ⟨kind, hkind, rfl⟩
      | cuts hactions hsavepoints hfits hfrees hends => exact (hnone hactions).elim
    · exact (hsame hmarks.actions).elim
  · exact (hsame (h.standing.actions_of_other hown)).elim

theorem store_ne_of_records (hnone : db.records s t m = false) {a : RowAction}
    (hlog : ((db.perform m).coordinator.tx s).actions = (db.coordinator.tx s).actions ++ [a]) :
    a.store ≠ t := by
  unfold records grown at hnone
  rw [hlog, List.drop_left] at hnone
  simpa using hnone

theorem draft_call {x : Session} (hx : db.sessions.get? s = some x) (hidle : x.isIdle = true) :
    (db.record l (.call s k)).draft s = x.redraftCall (l.draft s) k := by
  show (db.recordCall l s k).draft s = _
  unfold recordCall
  rw [hx]
  simp only [hidle, if_true, Ledger.draft_note_self]

theorem exists_of_sets (hset : db.sets s name m = true) : ∃ x, db.sessions.get? s = some x ∧
    x.isIdle = true ∧ x.closed = false ∧ m = .call s (.savepoint name) := by
  cases m with
  | call y k =>
    cases k with
    | savepoint other =>
      simp only [sets, Bool.and_eq_true, Option.any_eq_true, Bool.not_eq_true', beq_iff_eq] at hset
      obtain ⟨⟨rfl, rfl⟩, x, hx, hidle, hopen⟩ := hset
      exact ⟨x, hx, hidle, hopen, rfl⟩
    | _ => cases hset
  | _ => cases hset

/-- A savepoint is set at the end of the log and of the draft. -/
theorem WellKept.anchored (h : db.WellKept l) (hset : db.sets s name m = true)
    (hnext : (db.perform m).coordinator.storage.nextRow ≠ 0) :
    (db.perform m).Anchored (db.record l m) s name (db.coordinator.tx s).actions
        (l.draft s).changes q ∧
      ((db.perform m).coordinator.tx s).actions = (db.coordinator.tx s).actions := by
  obtain ⟨x, hx, hidle, hopen, rfl⟩ := exists_of_sets hset
  have hperform := perform_call (k := .savepoint name) hx hidle
  have hmarks : Marks s name db.coordinator (db.perform (.call s (.savepoint name))).coordinator := by
    rw [hperform, call_of_open hopen]
    exact marks_savepoint (x := { x with reply := none, runs := 0 })
  have hdraft : (db.record l (.call s (.savepoint name))).draft s = (l.draft s).setSavepoint name := by
    rw [draft_call hx hidle, redraftCall, hopen]
    rfl
  have hafter := h.perform (m := .call s (.savepoint name)) rfl hnext
  refine ⟨⟨hafter, hmarks.sets_pinned (hafter.namesApart s), fun n hn hname => ?_⟩, hmarks.actions⟩
  -- The marks of the draft have the names of the savepoints, which are different.
  have hnow : (db.perform (.call s (.savepoint name))).sessions.get? s =
      some (x.call s db.coordinator (.savepoint name)).1 := by
    rw [hperform]
    exact IdMap.get?_insert_self
  have hstays : (x.call s db.coordinator (.savepoint name)).1.closed = false := by
    rw [call_of_open hopen]
    exact hopen
  have hmarked := (hafter.faithful.engaged s _ hnow).marked hstays
  have hnames := hafter.namesApart s
  unfold NamesApart at hnames
  rw [hmarked.names] at hnames
  have hlast : (name, (l.draft s).changes) ∈
      ((db.record l (.call s (.savepoint name))).draft s).savepoints := by
    rw [hdraft]
    exact List.mem_append_right _ List.mem_cons_self
  exact congrArg Prod.snd (List.inj_on_of_nodup_map hnames hn hlast hname)

/-- Before a table is first changed after the savepoint, it is where the changes before the savepoint
lead from the committed rows. -/
theorem Anchored.owns (h : db.Anchored l s name as ks (·.store ≠ t))
    (hin : db.coordinator.InPlace s name) (hrecords : db.records s t m = true) :
    db.Owns l s t (l.rows t) ∧
      Contents.Evolved (l.rows t) (onTable t ks) (db.coordinator.storage.contents t) := by
  obtain ⟨kind, hkind, hwrite⟩ := h.wellKept.write_of_records hrecords
  have howns := h.wellKept.faithful.owns_of_write hwrite hkind
  obtain ⟨more, js, -, hchanges, hnotes, hother⟩ :=
    h.goesOn (h.wellKept.faithful.marked_of_write hwrite hkind) hin
  have hnone : onTable t js = [] := by
    refine onTable_eq_nil.mpr fun k hk ht => ?_
    obtain ⟨a, ha, hnoted⟩ := exists_action_of_mem hnotes hk
    exact hother a ha (hnoted.store.trans ht)
  have hevolved := howns.evolved
  rw [hchanges, onTable_append, hnone, List.append_nil] at hevolved
  exact ⟨howns, hevolved⟩

/-- A rollback to the savepoint leads back to the log and the draft at the savepoint. -/
theorem Anchored.undone {x : Session} {i : Nat} (h : db.Anchored l s name as ks q)
    (hx : db.sessions.get? s = some x) (hidle : x.isIdle = true) (hopen : x.closed = false)
    (hplace : (db.coordinator.tx s).savepointIndex? name = some i) :
    ((db.perform (.call s (.rollbackTo name))).sessions.get? s).bind Session.reply =
        some (.ok .done) ∧
      ((db.perform (.call s (.rollbackTo name))).coordinator.tx s).actions = as ∧
      ((db.perform (.call s (.rollbackTo name))).coordinator.tx s).savepoints =
        (db.coordinator.tx s).savepoints.take (i + 1) ∧
      Unmoved s db.coordinator (db.perform (.call s (.rollbackTo name))).coordinator ∧
      ((db.record l (.call s (.rollbackTo name))).draft s).changes = ks := by
  obtain ⟨hi, hname, -⟩ := List.findIdx?_eq_some_iff_getElem.mp hplace
  have hmem := List.getElem_mem hi
  have hp : (db.coordinator.tx s).savepoints[i]? = some (db.coordinator.tx s).savepoints[i] :=
    List.getElem?_eq_getElem hi
  generalize (db.coordinator.tx s).savepoints[i] = p at hname hmem hp
  have hmarked := (h.wellKept.faithful.engaged s x hx).marked hopen
  obtain ⟨n, hn, hmark, hlength⟩ := hmarked.exists_mark hp
  have hkeeps := h.drafted n (List.mem_of_getElem? hn) (hmark.trans (of_decide_eq_true hname))
  obtain ⟨hfits, more, hlog, -⟩ := h.pinned p hmem (of_decide_eq_true hname)
  obtain ⟨hreply, hactions, hsavepoints, hmoved⟩ := call_rollbackTo hopen hplace hp
  have hundone : (l.draft s).undoToName name = (l.draft s).undoTo i := by
    unfold Draft.undoToName
    rw [← hmarked.savepointIndex?, hplace]
  have hdraft : (db.record l (.call s (.rollbackTo name))).draft s = (l.draft s).undoTo i := by
    rw [draft_call hx hidle, redraftCall, hopen]
    exact hundone
  rw [perform_call hx hidle, hdraft, Draft.undoTo_changes hn]
  refine ⟨?_, ?_, hsavepoints, hmoved, hkeeps⟩
  · show ((db.sessions.insert s _).get? s).bind Session.reply = _
    rw [IdMap.get?_insert_self]
    exact hreply
  · show ((x.call s db.coordinator (.rollbackTo name)).2.tx s).actions = as
    rw [hactions, hlog, hfits, List.take_left]

/-- A savepoint is set. When the session goes back to it later and it is still in place, log, rows
owned and savepoints are as they were, and so is every table with changes after the savepoint: it has
the visible and the allocated rows that it had before the first of them. Locks and transaction stay. -/
theorem savepoint_rollback_restores {settings : Settings} {journal : Journal}
    {before during : List Move} {set : Move} {point late after : Database} {x : Session} {i : Nat}
    (hopen : openWith? settings journal = .ok db)
    (hinside : db.RunsInside (before ++ set :: during ++ [.call s (.rollbackTo name)]))
    (hset : (db.run before).sets s name set = true)
    (hpoint : (db.run before).perform set = point) (hlate : point.run during = late)
    (hafter : late.perform (.call s (.rollbackTo name)) = after)
    (honce : point.Never (·.sets s name) during) (hx : late.sessions.get? s = some x)
    (hidle : x.isIdle = true) (hlive : x.closed = false)
    (hplace : (late.coordinator.tx s).savepointIndex? name = some i) :
    (after.sessions.get? s).bind Session.reply = some (.ok .done) ∧
      (after.coordinator.tx s).actions = (point.coordinator.tx s).actions ∧
      (∀ t first write last, during = first ++ write :: last →
        point.Never (·.records s t) first → (point.run first).records s t write = true →
        after.coordinator.storage.scan t = (point.run first).coordinator.storage.scan t ∧
          ∀ p, after.coordinator.storage.get? t p =
            (point.run first).coordinator.storage.get? t p) ∧
      (∀ row, after.coordinator.owners.owner? row = some s ↔
        ∃ a ∈ (point.coordinator.tx s).actions, a.row = row) ∧
      (after.coordinator.tx s).savepoints = (late.coordinator.tx s).savepoints.take (i + 1) ∧
      after.coordinator.locks = late.coordinator.locks ∧
      (after.coordinator.tx s).isOpen = (late.coordinator.tx s).isOpen := by
  obtain ⟨hrun, hend⟩ := runsInside_append.mp hinside
  obtain ⟨hbefore, -, hnext, hduring⟩ := runsInside_append.mp hrun
  have hall : db.run (before ++ set :: during) = late := by
    rw [run_append, ← hlate, ← hpoint]
    rfl
  rw [hall] at hend
  have hstart (q : RowAction → Prop) := ((wellKept_openWith hopen).run hbefore).anchored (q := q) hset hnext
  simp only [hpoint] at hstart hduring
  obtain ⟨p, hp, hname⟩ := List.findIdx?_eq_some_iff_getElem.mp hplace
  have hin : late.coordinator.InPlace s name :=
    ⟨_, List.getElem_mem p, of_decide_eq_true hp⟩
  have hlast := (hstart fun _ => True).1.run hduring honce honce fun _ _ _ _ _ => trivial
  rw [hlate] at hlast
  obtain ⟨hreply, hactions, hsavepoints, hmoved, hdraft⟩ := hlast.undone hx hidle hlive hplace
  have hkept := hlast.wellKept.perform hend.1 hend.2.1
  rw [hafter] at hreply hactions hsavepoints hmoved hkept
  have hrestored := hactions.trans (hstart fun _ => True).2.symm
  refine ⟨hreply, hrestored, ?_, fun row => ?_, hsavepoints, hmoved.locks, hmoved.isOpen⟩
  · rintro t first write last rfl hnone hrecords
    obtain ⟨hfirst, hwrite⟩ := runsInside_append.mp hduring
    obtain ⟨honceFirst, honceLast⟩ := never_append.mp honce
    have hthen : (point.run first).run (write :: last) = late := by rw [← run_append, hlate]
    have huntil := (hstart (·.store ≠ t)).1.run hfirst honceFirst hnone
      fun _ _ _ hnot hlog => store_ne_of_records hnot hlog
    obtain ⟨hthere, hgoes⟩ := huntil.wellKept.inPlace_run hwrite honceLast (hthen ▸ hin)
    obtain ⟨howns, hevolved⟩ := huntil.owns hthere hrecords
    have hheld := howns.run hwrite hgoes
    rw [← ledger_append, hthen] at hheld
    have hfollows := hheld.faithful.perform hend.1 hend.2.1
    have hsilent : late.observe (.call s (.rollbackTo name)) = none := observe_call nofun
    have hdone := hheld.step hfollows (by rw [hsilent]; exact nofun)
    -- The draft is again the one at the savepoint, and so was its part on the table until the write.
    have hback := hdone.evolved
    rw [hdraft, hafter] at hback
    have hsame := hback.unique hevolved
    exact ⟨by rw [Storage.scan_eq, Storage.scan_eq, hsame],
      fun p => by rw [Storage.get?_eq, Storage.get?_eq, hsame]⟩
  · rw [hkept.owner?_eq_some, hrestored]

/-- A session with a deleted row sets a savepoint. It inserts a row, deletes another one, sets a
second savepoint, and goes back to the first one. -/
def oneDeleted : List Move := twoRows ++ List.replicate 4 (.advance 1)

def untilInsert : List Move :=
  .call 1 (.execute ⟨.write [1], fun _ => .insert 1 [] fun _ => .delete 1 2 fun _ => .done ⟨2, []⟩⟩) ::
    List.replicate 3 (.advance 1)

def insertAndDelete : List Move :=
  untilInsert ++ .advance 1 :: (List.replicate 4 (.advance 1) ++ [.call 1 (.savepoint "b")])

theorem savepoint_rollback_restores_insertAndDelete : ∃ db point late after,
    openWith? .default .empty = .ok db ∧
    (db.run oneDeleted).perform (.call 1 (.savepoint "a")) = point ∧
    point.run insertAndDelete = late ∧ late.perform (.call 1 (.rollbackTo "a")) = after ∧
    (late.coordinator.tx 1).actions.length = 3 ∧ (late.coordinator.tx 1).savepoints.length = 2 ∧
    (after.coordinator.tx 1).actions = (point.coordinator.tx 1).actions ∧
    after.coordinator.storage.scan 1 = (point.run untilInsert).coordinator.storage.scan 1 ∧
    (after.coordinator.tx 1).savepoints = (late.coordinator.tx 1).savepoints.take 1 := by
  obtain ⟨db, hopen⟩ : ∃ db, openWith? .default .empty = .ok db := ⟨_, rfl⟩
  have hdb := openWith?_eq hopen
  obtain ⟨point, hpoint⟩ : ∃ point, (db.run oneDeleted).perform (.call 1 (.savepoint "a")) = point :=
    ⟨_, rfl⟩
  obtain ⟨late, hlate⟩ : ∃ late, point.run insertAndDelete = late := ⟨_, rfl⟩
  obtain ⟨after, hafter⟩ : ∃ after, late.perform (.call 1 (.rollbackTo "a")) = after := ⟨_, rfl⟩
  have hinside : db.RunsInside (oneDeleted ++ .call 1 (.savepoint "a") :: insertAndDelete ++
      [.call 1 (.rollbackTo "a")]) := by
    rw [hdb]
    decide
  have hset : (db.run oneDeleted).sets 1 "a" (.call 1 (.savepoint "a")) = true := by
    rw [hdb]
    decide
  have honce : point.Never (·.sets 1 "a") insertAndDelete := by
    rw [← hpoint, hdb]
    decide
  have hnone : point.Never (·.records 1 1) untilInsert := by
    rw [← hpoint, hdb]
    decide
  have hwrite : (point.run untilInsert).records 1 1 (.advance 1) = true := by
    rw [← hpoint, hdb]
    decide
  have hidle : (late.sessions.get? 1).any (fun x => x.isIdle && !x.closed) = true := by
    rw [← hlate, ← hpoint, hdb]
    decide
  obtain ⟨x, hx, hresting⟩ := (Option.any_eq_true _ _).mp hidle
  simp only [Bool.and_eq_true, Bool.not_eq_true'] at hresting
  have hplace : (late.coordinator.tx 1).savepointIndex? "a" = some 0 := by
    rw [← hlate, ← hpoint, hdb]
    decide
  have hgrown : (late.coordinator.tx 1).actions.length = 3 ∧
      (late.coordinator.tx 1).savepoints.length = 2 := by
    rw [← hlate, ← hpoint, hdb]
    decide
  obtain ⟨-, hactions, htables, -, hsavepoints, -⟩ := savepoint_rollback_restores hopen hinside hset
    hpoint hlate hafter honce hx hresting.1 hresting.2 hplace
  obtain ⟨hscan, -⟩ := htables 1 untilInsert (.advance 1) _ rfl hnone hwrite
  exact ⟨db, point, late, after, hopen, hpoint, hlate, hafter, hgrown.1, hgrown.2, hactions, hscan,
    hsavepoints⟩

end Database

end LockingDb
