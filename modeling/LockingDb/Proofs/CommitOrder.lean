import LockingDb.Proofs.SessionCalls

namespace LockingDb

open Coordinator Session

variable {h : List Event} {s y : SessionId} {x x' : Session} {c c' : Coordinator}
  {e : Option Event} {i : Nat} {a : Access} {db : Database}

/-- The accesses of open transactions are guarded by locks, and the history is two-phased. -/
structure Coordinator.Recorded (c : Coordinator) (h : List Event) : Prop where
  guarded : ∀ i a, Live h i a → c.Guards a ∧ a.session < c.nextSession
  past : ∀ (k : Nat) (s : SessionId) (now : Timestamp), h[k]? = some (.committed s now) →
    now ≤ c.clock.current
  twoPhased : TwoPhased h

namespace Coordinator

theorem Recorded.goesOn (hr : c.Recorded h)
    (hkeeps : ∀ y, y < c.nextSession → KeepsGuards y c c')
    (hnext : c.nextSession ≤ c'.nextSession) (hclock : c.clock.current ≤ c'.clock.current) :
    c'.Recorded h := by
  refine ⟨fun i a hlive => ?_, fun k y now hk => ?_, hr.twoPhased⟩
  · obtain ⟨hguards, hknown⟩ := hr.guarded i a hlive
    have hguards' := hkeeps a.session hknown a rfl hguards
    exact ⟨hguards', Nat.lt_of_lt_of_le hknown hnext⟩
  · have hpast := hr.past k y now hk
    exact Nat.le_trans hpast hclock

-- Who accesses a table has the lock for it, so no open transaction of another session has made a
-- conflicting access.
theorem Recorded.works (hr : c.Recorded h) (hagree : c.locks.HoldersAgree)
    (hguards : c.Guards a) (hknown : a.session < c.nextSession) :
    c.Recorded (h ++ [.access a]) := by
  refine ⟨fun i b hlive => ?_, fun k y now hk => ?_, hr.twoPhased.concat ?_ nofun⟩
  · rcases live_concat hlive with ⟨hbefore, -⟩ | heq
    · exact hr.guarded i b hbefore
    · cases heq
      exact ⟨hguards, hknown⟩
  · rw [getElem?_concat] at hk
    split at hk
    next => cases hk
    next => exact hr.past k y now hk
  · rintro b heq i a' hlive hs
    cases heq
    obtain ⟨hheld, -⟩ := hr.guarded i a' hlive
    exact hheld.apart hguards hagree hs

-- The end of a transaction takes its own accesses out of the live ones and leaves the others.
theorem Recorded.ends (hr : c.Recorded h) {e : Event} (hend : e.ends s = true)
    (hkeeps : ∀ y, y ≠ s → KeepsGuards y c c') (hnext : c'.nextSession = c.nextSession)
    (hclock : c.clock.current ≤ c'.clock.current)
    (hnow : ∀ y now, e = .committed y now → c.clock.current < now ∧ now ≤ c'.clock.current) :
    c'.Recorded (h ++ [e]) := by
  refine ⟨fun i a hlive => ?_, fun k y now hk => ?_, hr.twoPhased.concat ?_ ?_⟩
  · rcases live_concat hlive with ⟨hbefore, hopen⟩ | rfl
    · have hs : a.session ≠ s := by
        rintro rfl
        rw [hend] at hopen
        cases hopen
      obtain ⟨hguards, hknown⟩ := hr.guarded i a hbefore
      have hguards' := hkeeps a.session hs a rfl hguards
      exact ⟨hguards', hnext ▸ hknown⟩
    · cases hend
  · rw [getElem?_concat] at hk
    split at hk
    next =>
      obtain ⟨-, hlate⟩ := hnow y now (Option.some.inj hk)
      exact hlate
    next =>
      have hpast := hr.past k y now hk
      exact Nat.le_trans hpast hclock
  · rintro b rfl
    cases hend
  · intro y now he k x before hk
    have hpast := hr.past k x before hk
    obtain ⟨hearly, -⟩ := hnow y now he
    exact Nat.lt_of_le_of_lt hpast hearly

theorem Recorded.of_acts (hr : c.Recorded h) (hagree : c.locks.HoldersAgree)
    (hothers : ∀ y, y ≠ s → Spares y c c') (hknown : s < c.nextSession) (hacts : Acts s c c' e) :
    c'.Recorded (h ++ e.toList) := by
  have hspares := hothers (s + 1) (Nat.succ_ne_self s)
  have hnext := hspares.nextSession
  have hclock := hspares.clock
  have hguards (y : SessionId) (hy : y ≠ s) : KeepsGuards y c c' :=
    (hothers y hy).retains.keepsGuards
  have hall (hself : KeepsGuards s c c') (y : SessionId) : KeepsGuards y c c' := by
    by_cases hy : y = s
    · exact hy ▸ hself
    · exact hguards y hy
  cases hacts with
  | goesOn hself =>
    rw [Option.toList_none, List.append_nil]
    exact hr.goesOn (fun y _ => hall hself y) hnext.ge hclock
  | works hs hheld hself =>
    have hrecorded := hr.works hagree hheld (hs ▸ hknown)
    exact hrecorded.goesOn (fun y _ => hall hself y) hnext.ge hclock
  | commits hearly hlate =>
    refine hr.ends (by simp [Event.ends]) hguards hnext hclock fun y now heq => ?_
    cases heq
    exact ⟨hearly, hlate⟩
  | rollsBack => exact hr.ends (by simp [Event.ends]) hguards hnext hclock fun _ _ he => by cases he

end Coordinator

namespace Database

/-- Every session has the locks that its statement needs, and the history is in order. -/
structure Orderly (db : Database) (h : List Event) : Prop where
  coherent : db.coordinator.locks.Coherent
  covered : ∀ s, db.coordinator.Covered s
  locked : ∀ s x, db.sessions.get? s = some x → x.Locked s db.coordinator
  known : ∀ s x, db.sessions.get? s = some x → s < db.coordinator.nextSession
  recorded : db.coordinator.Recorded h

theorem Orderly.of_advances (ho : db.Orderly h) (hs : db.sessions.get? s = some x)
    (ha : Advances s db.coordinator e x' c') :
    ({ db with coordinator := c', sessions := db.sessions.insert s x' } : Database).Orderly
      (h ++ e.toList) := by
  have hspares := ha.others (s + 1) (Nat.succ_ne_self s)
  have hknown := ho.known s x hs
  refine ⟨hspares.coherent ho.coherent, fun y => ?_, fun y z hz => ?_, fun y z hz => ?_, ?_⟩
  · by_cases hy : y = s
    · exact hy ▸ ha.covered (ho.covered s)
    · exact (ha.others y hy).retains.covered (ho.covered y)
  · rw [IdMap.get?_insert] at hz
    split at hz
    next hy =>
      cases hz
      exact hy ▸ ha.locked
    next hy => exact (ho.locked y z hz).of_retains (ha.others y hy).retains
  · rw [hspares.nextSession]
    rw [IdMap.get?_insert] at hz
    split at hz
    next hy => exact hy ▸ hknown
    next hy => exact ho.known y z hz
  · exact ho.recorded.of_acts ho.coherent.toHoldersAgree ha.others hknown ha.acts

theorem Orderly.withSession (ho : db.Orderly h)
    {f : Session → Coordinator → Session × Coordinator} {event? : Session → Option Event}
    (hf : ∀ x, db.sessions.get? s = some x →
      Advances s db.coordinator (event? x) (f x db.coordinator).1 (f x db.coordinator).2) :
    (db.withSession s f).Orderly (h ++ ((db.sessions.get? s).bind event?).toList) := by
  unfold Database.withSession
  cases hs : db.sessions.get? s with
  | none =>
    rw [Option.bind_none, Option.toList_none, List.append_nil]
    exact ho
  | some x =>
    have hadvances := hf x hs
    exact ho.of_advances hs hadvances

theorem Orderly.quiet (ho : db.Orderly h) : db.Orderly (h ++ (none : Option Event).toList) := by
  rw [Option.toList_none, List.append_nil]
  exact ho

theorem Orderly.of_retains (ho : db.Orderly h)
    (hretains : ∀ y, y < db.coordinator.nextSession → Retains y db.coordinator c')
    (hcoherent : c'.locks.Coherent) (hcovered : ∀ y, c'.Covered y)
    (hnext : db.coordinator.nextSession ≤ c'.nextSession)
    (hclock : db.coordinator.clock.current ≤ c'.clock.current) :
    ({ db with coordinator := c' } : Database).Orderly h := by
  refine ⟨hcoherent, hcovered, fun y z hz => ?_, fun y z hz => ?_, ?_⟩
  · have hknown := ho.known y z hz
    exact (ho.locked y z hz).of_retains (hretains y hknown)
  · have hknown := ho.known y z hz
    exact Nat.lt_of_lt_of_le hknown hnext
  · exact ho.recorded.goesOn (fun y hy => (hretains y hy).keepsGuards) hnext hclock

/-- The tables and the log may change at will. -/
theorem Orderly.outside (ho : db.Orderly h) (storage : Storage) (journal : Journal) :
    ({ db with coordinator := { db.coordinator with storage, journal } } : Database).Orderly h := by
  have hproceeds (y : SessionId) :
      Proceeds y db.coordinator { db.coordinator with storage, journal } := proceeds_of_eq rfl rfl
  have hretains (y : SessionId) := (hproceeds y).toRetains
  exact ho.of_retains (fun y _ => hretains y) ho.coherent
    (fun y => (hretains y).covered (ho.covered y)) (Nat.le_refl _) (Nat.le_refl _)

theorem Orderly.raiseAbort (ho : db.Orderly h) : (db.raiseAbort s).Orderly h := by
  have hretains (y : SessionId) : Retains y db.coordinator (db.coordinator.signal s .raiseAbort) := by
    by_cases hy : y = s
    · exact hy ▸ proceeds_raiseAbort.toRetains
    · exact (spares_signal hy).retains
  exact ho.of_retains (fun y _ => hretains y) ho.coherent
    (fun y => (hretains y).covered (ho.covered y)) (Nat.le_refl _) (Nat.le_refl _)

theorem get?_connect (hs : db.connect.2.sessions.get? s = some x) :
    (s = db.coordinator.nextSession ∧
      x = .fresh db.settings.autocommit db.settings.lockWaitTimeout) ∨
      db.sessions.get? s = some x := by
  have hget : (db.sessions.insert db.coordinator.nextSession
    (.fresh db.settings.autocommit db.settings.lockWaitTimeout)).get? s = some x := hs
  rw [IdMap.get?_insert] at hget
  split at hget
  next hs => exact Or.inl ⟨hs, (Option.some.inj hget).symm⟩
  next => exact Or.inr hget

theorem Orderly.connect (ho : db.Orderly h) : db.connect.2.Orderly h := by
  -- Nobody has used the number of the new session before.
  have htx (y : SessionId) (hy : y ≠ db.coordinator.nextSession) :
      db.connect.2.coordinator.tx y = db.coordinator.tx y := tx_setTx_of_ne hy
  have hproceeds (y : SessionId) (hy : y ≠ db.coordinator.nextSession) :
      Proceeds y db.coordinator db.connect.2.coordinator := proceeds_of_eq rfl (htx y hy)
  have hretains (y : SessionId) (hy : y ≠ db.coordinator.nextSession) := (hproceeds y hy).toRetains
  have hself : db.connect.2.coordinator.tx db.coordinator.nextSession =
      .fresh db.coordinator.nextSession db.settings.isolation := tx_setTx_self
  have hregistered : ({ db with coordinator := db.connect.2.coordinator } : Database).Orderly h := by
    refine ho.of_retains (fun y hy => hretains y (Nat.ne_of_lt hy)) ho.coherent (fun y => ?_)
      (Nat.le_succ _) (Nat.le_refl _)
    by_cases hy : y = db.coordinator.nextSession
    · subst hy
      intro r hr
      rw [hself] at hr
      cases hr
    · exact (hretains y hy).covered (ho.covered y)
  refine ⟨hregistered.coherent, hregistered.covered, fun y z hz => ?_, fun y z hz => ?_,
    hregistered.recorded⟩
  · rcases get?_connect hz with ⟨-, rfl⟩ | hz
    · trivial
    · exact hregistered.locked y z hz
  · rcases get?_connect hz with ⟨rfl, -⟩ | hz
    · exact Nat.lt_succ_self _
    · exact hregistered.known y z hz

theorem Orderly.stays (ho : db.Orderly h) (hs : db.sessions.get? s = some x) :
    Advances s db.coordinator none x db.coordinator := advances_stay (ho.locked s x hs)

theorem Orderly.erase (ho : db.Orderly h) :
    ({ db with sessions := db.sessions.erase s } : Database).Orderly h := by
  have hleft {y : SessionId} {z : Session} (hz : (db.sessions.erase s).get? y = some z) :
      db.sessions.get? y = some z := by
    rw [IdMap.get?_erase] at hz
    split at hz
    next => cases hz
    next => exact hz
  exact ⟨ho.coherent, ho.covered, fun y z hz => ho.locked y z (hleft hz),
    fun y z hz => ho.known y z (hleft hz), ho.recorded⟩

theorem Orderly.drop (ho : db.Orderly h) :
    (db.drop s).Orderly (h ++ (db.callEvent? s .close).toList) := by
  have hclosed : (db.withSession s fun x c => if x.isIdle then x.close s c else (x, c)).Orderly
      (h ++ (db.callEvent? s .close).toList) := by
    refine ho.withSession fun x hs => ?_
    split
    next hidle => exact close_advances fun _ => locked_close hidle
    next => exact ho.stays hs
  unfold Database.drop
  dsimp only
  split
  next =>
    split
    next => exact hclosed.erase
    next => exact hclosed
  next => exact hclosed

theorem Orderly.expire (ho : db.Orderly h) : (db.expire s).Orderly h := by
  have hexpired : (db.expire s).Orderly
      (h ++ ((db.sessions.get? s).bind fun _ => (none : Option Event)).toList) := by
    refine ho.withSession fun x hs => advances_stay ?_
    unfold Session.expire
    split
    next => trivial
    next => exact ho.locked s x hs
  rw [Option.bind_fun_none, Option.toList_none, List.append_nil] at hexpired
  exact hexpired

theorem Orderly.call (ho : db.Orderly h) {k : SessionCall} (hm : db.Admits (.call s k)) :
    (db.call s k).Orderly (h ++ (db.callEvent? s k).toList) := by
  have hreads (statement : Statement) (hk : k = .execute statement) :
      db.coordinator.ReadsHeld s := by
    subst hk
    exact readsHeld_of_isStrict (hm s rfl)
  refine ho.withSession fun x hs => ?_
  split
  next => exact call_advances hreads
  next => exact ho.stays hs

theorem Orderly.perform (ho : db.Orderly h) {m : Move} (hm : db.Admits m) :
    (db.perform m).Orderly (h ++ (db.observe m).toList) := by
  cases m with
  | createTable name watched =>
    exact (ho.outside (db.coordinator.storage.createTable name watched).2 db.coordinator.journal).quiet
  | checkpoint =>
    exact (ho.outside db.coordinator.storage (db.coordinator.journal.write .checkpoint).2).quiet
  | connect => exact ho.connect.quiet
  | call s k => exact ho.call hm
  | advance s =>
    exact ho.withSession fun x hs => step_advances (ho.covered s) (ho.locked s x hs)
  | expire s => exact ho.expire.quiet
  | raiseAbort s => exact ho.raiseAbort.quiet
  | drop s => exact ho.drop
  | outside storage journal => exact (ho.outside storage journal).quiet

theorem Orderly.run {moves : List Move} (ho : db.Orderly h) (hm : db.RunsStrict moves) :
    (db.run moves).Orderly (h ++ db.history moves) := by
  -- The history so far is kept apart from the one that the moves left add to it.
  induction moves generalizing db h with
  | nil =>
    rw [history, List.append_nil]
    exact ho
  | cons m rest ih =>
    obtain ⟨hfirst, hrest⟩ := hm
    have hnext := ih (ho.perform hfirst) hrest
    rw [List.append_assoc] at hnext
    exact hnext

theorem open?_eq {settings : Settings} (hopen : open? settings = .ok db) :
    db = ⟨settings, .empty, ∅⟩ := by
  unfold open? at hopen
  cases hmode : settings.control with
  | locks =>
    rw [hmode] at hopen
    cases hopen
    rfl
  | mvcc =>
    rw [hmode] at hopen
    cases hopen
  | mvLocks =>
    rw [hmode] at hopen
    cases hopen

theorem orderly_open {settings : Settings} (hopen : open? settings = .ok db) : db.Orderly [] := by
  have hdb := open?_eq hopen
  subst hdb
  have hrecorded : Coordinator.empty.Recorded [] := by
    refine ⟨fun i a hlive => ?_, nofun, twoPhased_nil⟩
    cases hlive.1
  have hnobody (s : SessionId) (x : Session) : (∅ : IdMap Session).get? s ≠ some x := by
    rw [IdMap.get?_empty]
    exact nofun
  exact ⟨LockTable.coherent_empty, fun s => covered_empty, fun s x hs => absurd hs (hnobody s x),
    fun s x hs => absurd hs (hnobody s x), hrecorded⟩

/-- If every statement is executed at a strict level, then of two committed transactions with
conflicting accesses the one that comes first commits at the earlier time, so no transaction comes
before itself. -/
theorem conflicts_follow_commits {settings : Settings} {moves : List Move}
    (hopen : open? settings = .ok db) (hstrict : db.RunsStrict moves) :
    (∀ i j k l a b now later, CommittedAt (db.history moves) i k a now →
      CommittedAt (db.history moves) j l b later → k ≠ l → i < j → a.conflictsWith b →
        now < later) ∧
    ∀ k, ¬Relation.TransGen (Precedes (db.history moves)) k k := by
  have horderly := (orderly_open hopen).run hstrict
  have htwo := horderly.recorded.twoPhased
  rw [List.nil_append] at htwo
  constructor
  · intro i j k l a b now later ha hb hkl hij hconflict
    exact htwo.now_lt ha hb hkl hij hconflict
  · exact htwo.acyclic

/-- Session 2 reads the table into which session 1 inserts, and has to wait for it. -/
def insertThenScan : List Move :=
  [.createTable "t" false, .connect, .connect, .call 1 (.setIsolation .serializable),
    .call 2 (.setIsolation .repeatableRead),
    .call 1 (.execute ⟨.write [1], fun _ => .insert 1 [] fun _ => .done ⟨1, []⟩⟩),
    .call 2 (.execute ⟨.read [1], fun _ => .scan 1 fun _ => .done ⟨0, []⟩⟩)] ++
  List.replicate 4 (.advance 1) ++ List.replicate 2 (.advance 2) ++
  List.replicate 6 (.advance 1) ++ List.replicate 10 (.advance 2)

theorem conflicts_follow_commits_insertThenScan : ∃ db, open? .default = .ok db ∧
    db.RunsStrict insertThenScan ∧
    CommittedAt (db.history insertThenScan) 0 1 ⟨1, 1, .insert⟩ 2 ∧
    CommittedAt (db.history insertThenScan) 2 3 ⟨2, 1, .scan⟩ 4 ∧ (2 : Timestamp) < 4 := by
  obtain ⟨db, hopen⟩ : ∃ db, open? .default = .ok db := ⟨_, rfl⟩
  have hdb := open?_eq hopen
  have hstrict : db.RunsStrict insertThenScan := by
    rw [hdb]
    decide
  have hhistory : db.history insertThenScan = [.access ⟨1, 1, .insert⟩, .committed 1 2,
      .access ⟨2, 1, .scan⟩, .committed 2 4] := by
    rw [hdb]
    decide
  have hinsert : CommittedAt (db.history insertThenScan) 0 1 ⟨1, 1, .insert⟩ 2 := by
    rw [hhistory]
    exact ⟨rfl, rfl, by decide, fun ⟨m, _, hfirst, hlast, _⟩ => by omega⟩
  have hscan : CommittedAt (db.history insertThenScan) 2 3 ⟨2, 1, .scan⟩ 4 := by
    rw [hhistory]
    exact ⟨rfl, rfl, by decide, fun ⟨m, _, hfirst, hlast, _⟩ => by omega⟩
  have horder := (conflicts_follow_commits hopen hstrict).1
  have hlt := horder 0 2 1 3 _ _ 2 4 hinsert hscan (by decide) (by decide) ⟨rfl, Or.inl rfl⟩
  exact ⟨db, hopen, hstrict, hinsert, hscan, hlt⟩

end Database

end LockingDb
