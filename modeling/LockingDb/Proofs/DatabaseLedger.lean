import LockingDb.Proofs.CommitOrder
import LockingDb.Proofs.LedgerSessionCalls

namespace LockingDb

open Coordinator Session

namespace Ledger

variable {l : Ledger} {s : SessionId} {t : TableId} {d : Draft} {e : Option Event}

/-- What an event adds to the commits. -/
def commitsOf (l : Ledger) : Option Event → List Commit
  | some (.committed s now) => [⟨s, now, (l.draft s).changes⟩]
  | _ => []

theorem commits_note (he : ∀ y now, e = some (.committed y now) → y = s) :
    (l.note s d e).commits = l.commits ++ l.commitsOf e := by
  have hnone : l.commits = l.commits ++ [] := (List.append_nil _).symm
  cases e with
  | none => exact hnone
  | some event =>
    cases event with
    | access a => exact hnone
    | committed y now =>
      obtain rfl := he y now rfl
      rfl
    | rolledBack y => exact hnone

theorem rows_note : (l.note s d e).rows t = l.rows t ∨
    (∃ y now, e = some (.committed y now)) ∧ Change.onTable t (l.draft s).changes ≠ [] := by
  by_cases hnone : Change.onTable t (l.draft s).changes = []
  · exact Or.inl (rows_note_of_nil hnone)
  · unfold note
    split
    next y now => exact Or.inr ⟨⟨y, now, rfl⟩, hnone⟩
    next => exact Or.inl rfl

end Ledger

namespace Session

variable {s : SessionId} {c : Coordinator} {x : Session} {l : Ledger} {d : Draft} {k : SessionCall}

/-- No call commits at once. -/
theorem note_callEvent? : l.note s d (x.callEvent? s c k) = l.note s d none := by
  cases k with
  | close =>
    by_cases hclosed : x.closed = true
    · rw [callEvent?, if_pos hclosed]
    · rw [callEvent?, if_neg hclosed, note_rollbackEvent?]
  | _ => rfl

end Session

namespace Database

variable {db db' : Database} {l l' : Ledger} {s y : SessionId} {x x' : Session} {c' : Coordinator}
  {e : Option Event} {d : Draft} {t : TableId}

/-- The ledger of a database is right, and its sessions know of their drafts. Numbers that are still
to be given to sessions have not been used. -/
structure Faithful (db : Database) (l : Ledger) : Prop where
  coherent : db.coordinator.locks.Coherent
  covered : ∀ s, db.coordinator.Covered s
  inStep : db.coordinator.InStep l
  engaged : ∀ s x, db.sessions.get? s = some x → x.Engaged s db.coordinator (l.draft s)
  known : ∀ s x, db.sessions.get? s = some x → s < db.coordinator.nextSession
  unknown : ∀ s, db.coordinator.nextSession ≤ s →
    l.draft s = .empty ∧ (db.coordinator.tx s).isOpen = false

/-- What a move comes to: the ledger stays right, an open transaction goes on until the move ends
it, changes come from accesses and committed rows from commits, and the log gets what is committed,
unless it has failed. -/
structure Follows (db : Database) (l : Ledger) (e : Option Event) (db' : Database) (l' : Ledger) :
    Prop where
  faithful : db'.Faithful l'
  upholds : ∀ y, (db.coordinator.tx y).isOpen = true → (∀ event ∈ e, event.ends y = false) →
    Upholds y db.coordinator db'.coordinator
  written : ∀ y, ∀ k ∈ (l'.draft y).changes, k ∈ (l.draft y).changes ∨
    ∃ kind : AccessKind, kind.isWrite = true ∧ e = some (.access ⟨y, k.table, kind⟩)
  ended : ∀ event ∈ e, ∀ y, event.ends y = true → (l'.draft y).changes = []
  rows : ∀ t, l'.rows t = l.rows t ∨
    ∃ y now, e = some (.committed y now) ∧ Change.onTable t (l.draft y).changes ≠ []
  faults : db'.coordinator.journal.faults = db.coordinator.journal.faults
  commits : l'.commits = l.commits ++ l.commitsOf e
  logged : l.Logged db.coordinator.journal db'.coordinator.journal e

theorem faithful_of_tracks (hf : db.Faithful l) (hs : db.sessions.get? s = some x)
    (ht : Tracks s db.coordinator l e x' c' d) :
    ({ db with coordinator := c', sessions := db.sessions.insert s x' } : Database).Faithful
      (l.note s d e) := by
  have hspares := ht.others (s + 1) (Nat.succ_ne_self s)
  have hcoherent := hspares.coherent hf.coherent
  have hknown := hf.known s x hs
  have hdraft (y : SessionId) (hy : y ≠ s) : (l.note s d e).draft y = l.draft y :=
    Ledger.draft_note_of_ne hy
  refine ⟨hcoherent, fun y => ?_, ht.inStep, fun y z hz => ?_, fun y z hz => ?_, fun y hy => ?_⟩
  · by_cases hy : y = s
    · exact hy ▸ ht.covered (hf.covered s)
    · exact (ht.others y hy).retains.covered (hf.covered y)
  · rw [IdMap.get?_insert] at hz
    split at hz
    next hy =>
      cases hz
      rw [hy, Ledger.draft_note_self]
      exact ht.engaged
    next hy =>
      rw [hdraft y hy]
      refine (hf.engaged y z hz).of_spares (ht.others y hy) fun t hmode => ?_
      exact (hf.inStep.spared hf.coherent.toHoldersAgree ht.inStep hcoherent.toHoldersAgree hy
        (ht.others y hy) hmode).2
  · rw [hspares.nextSession]
    rw [IdMap.get?_insert] at hz
    split at hz
    next hy => exact hy ▸ hknown
    next hy => exact hf.known y z hz
  · rw [hspares.nextSession] at hy
    have hne : y ≠ s := by
      rintro rfl
      exact absurd hknown (Nat.not_lt_of_le hy)
    obtain ⟨hempty, hclosed⟩ := hf.unknown y hy
    have hsame : (c'.tx y).unlatched.isOpen = (db.coordinator.tx y).unlatched.isOpen :=
      congrArg SessionTx.isOpen (ht.others y hne).tx
    exact ⟨(hdraft y hne).trans hempty, hsame.trans hclosed⟩

theorem follows_of_tracks (hf : db.Faithful l) (hs : db.sessions.get? s = some x)
    (ht : Tracks s db.coordinator l e x' c' d) :
    db.Follows l e { db with coordinator := c', sessions := db.sessions.insert s x' }
      (l.note s d e) where
  faithful := faithful_of_tracks hf hs ht
  upholds y hopen hgoes := by
    by_cases hy : y = s
    · subst hy
      exact ht.upholds hopen hgoes
    · exact (ht.others y hy).upholds
  written y k hk := by
    by_cases hy : y = s
    · subst hy
      rw [Ledger.draft_note_self] at hk
      exact ht.written k hk
    · rw [Ledger.draft_note_of_ne hy] at hk
      exact Or.inl hk
  ended event hevent y hends := by
    obtain ⟨rfl, hnone⟩ := ht.ended event hevent y hends
    rw [Ledger.draft_note_self]
    exact hnone
  rows t := by
    refine Ledger.rows_note.imp_right ?_
    rintro ⟨⟨y, now, rfl⟩, hsome⟩
    obtain ⟨rfl, -⟩ := ht.ended _ rfl y (by simp [Event.ends])
    exact ⟨y, now, rfl, hsome⟩
  faults := ht.faults
  commits := by
    refine Ledger.commits_note fun y now he => ?_
    subst he
    exact (ht.ended _ rfl y (by simp [Event.ends])).1
  logged := ht.logged

theorem Faithful.follows (hf : db'.Faithful l)
    (hup : ∀ y, Upholds y db.coordinator db'.coordinator)
    (hfaults : db'.coordinator.journal.faults = db.coordinator.journal.faults)
    (hentries : db'.coordinator.journal.entries = db.coordinator.journal.entries) :
    db.Follows l none db' l where
  faithful := hf
  upholds y _ _ := hup y
  written _ _ hk := Or.inl hk
  ended := nofun
  rows _ := Or.inl rfl
  faults := hfaults
  commits := (List.append_nil _).symm
  logged := hentries

theorem Faithful.stays (hf : db.Faithful l) : db.Follows l none db l :=
  hf.follows (fun y => .refl y db.coordinator) rfl rfl

/-- Signals are sent, tables are created and sessions get numbers, but no session takes a step. -/
theorem Faithful.of_signals (hf : db.Faithful l) (hlocks : c'.locks = db.coordinator.locks)
    (htx : ∀ y, (∃ signals, c'.tx y = { db.coordinator.tx y with signals }) ∨
      db.coordinator.nextSession ≤ y ∧ ∃ level, c'.tx y = .fresh y level)
    (hsound : c'.storage.Sound)
    (hcontents : ∀ t, c'.storage.contents t = db.coordinator.storage.contents t)
    (hclock : db.coordinator.clock.current ≤ c'.clock.current)
    (hnext : db.coordinator.nextSession ≤ c'.nextSession)
    (hfaults : c'.journal.faults = db.coordinator.journal.faults)
    (hentries : c'.journal.entries = db.coordinator.journal.entries) :
    db.Follows l none { db with coordinator := c' } l := by
  have hkeeps (y : SessionId) : LockTable.Keeps y db.coordinator.locks c'.locks :=
    hlocks ▸ .refl y db.coordinator.locks
  have hup (y : SessionId) : Upholds y db.coordinator c' := by
    refine ⟨fun hopen => ?_, (hkeeps y).written⟩
    rcases htx y with ⟨signals, hy⟩ | ⟨hnew, -⟩
    · rw [hy]
      exact hopen
    · rw [(hf.unknown y hnew).2] at hopen
      cases hopen
  refine Faithful.follows ⟨hlocks ▸ hf.coherent, fun y => ?_, ?_, fun y z hz => ?_,
    fun y z hz => ?_, fun y hy => ?_⟩ hup hfaults hentries
  · rcases htx y with ⟨signals, hy⟩ | ⟨-, level, hy⟩
    · exact (hf.covered y).of_keeps (by rw [hy]) (hkeeps y)
    · intro r hr
      rw [hy] at hr
      cases hr
  · refine hf.inStep.of_contents hsound hcontents (fun y => ?_) hclock
    rcases htx y with ⟨signals, hy⟩ | ⟨hnew, level, hy⟩
    · exact (hf.inStep.carries y).of_work (by rw [hy]; rfl) (hup y)
    · rw [(hf.unknown y hnew).1]
      exact carries_nil (by rw [hy]; rfl) (by rw [hy]; rfl)
  · rcases htx y with ⟨signals, hy⟩ | ⟨hnew, -⟩
    · exact (hf.engaged y z hz).of_same (hup y).isOpen (hkeeps y) (by rw [hy]) (by rw [hy])
        fun t _ => hcontents t
    · exact absurd (hf.known y z hz) (Nat.not_lt_of_le hnew)
  · have hknown := hf.known y z hz
    exact Nat.lt_of_lt_of_le hknown hnext
  · obtain ⟨hempty, hclosed⟩ := hf.unknown y (Nat.le_trans hnext hy)
    refine ⟨hempty, ?_⟩
    rcases htx y with ⟨signals, hy⟩ | ⟨-, level, hy⟩
    · rw [hy]
      exact hclosed
    · rw [hy]
      rfl

theorem Faithful.createTable (hf : db.Faithful l) (name : String) (watched : Bool) :
    db.Follows l none (db.createTable name watched).2 l := by
  obtain ⟨hsound, hcontents, -⟩ := hf.inStep.sound.createTable name watched
  exact hf.of_signals rfl (fun y => Or.inl ⟨_, rfl⟩) hsound hcontents (Nat.le_refl _) (Nat.le_refl _)
    rfl rfl

theorem Faithful.checkpoint (hf : db.Faithful l) : db.Follows l none db.checkpoint.2 l := by
  have hquiet : ∀ r ∈ LogCall.checkpoint.record?, r.isWork = false := by
    rintro r ⟨⟩
    rfl
  obtain ⟨hfaults, hentries⟩ :=
    Journal.entries_write_of_quiet (j := db.coordinator.journal) hquiet
  exact hf.of_signals rfl (fun y => Or.inl ⟨_, rfl⟩) hf.inStep.sound (fun _ => rfl) (Nat.le_refl _)
    (Nat.le_refl _) hfaults hentries

theorem Faithful.raiseAbort (hf : db.Faithful l) : db.Follows l none (db.raiseAbort s) l := by
  refine hf.of_signals rfl (fun y => Or.inl ?_) hf.inStep.sound (fun _ => rfl) (Nat.le_refl _)
    (Nat.le_refl _) rfl rfl
  by_cases hy : y = s
  · subst hy
    exact ⟨_, tx_signal_self⟩
  · exact ⟨_, tx_setTx_of_ne hy⟩

/-- A session takes another place in its call. -/
theorem Faithful.setSession (hf : db.Faithful l) (hs : db.sessions.get? s = some x)
    (hx : x'.Engaged s db.coordinator (l.draft s)) :
    ({ db with sessions := db.sessions.insert s x' } : Database).Faithful l := by
  refine ⟨hf.coherent, hf.covered, hf.inStep, fun y z hz => ?_, fun y z hz => ?_, hf.unknown⟩
  all_goals rw [IdMap.get?_insert] at hz
  · split at hz
    next hy =>
      cases hz
      exact hy ▸ hx
    next => exact hf.engaged y z hz
  · split at hz
    next hy => exact hy ▸ hf.known s x hs
    next => exact hf.known y z hz

theorem Faithful.connect (hf : db.Faithful l) : db.Follows l none db.connect.2 l := by
  have hregistered : db.Follows l none { db with coordinator := db.connect.2.coordinator } l := by
    refine hf.of_signals rfl (fun y => ?_) hf.inStep.sound (fun _ => rfl) (Nat.le_refl _)
      (Nat.le_succ _) rfl rfl
    by_cases hy : y = db.coordinator.nextSession
    · subst hy
      exact Or.inr ⟨Nat.le_refl _, _, tx_setTx_self⟩
    · exact Or.inl ⟨_, tx_setTx_of_ne hy⟩
  have hfaithful := hregistered.faithful
  have hnew := (hf.unknown _ (Nat.le_refl db.coordinator.nextSession)).1
  have hfresh : (db.connect.2.coordinator.tx db.coordinator.nextSession).savepoints = [] := by
    have htx : db.connect.2.coordinator.tx db.coordinator.nextSession =
        .fresh db.coordinator.nextSession db.settings.isolation := tx_setTx_self
    rw [htx]
    rfl
  refine ⟨⟨hfaithful.coherent, hfaithful.covered, hfaithful.inStep, fun y z hz => ?_,
    fun y z hz => ?_, hfaithful.unknown⟩, hregistered.upholds, hregistered.written,
    hregistered.ended, hregistered.rows, hregistered.faults, hregistered.commits, hregistered.logged⟩
  · rcases get?_connect hz with ⟨rfl, rfl⟩ | hz
    · rw [hnew]
      exact ⟨nofun, fun _ => Draft.marked_empty hfresh, trivial⟩
    · exact hfaithful.engaged y z hz
  · rcases get?_connect hz with ⟨rfl, -⟩ | hz
    · exact Nat.lt_succ_self _
    · exact hfaithful.known y z hz

theorem Faithful.stay (hf : db.Faithful l) (hs : db.sessions.get? s = some x)
    (hx : x'.Engaged s db.coordinator (l.draft s)) :
    db.Follows l none { db with sessions := db.sessions.insert s x' } l :=
  (hf.setSession hs hx).follows (fun y => .refl y db.coordinator) rfl rfl

theorem Faithful.expire (hf : db.Faithful l) : db.Follows l none (db.expire s) l := by
  unfold Database.expire Database.withSession
  cases hs : db.sessions.get? s with
  | none => exact hf.stays
  | some x =>
    have hx := hf.engaged s x hs
    refine hf.stay hs ?_
    unfold Session.expire
    split
    next hwaits =>
      have hactive : x.activity ≠ .idle := by
        intro hidle
        simp [Session.isWaiting, hidle] at hwaits
      have hopen := hx.open hactive
      exact engaged_of_open (x := x.become .timedOut) hopen (hx.marked hopen) trivial
    next => exact hx

theorem Faithful.advance (hf : db.Faithful l)
    (hnext : (db.advance s).coordinator.storage.nextRow ≠ 0) :
    db.Follows l (db.observe (.advance s)) (db.advance s) (db.record l (.advance s)) := by
  unfold Database.advance Database.withSession at hnext ⊢
  simp only [observe, record]
  cases hs : db.sessions.get? s with
  | none => exact hf.stays
  | some x =>
    rw [hs] at hnext
    exact follows_of_tracks hf hs (step_tracks hf.inStep hf.coherent.toHoldersAgree
      (hf.engaged s x hs) (hf.covered s) hnext)

theorem Faithful.call (hf : db.Faithful l) (k : SessionCall) :
    db.Follows l (db.callEvent? s k) (db.call s k) (db.recordCall l s k) := by
  unfold Database.call Database.withSession callEvent? recordCall
  cases hs : db.sessions.get? s with
  | none => exact hf.stays
  | some x =>
    have hx := hf.engaged s x hs
    by_cases hidle : x.isIdle = true
    · have htracks := call_tracks (k := k) hf.inStep hf.coherent hx hidle
      have hfollows := follows_of_tracks hf hs htracks
      rw [note_callEvent?] at hfollows
      simpa [hidle] using hfollows
    · simpa [hidle] using hf.stay hs hx

theorem Follows.erase (h : db.Follows l e db' l') :
    db.Follows l e { db' with sessions := db'.sessions.erase s } l' := by
  have hf := h.faithful
  have hleft {y : SessionId} {z : Session} (hz : (db'.sessions.erase s).get? y = some z) :
      db'.sessions.get? y = some z := by
    rw [IdMap.get?_erase] at hz
    split at hz
    next => cases hz
    next => exact hz
  exact ⟨⟨hf.coherent, hf.covered, hf.inStep, fun y z hz => hf.engaged y z (hleft hz),
    fun y z hz => hf.known y z (hleft hz), hf.unknown⟩, h.upholds, h.written, h.ended, h.rows,
    h.faults, h.commits, h.logged⟩

/-- A session that is idle is closed before it goes away. -/
theorem Faithful.drop (hf : db.Faithful l) :
    db.Follows l (db.callEvent? s .close) (db.drop s) (db.recordCall l s .close) := by
  have hclosed : db.Follows l (db.callEvent? s .close)
      (db.withSession s fun x c => if x.isIdle then x.close s c else (x, c))
      (db.recordCall l s .close) := by
    unfold Database.withSession callEvent? recordCall
    cases hs : db.sessions.get? s with
    | none => exact hf.stays
    | some x =>
      have hx := hf.engaged s x hs
      by_cases hidle : x.isIdle = true
      · have hfollows := follows_of_tracks hf hs (close_idle_tracks hf.inStep hf.coherent hx hidle)
        rw [note_callEvent?] at hfollows
        simpa [hidle] using hfollows
      · simpa [hidle] using hf.stay hs hx
  unfold Database.drop
  dsimp only
  split
  next =>
    split
    next => exact hclosed.erase
    next => exact hclosed
  next => exact hclosed

theorem Faithful.perform (hf : db.Faithful l) {m : Move} (hm : m.isInside = true)
    (hnext : (db.perform m).coordinator.storage.nextRow ≠ 0) :
    db.Follows l (db.observe m) (db.perform m) (db.record l m) := by
  cases m with
  | createTable name watched => exact hf.createTable name watched
  | checkpoint => exact hf.checkpoint
  | connect => exact hf.connect
  | call s k => exact hf.call k
  | advance s => exact hf.advance hnext
  | expire s => exact hf.expire
  | raiseAbort s => exact hf.raiseAbort
  | drop s => exact hf.drop
  | outside storage journal => cases hm

theorem run_append {before rest : List Move} :
    db.run (before ++ rest) = (db.run before).run rest := List.foldl_append

theorem ledger_append {before rest : List Move} :
    db.ledger l (before ++ rest) = (db.run before).ledger (db.ledger l before) rest := by
  induction before generalizing db l with
  | nil => rfl
  | cons m before ih => exact ih

theorem runsInside_append {before rest : List Move} :
    db.RunsInside (before ++ rest) ↔ db.RunsInside before ∧ (db.run before).RunsInside rest := by
  induction before generalizing db with
  | nil => exact ⟨fun h => ⟨trivial, h⟩, And.right⟩
  | cons m before ih =>
    show _ ∧ _ ∧ (db.perform m).RunsInside (before ++ rest) ↔
      (_ ∧ _ ∧ (db.perform m).RunsInside before) ∧ _
    rw [ih, and_assoc, and_assoc]
    rfl

theorem Faithful.run {moves : List Move} (hf : db.Faithful l) (hm : db.RunsInside moves) :
    (db.run moves).Faithful (db.ledger l moves) := by
  induction moves generalizing db l with
  | nil => exact hf
  | cons m rest ih =>
    obtain ⟨hinside, hnext, hrest⟩ := hm
    exact ih (hf.perform hinside hnext).faithful hrest

theorem openWith?_eq {settings : Settings} {journal : Journal}
    (hopen : openWith? settings journal = .ok db) :
    db = ⟨settings, { Coordinator.empty with journal }, ∅⟩ := by
  unfold openWith? at hopen
  cases hdb : open? settings with
  | error f =>
    rw [hdb] at hopen
    cases hopen
  | ok fresh =>
    rw [hdb, open?_eq hdb] at hopen
    exact (Except.ok.inj hopen).symm

/-- A new database has an empty ledger, whatever its log. -/
theorem faithful_openWith {settings : Settings} {journal : Journal}
    (hopen : openWith? settings journal = .ok db) : db.Faithful .empty := by
  have hdb := openWith?_eq hopen
  subst hdb
  have hempty (t : TableId) : Storage.empty.contents t = .ofRows (Ledger.empty.rows t) := rfl
  have hinStep : ({ Coordinator.empty with journal } : Coordinator).InStep .empty :=
    ⟨Storage.sound_empty, fun s => carries_nil rfl rfl,
      fun t s _ => Contents.evolved_nil.mpr (hempty t), .nil, nofun⟩
  have hnobody (s : SessionId) (x : Session) : (∅ : IdMap Session).get? s ≠ some x := by
    rw [IdMap.get?_empty]
    exact nofun
  exact ⟨LockTable.coherent_empty, fun s => covered_empty, hinStep, fun s x hs => absurd hs (hnobody s x),
    fun s x hs => absurd hs (hnobody s x), fun _ _ => ⟨rfl, rfl⟩⟩

end Database

end LockingDb
