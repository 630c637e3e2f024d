import LockingDb.Proofs.CallMoves
import LockingDb.Proofs.DatabaseLedger

namespace LockingDb

open Coordinator Session

namespace Coordinator

variable {c c' : Coordinator} {s y : SessionId}

theorem Booked.of_spares (h : c.Booked y) (hspares : Spares y c c') (hbooks : Books s c c')
    (hy : y ≠ s) : c'.Booked y := by
  have htx := SessionTx.eq_of_unlatched hspares.tx
  have hactions : (c'.tx y).actions = (c.tx y).actions := by rw [htx]
  refine ⟨?_, fun row hrow => ?_, fun a ha => ?_, fun hsome => ?_⟩
  · rw [htx]
    exact h.indexed
  · rw [hactions]
    exact h.owned row (hbooks.others y hy row hrow)
  · rw [hactions] at ha
    exact hspares.keeps.written a.store (h.written a ha)
  · rw [hactions] at hsome
    exact hspares.isOpen.trans (h.isOpen hsome)

/-- The transactions that are open are counted. -/
def Counted (c : Coordinator) : Prop :=
  ∃ ss : List SessionId, ss.Nodup ∧ (∀ s, s ∈ ss ↔ (c.tx s).isOpen = true) ∧ c.openCount = ss.length

theorem Counted.pos (h : c.Counted) (hopen : (c.tx s).isOpen = true) : 0 < c.openCount := by
  obtain ⟨ss, hnodup, hmem, hcount⟩ := h
  have hin := (hmem s).mpr hopen
  rw [hcount]
  exact List.length_pos_of_mem hin

theorem Counted.of_tallies (h : c.Counted) (hothers : ∀ y, y ≠ s → (c'.tx y).isOpen = (c.tx y).isOpen)
    (htallies : Tallies s c c') : c'.Counted := by
  have htally := htallies fun hopen => h.pos hopen
  obtain ⟨ss, hnodup, hmem, hcount⟩ := h
  cases hbefore : (c.tx s).isOpen with
  | false =>
    have hnew : s ∉ ss := by
      rw [hmem, hbefore]
      exact Bool.false_ne_true
    rw [hbefore, Bool.toNat_false] at htally
    cases hafter : (c'.tx s).isOpen with
    | false =>
      refine ⟨ss, hnodup, fun y => ?_, ?_⟩
      · by_cases hy : y = s
        · rw [hy, hafter, hmem, hbefore]
        · rw [hothers y hy, hmem]
      · rw [hafter, Bool.toNat_false] at htally
        omega
    | true =>
      refine ⟨s :: ss, List.nodup_cons.mpr ⟨hnew, hnodup⟩, fun y => ?_, ?_⟩
      · by_cases hy : y = s
        · rw [hy, hafter]
          simp
        · rw [hothers y hy, ← hmem, List.mem_cons, or_iff_right hy]
      · rw [hafter, Bool.toNat_true] at htally
        rw [List.length_cons]
        omega
  | true =>
    have hin : s ∈ ss := (hmem s).mpr hbefore
    rw [hbefore, Bool.toNat_true] at htally
    cases hafter : (c'.tx s).isOpen with
    | true =>
      refine ⟨ss, hnodup, fun y => ?_, ?_⟩
      · by_cases hy : y = s
        · rw [hy, hafter, hmem, hbefore]
        · rw [hothers y hy, hmem]
      · rw [hafter, Bool.toNat_true] at htally
        omega
    | false =>
      refine ⟨ss.erase s, hnodup.erase s, fun y => ?_, ?_⟩
      · by_cases hy : y = s
        · rw [hy, hafter]
          simp [hnodup.not_mem_erase]
        · rw [hothers y hy, ← hmem, List.mem_erase_of_ne hy]
      · rw [hafter, Bool.toNat_false] at htally
        rw [List.length_erase_of_mem hin]
        omega

theorem Counted.of_books (h : c.Counted) (hothers : ∀ y, y ≠ s → (c'.tx y).isOpen = (c.tx y).isOpen)
    (hbooks : Books s c c') : c'.Counted := h.of_tallies hothers hbooks.tallies

theorem Unmoved.holds (h : Unmoved s c c') : Holds s c c' := by
  refine ⟨h.written, fun hlevel t ht => ⟨h.locks ▸ ht, ?_⟩⟩
  rw [readsHeld_of_frame h.frame]
  exact hlevel

end Coordinator

namespace Session

variable {s : SessionId} {c c' : Coordinator} {x : Session}

theorem Placed.of_unmoved (hx : x.Placed s c) (h : Unmoved s c c') : x.Placed s c' := by
  refine ⟨fun hclosed => ?_, ?_⟩
  · obtain ⟨hidle, hrest⟩ := hx.resting hclosed
    exact ⟨hidle, h.isOpen.trans hrest⟩
  · have hstands := hx.stands
    have hasking {r : LockRequest} (ha : c.Asking s r) : c'.Asking s r :=
      ⟨fun n w hq => ha.asks n w (h.locks ▸ hq), h.readsWithin ha.reads⟩
    unfold Stands at hstands ⊢
    split at hstands
    next => exact hstands.of_unmoved h
    next => exact hstands.of_unmoved h
    next => exact hstands.of_unmoved h
    next => exact hstands.of_unmoved h
    next => exact hstands.of_unmoved h
    next => exact hasking hstands
    next => exact hasking hstands
    next => exact hasking hstands
    next => exact ⟨hstands.1.of_unmoved h, h.locks ▸ hstands.2⟩
    next => exact hstands.of_unmoved h
    next => exact ⟨hstands.1.of_unmoved h, hstands.2⟩
    next => exact ⟨hstands.1.of_unmoved h, h.isOpen.trans hstands.2⟩
    next => exact ⟨hstands.1.of_unmoved h, h.isOpen.trans hstands.2⟩
    next => trivial

theorem activity_close : (x.close s c).1.activity = x.activity := by
  unfold close
  split <;> rfl

theorem closed_close : (x.close s c).1.closed = true := by
  unfold close
  split
  next hclosed => exact hclosed
  next => rfl

end Session

namespace Database

variable {db db' : Database} {s y : SessionId} {x x' : Session} {c' : Coordinator} {e : Bool}

/-- All sessions stand where their calls have led them, and the books are right. -/
structure Standing (db : Database) : Prop where
  settled : db.coordinator.locks.Settled
  covered : ∀ s, db.coordinator.Covered s
  booked : ∀ s, db.coordinator.Booked s
  counted : db.coordinator.Counted
  placed : ∀ s x, db.sessions.get? s = some x → x.Placed s db.coordinator
  known : ∀ s x, db.sessions.get? s = some x → s < db.coordinator.nextSession
  gone : ∀ s, db.sessions.get? s = none →
    db.coordinator.AtRest s ∧ (db.coordinator.tx s).isOpen = false

theorem Standing.ready (h : db.Standing) (hs : db.sessions.get? s = some x) :
    x.Ready s db.coordinator := ⟨h.settled, h.covered s, h.booked s, h.placed s x hs⟩

/-- A session makes a move; the flag says whether its transaction ends. -/
structure MovedBy (db : Database) (s : SessionId) (e : Bool) (db' : Database) : Prop where
  standing : db'.Standing
  others : ∀ y, y ≠ s → Spares y db.coordinator db'.coordinator
  holds : e = false → Holds s db.coordinator db'.coordinator
  last : LocksLast s (db.coordinator.Guarded s) db.coordinator db'.coordinator

theorem Standing.stays (h : db.Standing) : db.MovedBy s e db :=
  ⟨h, fun _ _ => spares_of_eq rfl rfl rfl, fun _ => .refl s db.coordinator, .idle rfl rfl⟩

theorem Standing.of_moves (h : db.Standing) (hs : db.sessions.get? s = some x)
    (hm : Moves s db.coordinator e x' c') :
    db.MovedBy s e { db with coordinator := c', sessions := db.sessions.insert s x' } := by
  have hspares := hm.others (s + 1) (Nat.succ_ne_self s)
  have hcoherent := h.settled.toCoherent
  have hopen (y : SessionId) (hy : y ≠ s) : (c'.tx y).isOpen = (db.coordinator.tx y).isOpen :=
    (hm.others y hy).isOpen
  refine ⟨⟨hm.settled, fun y => ?_, fun y => ?_, h.counted.of_books hopen hm.books, fun y z hz => ?_,
    fun y z hz => ?_, fun y hy => ?_⟩, hm.others, hm.holds, hm.last⟩
  · by_cases hy : y = s
    · exact hy ▸ hm.covered
    · exact (hm.others y hy).retains.covered (h.covered y)
  · by_cases hy : y = s
    · exact hy ▸ hm.books.own (h.booked s)
    · exact (h.booked y).of_spares (hm.others y hy) hm.books hy
  · rw [IdMap.get?_insert] at hz
    split at hz
    next hy =>
      cases hz
      exact hy ▸ hm.placed
    next hy => exact (h.placed y z hz).of_spares hcoherent (hm.others y hy)
  · rw [hspares.nextSession]
    rw [IdMap.get?_insert] at hz
    split at hz
    next hy => exact hy ▸ h.known s x hs
    next => exact h.known y z hz
  · rw [IdMap.get?_insert] at hy
    split at hy
    next => cases hy
    next hne =>
      obtain ⟨hrest, hclosed⟩ := h.gone y hy
      exact ⟨hrest.of_spares hcoherent (hm.others y hne), (hopen y hne).trans hclosed⟩

theorem Standing.withSession (h : db.Standing) {f : Session → Coordinator → Session × Coordinator}
    (hf : ∀ x, db.sessions.get? s = some x →
      Moves s db.coordinator e (f x db.coordinator).1 (f x db.coordinator).2) :
    db.MovedBy s e (db.withSession s f) := by
  unfold Database.withSession
  cases hs : db.sessions.get? s with
  | none => exact h.stays
  | some x => exact h.of_moves hs (hf x hs)

/-- The transaction of the session ends by the move. -/
def endsTx (db : Database) (s : SessionId) : Move → Bool
  | .advance y => y == s && (db.sessions.get? s).any (·.endsTx s db.coordinator)
  | .call y k => y == s && (db.sessions.get? s).any fun x => x.isIdle && x.callEndsTx k
  | .drop y => y == s && (db.sessions.get? s).any fun x => x.isIdle && x.callEndsTx .close
  | _ => false

theorem Standing.advance (h : db.Standing) (s : SessionId) :
    db.MovedBy s (db.endsTx s (.advance s)) (db.advance s) := by
  refine h.withSession fun x hs => ?_
  have hends : db.endsTx s (.advance s) = x.endsTx s db.coordinator := by simp [endsTx, hs]
  rw [hends]
  exact (h.ready hs).step_moves

theorem Standing.call (h : db.Standing) (s : SessionId) (k : SessionCall) :
    db.MovedBy s (db.endsTx s (.call s k)) (db.call s k) := by
  refine h.withSession fun x hs => ?_
  have hready := h.ready hs
  have hends : db.endsTx s (.call s k) = (x.isIdle && x.callEndsTx k) := by simp [endsTx, hs]
  rw [hends]
  cases hidle : x.isIdle with
  | true => exact hready.call_moves (activity_of_isIdle hidle) k
  | false => exact hready.stays hready.placed

theorem MovedBy.erase (hm : db.MovedBy s e db') (hs : db'.sessions.get? s = some x)
    (hidle : x.activity = .idle) (hclosed : x.closed = true) :
    db.MovedBy s e { db' with sessions := db'.sessions.erase s } := by
  have h := hm.standing
  have hleft {y : SessionId} {z : Session} (hz : (db'.sessions.erase s).get? y = some z) :
      db'.sessions.get? y = some z := by
    rw [IdMap.get?_erase] at hz
    split at hz
    next => cases hz
    next => exact hz
  refine ⟨⟨h.settled, h.covered, h.booked, h.counted, fun y z hz => h.placed y z (hleft hz),
    fun y z hz => h.known y z (hleft hz), fun y hy => ?_⟩, hm.others, hm.holds, hm.last⟩
  rw [IdMap.get?_erase] at hy
  split at hy
  next hsame =>
    subst hsame
    exact ⟨(h.ready hs).atRest hidle, ((h.placed y x hs).resting hclosed).2⟩
  next => exact h.gone y hy

/-- A session is idle and closed when it goes away. -/
theorem Standing.drop (h : db.Standing) (s : SessionId) :
    db.MovedBy s (db.endsTx s (.drop s)) (db.drop s) := by
  have hclosed : db.MovedBy s (db.endsTx s (.drop s))
      (db.withSession s fun x c => if x.isIdle then x.close s c else (x, c)) := by
    refine h.withSession fun x hs => ?_
    have hready := h.ready hs
    have hends : db.endsTx s (.drop s) = (x.isIdle && x.callEndsTx .close) := by simp [endsTx, hs]
    rw [hends]
    cases hidle : x.isIdle with
    | true =>
      have hactivity := activity_of_isIdle hidle
      exact hready.close_moves hactivity (activity_close.trans hactivity)
    | false => exact hready.stays hready.placed
  unfold Database.drop
  dsimp only
  split
  next x hx =>
    split
    next hidle =>
      refine hclosed.erase hx (activity_of_isIdle hidle) ?_
      unfold Database.withSession at hx
      cases hs : db.sessions.get? s with
      | none =>
        rw [hs] at hx
        rw [hs] at hx
        cases hx
      | some z =>
        rw [hs] at hx
        simp only [IdMap.get?_insert_self, Option.some.injEq] at hx
        subst hx
        split
        next => exact closed_close
        next hbusy =>
          rw [if_neg hbusy] at hidle
          exact absurd hidle hbusy
    next => exact hclosed
  next => exact hclosed

/-- Signals are sent, and the tables and the log change. -/
theorem Standing.of_unmoved (h : db.Standing) (hsame : ∀ y, Unmoved y db.coordinator c')
    (hgranted : ∀ y, (c'.tx y).granted = (db.coordinator.tx y).granted)
    (hlog : ∀ y, (c'.tx y).log = (db.coordinator.tx y).log)
    (haccounts : c'.accounts = db.coordinator.accounts)
    (hnext : c'.nextSession = db.coordinator.nextSession) :
    ({ db with coordinator := c' } : Database).Standing := by
  have hlocks := (hsame 0).locks
  have hbooks (y : SessionId) : Books y db.coordinator c' :=
    books_of_log (hlog y) haccounts fun t ht => (hsame y).written t ht
  refine ⟨hlocks ▸ h.settled, fun y => ?_, fun y => (hbooks y).own (h.booked y), ?_,
    fun y z hz => (h.placed y z hz).of_unmoved (hsame y), fun y z hz => ?_, fun y hy => ?_⟩
  · exact (h.covered y).of_keeps (hgranted y) (hlocks ▸ .refl y db.coordinator.locks)
  · exact h.counted.of_books (s := 0) (fun y _ => (hsame y).isOpen) (hbooks 0)
  · exact hnext ▸ h.known y z hz
  · obtain ⟨hrest, hclosed⟩ := h.gone y hy
    exact ⟨hrest.of_unmoved (hsame y), (hsame y).isOpen.trans hclosed⟩

theorem Standing.outside (h : db.Standing) (storage : Storage) (journal : Journal) :
    ({ db with coordinator := { db.coordinator with storage, journal } } : Database).Standing :=
  h.of_unmoved (fun _ => ⟨rfl, rfl⟩) (fun _ => rfl) (fun _ => rfl) rfl rfl

theorem unmoved_raiseAbort (s y : SessionId) :
    Unmoved y db.coordinator (db.raiseAbort s).coordinator := by
  by_cases hy : y = s
  · exact hy ▸ unmoved_signal
  · exact ⟨rfl, congrArg SessionTx.frame (tx_setTx_of_ne hy)⟩

theorem Standing.raiseAbort (h : db.Standing) (s : SessionId) : (db.raiseAbort s).Standing := by
  have htx (y : SessionId) : ∃ signals, (db.coordinator.signal s .raiseAbort).tx y =
      { db.coordinator.tx y with signals } := by
    by_cases hy : y = s
    · subst hy
      exact ⟨_, tx_signal_self⟩
    · exact ⟨_, tx_setTx_of_ne hy⟩
  refine h.of_unmoved (fun y => unmoved_raiseAbort s y) (fun y => ?_) (fun y => ?_) rfl rfl
  · obtain ⟨signals, heq⟩ := htx y
    rw [heq]
  · obtain ⟨signals, heq⟩ := htx y
    rw [heq]
    rfl

theorem Standing.expire (h : db.Standing) (s : SessionId) : (db.expire s).Standing := by
  have hexpired : db.MovedBy s false (db.expire s) := by
    refine h.withSession fun x hs => ?_
    have hready := h.ready hs
    refine hready.stays ?_
    unfold Session.expire
    split
    next hwaits =>
      have hactivity : x.activity = .waiting := by
        have hwaiting : x.isWaiting = true := by simp_all
        unfold Session.isWaiting at hwaiting
        split at hwaiting
        next heq => exact heq
        next => cases hwaiting
      have hopen := hready.open (by rw [hactivity]; nofun)
      have hstands := hready.placed.stands
      simp only [Stands, hactivity] at hstands
      exact placed_of_open hopen hstands
    next => exact hready.placed
  exact hexpired.standing

theorem Standing.nobody (h : db.Standing) : db.sessions.get? db.coordinator.nextSession = none :=
  Option.eq_none_iff_forall_not_mem.mpr fun z hz => Nat.lt_irrefl _ (h.known _ z hz)

theorem Standing.actions_of_closed (h : db.Standing) (hclosed : (db.coordinator.tx s).isOpen = false) :
    (db.coordinator.tx s).actions = [] := by
  by_contra hsome
  have hopen := (h.booked s).isOpen hsome
  rw [hclosed] at hopen
  cases hopen

/-- A new session has nothing. -/
theorem Standing.connect (h : db.Standing) : db.connect.2.Standing := by
  have htx (y : SessionId) (hy : y ≠ db.coordinator.nextSession) :
      db.connect.2.coordinator.tx y = db.coordinator.tx y := tx_setTx_of_ne hy
  have hself : db.connect.2.coordinator.tx db.coordinator.nextSession =
      .fresh db.coordinator.nextSession db.settings.isolation := tx_setTx_self
  obtain ⟨hrest, hclosed⟩ := h.gone _ h.nobody
  have hfree := (h.booked db.coordinator.nextSession).freed hclosed (hrest.unlocked hclosed) hrest.waits
  have hfreed : db.connect.2.coordinator.Freed db.coordinator.nextSession := by
    refine ⟨?_, hfree.unlocked, hfree.waits, hfree.owned⟩
    rw [hself]
    rfl
  have hunmoved (y : SessionId) (hy : y ≠ db.coordinator.nextSession) :
      Unmoved y db.coordinator db.connect.2.coordinator := by
    refine ⟨rfl, ?_⟩
    rw [htx y hy]
  have hbooks : Books db.coordinator.nextSession db.coordinator db.connect.2.coordinator := by
    refine ⟨fun _ => hfreed.booked, fun y _ row hrow => hrow, fun _ => ?_⟩
    rw [hclosed, hfreed.isOpen]
    rfl
  refine ⟨h.settled, fun y => ?_, fun y => ?_, ?_, fun y z hz => ?_, fun y z hz => ?_, fun y hy => ?_⟩
  · by_cases hy : y = db.coordinator.nextSession
    · subst hy
      intro r hr
      rw [hself] at hr
      cases hr
    · exact (h.covered y).of_keeps (by rw [htx y hy]) (.refl y db.coordinator.locks)
  · by_cases hy : y = db.coordinator.nextSession
    · exact hy ▸ hfreed.booked
    · have hsame : Books y db.coordinator db.connect.2.coordinator :=
        books_of_log (by rw [htx y hy]) rfl fun _ => id
      exact hsame.own (h.booked y)
  · exact h.counted.of_books (fun y hy => by rw [htx y hy]) hbooks
  · rcases get?_connect hz with ⟨rfl, rfl⟩ | hz
    · exact placed_of_open rfl hfreed.atRest
    · exact (h.placed y z hz).of_unmoved (hunmoved y (Nat.ne_of_lt (h.known y z hz)))
  · rcases get?_connect hz with ⟨rfl, -⟩ | hz
    · exact Nat.lt_succ_self _
    · exact Nat.lt_succ_of_lt (h.known y z hz)
  · have hbefore : (db.sessions.insert db.coordinator.nextSession
        (.fresh db.settings.autocommit db.settings.lockWaitTimeout)).get? y = none := hy
    rw [IdMap.get?_insert] at hbefore
    split at hbefore
    next => cases hbefore
    next hne =>
      obtain ⟨hrest, hclosed⟩ := h.gone y hbefore
      exact ⟨hrest.of_unmoved (hunmoved y hne), (hunmoved y hne).isOpen.trans hclosed⟩

theorem Standing.perform (h : db.Standing) (m : Move) : (db.perform m).Standing := by
  cases m with
  | createTable name watched =>
    exact h.outside (db.coordinator.storage.createTable name watched).2 db.coordinator.journal
  | checkpoint => exact h.outside db.coordinator.storage (db.coordinator.journal.write .checkpoint).2
  | connect => exact h.connect
  | call s k => exact (h.call s k).standing
  | advance s => exact (h.advance s).standing
  | expire s => exact h.expire s
  | raiseAbort s => exact h.raiseAbort s
  | drop s => exact (h.drop s).standing
  | outside storage journal => exact h.outside storage journal

theorem Standing.run (h : db.Standing) (moves : List Move) : (db.run moves).Standing := by
  induction moves generalizing db with
  | nil => exact h
  | cons m rest ih => exact ih (h.perform m)

theorem standing_fresh (settings : Settings) (journal : Journal) :
    (⟨settings, { Coordinator.empty with journal }, ∅⟩ : Database).Standing := by
  have hnobody (s : SessionId) (x : Session) : (∅ : IdMap Session).get? s ≠ some x := by
    rw [IdMap.get?_empty]
    exact nofun
  have hnone (s : SessionId) (t : TableId) : LockTable.empty.mode? s t = none := rfl
  have hfreed (s : SessionId) : ({ Coordinator.empty with journal } : Coordinator).Freed s := by
    refine ⟨rfl, hnone s, ?_, fun row hrow => ?_⟩
    · rfl
    · cases hrow
  exact ⟨LockTable.settled_empty, fun s => covered_empty, fun s => (hfreed s).booked,
    ⟨[], List.nodup_nil, fun s => ⟨nofun, nofun⟩, rfl⟩, fun s x hs => absurd hs (hnobody s x),
    fun s x hs => absurd hs (hnobody s x), fun s _ => ⟨(hfreed s).atRest, rfl⟩⟩

end Database

end LockingDb
