import LockingDb.Proofs.DatabaseStanding
import LockingDb.Proofs.RollbackInverse

namespace LockingDb

open Coordinator Session

variable {c c' c₂ : Coordinator} {s y : SessionId} {x : Session} {a : Access}

namespace Coordinator

/-- All store calls made from one state to another one were made by the session, each while it had the
table for itself. -/
def CallsLocked (s : SessionId) (c c' : Coordinator) : Prop :=
  ∃ made : List TracedCall, c'.trace = made ++ c.trace ∧
    c'.storage.calls = made.map TracedCall.made ++ c.storage.calls ∧
      ∀ k ∈ made, k.session = s ∧ k.mode = some .exclusive

/-- A call is traced with the locks that its session has when it is made, so the trace shows that locks
are given back later only. -/
theorem LocksLast.callsLocked (h : LocksLast s (c.Guarded s) c c') : CallsLocked s c c' := by
  obtain ⟨made, hmade, htrace, hguarded⟩ := h.traces
  refine ⟨made.map (c.traced s), htrace, ?_, fun k hk => ?_⟩
  · have hsame : (made.map (c.traced s)).map TracedCall.made = made := by
      rw [List.map_map]
      exact List.map_id made
    rw [hsame, hmade]
  · obtain ⟨call, hcall, rfl⟩ := List.mem_map.mp hk
    exact ⟨rfl, hguarded call hcall⟩

end Coordinator

theorem Coordinator.Holds.trans (h : Holds s c c') (h₂ : Holds s c' c₂) : Holds s c c₂ := by
  refine ⟨fun t ht => h₂.written t (h.written t ht), fun hlevel t ht => ?_⟩
  obtain ⟨hheld, hlevel'⟩ := h.read hlevel t ht
  exact h₂.read hlevel' t hheld

namespace Session

/-- A table that a body works on is locked for its statement, and for writes only by its session. -/
theorem access?_guarded {body : StatementBody} (hruns : c.Executes s x.statement.request)
    (ha : x.access? s c body = some a) : a.session = s ∧ (c.locks.mode? s a.table).isSome = true ∧
      (a.kind.isWrite = true → c.locks.mode? s a.table = some .exclusive) := by
  have hwrites (hkind : a.kind.isWrite = true) : c.locks.mode? s a.table = some .exclusive := by
    obtain ⟨y, t, kind⟩ := a
    exact hruns.written (access?_of_write ha hkind).2
  have hpicked {p : Prop} [Decidable p] {t : TableId} {kind : AccessKind}
      (ha : (if p then some (⟨s, t, kind⟩ : Access) else none) = some a) :
      p ∧ a.session = s ∧ a.table = t := by
    split at ha
    next hp =>
      cases ha
      exact ⟨hp, rfl, rfl⟩
    next => cases ha
  cases body with
  | scan t next =>
    obtain ⟨hreadable, hs, rfl⟩ := hpicked ha
    refine ⟨hs, ?_, hwrites⟩
    cases hread : c.readable x.statement.request a.table with
    | ok done => exact hruns.held (allowsRead_of_readable hread)
    | error f =>
      rw [hread] at hreadable
      cases hreadable
  | insert t values next =>
    obtain ⟨hwritable, hs, rfl⟩ := hpicked ha
    exact ⟨hs, isSome_of_exclusive (hruns.written (mem_writes_of_writable hwritable)), hwrites⟩
  | delete t position next =>
    obtain ⟨hwritable, hs, rfl⟩ := hpicked ha
    exact ⟨hs, isSome_of_exclusive (hruns.written (mem_writes_of_writable hwritable)), hwrites⟩
  | deleteWhere t test next =>
    obtain ⟨hwritable, hs, rfl⟩ := hpicked ha
    exact ⟨hs, isSome_of_exclusive (hruns.written (mem_writes_of_writable hwritable)), hwrites⟩
  | _ => cases ha

theorem runBody_locks (hruns : c.Executes s x.statement.request) (body : StatementBody) :
    (x.runBody s c body).2.locks = c.locks := by
  cases body with
  | insert t values next =>
    have hh : Handles s c (c.insertInto s x.statement.request t values).2 := hruns.handles_insertInto
    exact hh.locks
  | delete t position next =>
    have hh : Handles s c (c.deleteAt s x.statement.request t position).2 := hruns.handles_deleteAt
    exact hh.locks
  | deleteWhere t test next =>
    dsimp only [runBody]
    split <;> rfl
  | _ => rfl

/-- The step of a session that works on a table leaves the locks as they are. -/
theorem Ready.observe_guarded (h : x.Ready s c) (ha : x.observe s c = some (.access a)) :
    a.session = s ∧ (c.locks.mode? s a.table).isSome = true ∧
      (a.kind.isWrite = true → c.locks.mode? s a.table = some .exclusive) ∧
      (x.step s c).2.locks = c.locks := by
  have hstands := h.placed.stands
  unfold Stands at hstands
  unfold observe at ha
  split at ha
  next body hactivity =>
    simp only [hactivity] at hstands
    obtain ⟨b, hb, heq⟩ := Option.map_eq_some_iff.mp ha
    cases heq
    obtain ⟨hs, hheld, hwrites⟩ := access?_guarded hstands hb
    simp only [step, hactivity]
    exact ⟨hs, hheld, hwrites, runBody_locks hstands body⟩
  next t row rows count next hactivity =>
    simp only [hactivity] at hstands
    obtain ⟨hruns, ht⟩ := hstands
    cases ha
    have hmode := hruns.written ht
    have hlocks : (c.recordDelete s t row).2.locks = c.locks :=
      (handles_recordDelete hmode hruns.isOpen).locks
    refine ⟨rfl, isSome_of_exclusive hmode, fun _ => hmode, ?_⟩
    simp only [step, hactivity]
    generalize c.recordDelete s t row = deleted at hlocks
    obtain ⟨answer, c₁⟩ := deleted
    cases answer <;> exact hlocks
  next => exact absurd ha commitEvent?_ne_access
  next => exact absurd ha rollbackEvent?_ne_access
  next => cases ha

end Session

/-- The session that works on a move. -/
def Move.mover? : Move → Option SessionId
  | .call s _ | .advance s | .drop s => some s
  | _ => none

namespace Database

variable {db db' : Database} {e : Bool} {m : Move}

/-- No move of a run ends the transaction of a session. -/
def GoesOn (db : Database) (s : SessionId) : List Move → Prop
  | [] => True
  | m :: rest => db.endsTx s m = false ∧ (db.perform m).GoesOn s rest

instance instDecidableGoesOn (db : Database) (s : SessionId) : (moves : List Move) →
    Decidable (db.GoesOn s moves)
  | [] => inferInstanceAs (Decidable True)
  | m :: rest =>
    have := instDecidableGoesOn (db.perform m) s rest
    inferInstanceAs (Decidable (db.endsTx s m = false ∧ (db.perform m).GoesOn s rest))

theorem MovedBy.holds_all (hm : db.MovedBy s e db') (hend : y = s → e = false) :
    Holds y db.coordinator db'.coordinator := by
  by_cases hy : y = s
  · exact hy ▸ hm.holds (hend hy)
  · exact (hm.others y hy).holds

/-- A move takes no lock from a session whose transaction goes on. -/
theorem Standing.holds (h : db.Standing) (hend : db.endsTx y m = false) :
    Holds y db.coordinator (db.perform m).coordinator := by
  cases m with
  | createTable name watched => exact Unmoved.holds ⟨rfl, rfl⟩
  | checkpoint => exact Unmoved.holds ⟨rfl, rfl⟩
  | outside storage journal => exact Unmoved.holds ⟨rfl, rfl⟩
  | raiseAbort s => exact (unmoved_raiseAbort s y).holds
  | connect =>
    by_cases hy : y = db.coordinator.nextSession
    · subst hy
      obtain ⟨hrest, hclosed⟩ := h.gone _ h.nobody
      refine ⟨fun t ht => ht, fun _ t ht => ?_⟩
      rw [hrest.unlocked hclosed t] at ht
      cases ht
    · exact Unmoved.holds ⟨rfl, congrArg SessionTx.frame (tx_setTx_of_ne hy)⟩
  | expire s =>
    show Holds y db.coordinator (db.expire s).coordinator
    rw [coordinator_expire]
    exact .refl y db.coordinator
  | call s k => exact (h.call s k).holds_all fun hy => hy ▸ hend
  | advance s => exact (h.advance s).holds_all fun hy => hy ▸ hend
  | drop s => exact (h.drop s).holds_all fun hy => hy ▸ hend

theorem Standing.holds_run (h : db.Standing) {moves : List Move} (hgoes : db.GoesOn s moves) :
    Holds s db.coordinator (db.run moves).coordinator := by
  induction moves generalizing db with
  | nil => exact .refl s db.coordinator
  | cons m rest ih =>
    obtain ⟨hend, hrest⟩ := hgoes
    exact (h.holds hend).trans (ih (h.perform m) hrest)

theorem Standing.last (h : db.Standing) (hs : m.mover? = some s) :
    LocksLast s (db.coordinator.Guarded s) db.coordinator (db.perform m).coordinator := by
  cases m with
  | call y k =>
    cases hs
    exact (h.call s k).last
  | advance y =>
    cases hs
    exact (h.advance s).last
  | drop y =>
    cases hs
    exact (h.drop s).last
  | _ => cases hs

/-- Only moves of sessions are traced. -/
theorem trace_of_no_mover (hs : m.mover? = none) :
    (db.perform m).coordinator.trace = db.coordinator.trace := by
  cases m with
  | expire s => exact congrArg Coordinator.trace coordinator_expire
  | createTable name watched => rfl
  | checkpoint => rfl
  | connect => rfl
  | raiseAbort s => rfl
  | outside storage journal => rfl
  | _ => cases hs

theorem Standing.locked_perform (h : db.Standing)
    (hlocked : ∀ k ∈ db.coordinator.trace, k.mode = some .exclusive) :
    ∀ k ∈ (db.perform m).coordinator.trace, k.mode = some .exclusive := by
  cases hmover : m.mover? with
  | none =>
    rw [trace_of_no_mover hmover]
    exact hlocked
  | some s =>
    obtain ⟨made, htrace, -, hmade⟩ := (h.last hmover).callsLocked
    rw [htrace]
    intro k hk
    rcases List.mem_append.mp hk with hnew | hold
    · exact (hmade k hnew).2
    · exact hlocked k hold

/-- All store calls of a run were made while their sessions had the tables for themselves. -/
theorem Standing.locked_run (h : db.Standing)
    (hlocked : ∀ k ∈ db.coordinator.trace, k.mode = some .exclusive) (moves : List Move) :
    ∀ k ∈ (db.run moves).coordinator.trace, k.mode = some .exclusive := by
  induction moves generalizing db with
  | nil => exact hlocked
  | cons m rest ih => exact ih (h.perform m) (h.locked_perform hlocked)

theorem calls_of_no_mover (hs : m.mover? = none) (hm : m.isInside = true) :
    (db.perform m).coordinator.storage.calls = db.coordinator.storage.calls := by
  cases m with
  | createTable name watched =>
    show (db.coordinator.storage.createTable name watched).2.calls = db.coordinator.storage.calls
    unfold Storage.createTable
    split <;> rfl
  | checkpoint => rfl
  | connect => rfl
  | raiseAbort s => rfl
  | expire s => exact congrArg (fun c : Coordinator => c.storage.calls) coordinator_expire
  | outside storage journal => cases hm
  | _ => cases hs

theorem Standing.observe_guarded (h : db.Standing) (ha : db.observe m = some (.access a)) :
    m.mover? = some a.session ∧ (db.coordinator.locks.mode? a.session a.table).isSome = true ∧
      (a.kind.isWrite = true → db.coordinator.locks.mode? a.session a.table = some .exclusive) ∧
      (db.perform m).coordinator.locks = db.coordinator.locks := by
  cases m with
  | advance y =>
    obtain ⟨x, hx, he⟩ := Option.bind_eq_some_iff.mp ha
    obtain ⟨rfl, hheld, hwrites, hlocks⟩ := (h.ready hx).observe_guarded he
    refine ⟨rfl, hheld, hwrites, ?_⟩
    rw [perform_advance hx]
    exact hlocks
  | call y k => exact absurd ha callEvent?_ne_access
  | drop y => exact absurd ha callEvent?_ne_access
  | _ => cases ha

/-- Sessions lock in two phases, strictly. Only sessions call stores, each call is made while its
session has the table for itself, and what a session releases it releases after that; each scan is of
a table that its session has locked. Write locks are kept until the transaction is committed or rolled
back, and read locks too at the levels above read committed; at that level none is left after a
statement. -/
theorem strict_two_phase_locking {settings : Settings} (hopen : open? settings = .ok db)
    (before : List Move) (s : SessionId) :
    (∀ k ∈ (db.run before).coordinator.trace, k.mode = some .exclusive) ∧
    (∀ m, m.mover? = some s →
      CallsLocked s (db.run before).coordinator (db.run (before ++ [m])).coordinator ∧
      LocksLast s ((db.run before).coordinator.Guarded s)
        (db.run before).coordinator (db.run (before ++ [m])).coordinator) ∧
    (∀ m, m.mover? = none → m.isInside = true →
      (db.run (before ++ [m])).coordinator.storage.calls =
        (db.run before).coordinator.storage.calls ∧
      (db.run (before ++ [m])).coordinator.trace = (db.run before).coordinator.trace) ∧
    (∀ m a, (db.run before).observe m = some (.access a) → a.session = s → m.mover? = some s ∧
      ((db.run before).coordinator.locks.mode? s a.table).isSome = true ∧
      (a.kind.isWrite = true →
        (db.run before).coordinator.locks.mode? s a.table = some .exclusive) ∧
      (db.run (before ++ [m])).coordinator.locks = (db.run before).coordinator.locks) ∧
    (∀ during, (db.run before).GoesOn s during → ∀ t,
      ((db.run before).coordinator.locks.mode? s t = some .exclusive →
        (db.run (before ++ during)).coordinator.locks.mode? s t = some .exclusive) ∧
      (((db.run before).coordinator.tx s).isolation.IsStrict →
        ((db.run before).coordinator.locks.mode? s t).isSome = true →
        ((db.run (before ++ during)).coordinator.locks.mode? s t).isSome = true)) ∧
    (∀ x, (db.run before).sessions.get? s = some x → x.isIdle = true →
      ((db.run before).coordinator.tx s).isolation = .readCommitted →
      ∀ t, (db.run before).coordinator.locks.mode? s t ≠ some .shared) := by
  have hfirst : db.Standing ∧ ∀ k ∈ db.coordinator.trace, k.mode = some .exclusive := by
    rw [open?_eq hopen]
    exact ⟨standing_fresh settings .empty, nofun⟩
  have hstanding := hfirst.1.run before
  have hone (m : Move) : db.run (before ++ [m]) = (db.run before).perform m := run_append
  refine ⟨hfirst.1.locked_run hfirst.2 before, fun m hs => ?_, fun m hs hm => ?_,
    fun m a ha has => ?_, fun during hgoes t => ?_, fun x hx hidle hlevel t ht => ?_⟩
  · rw [hone]
    exact ⟨(hstanding.last hs).callsLocked, hstanding.last hs⟩
  · rw [hone]
    exact ⟨calls_of_no_mover hs hm, trace_of_no_mover hs⟩
  · rw [hone]
    subst has
    exact hstanding.observe_guarded ha
  · have hholds := hstanding.holds_run hgoes
    rw [run_append]
    refine ⟨hholds.written t, fun hstrict ht => ?_⟩
    exact (hholds.read (readsHeld_of_isStrict hstrict) t ht).1
  · have hrest := (hstanding.ready hx).atRest (activity_of_isIdle hidle)
    have hlow : ¬(db.run before).coordinator.ReadsHeld s := by
      unfold ReadsHeld
      rw [hlevel]
      exact Bool.false_ne_true
    exact IdSet.not_mem_empty (hrest.reads hlow t ht)

/-- Session 1 has inserted a row and keeps its transaction open. -/
def insertAndStay : List Move :=
  [.createTable "t" false, .connect, .connect, .call 1 (.setAutocommit false),
    .call 1 (.execute ⟨.write [1], fun _ => .insert 1 [] fun _ => .done ⟨1, []⟩⟩)] ++
  List.replicate 7 (.advance 1)

/-- Session 2 waits for session 1, which takes its insert back but goes on. -/
def waitAndUndo : List Move :=
  [.call 2 (.execute ⟨.read [1], fun _ => .scan 1 fun _ => .done ⟨0, []⟩⟩)] ++
  List.replicate 2 (.advance 2) ++
  [.call 1 (.execute ⟨.write [1], fun _ => .insert 1 [] fun _ => .fail (.internal "no")⟩)] ++
  List.replicate 7 (.advance 1)

/-- Session 1 takes its whole transaction back. -/
def takeAllBack : List Move := insertAndStay ++ waitAndUndo ++ [.call 1 .rollback]

theorem strict_two_phase_locking_waitAndUndo : ∃ db, open? .default = .ok db ∧
    (db.run insertAndStay).GoesOn 1 waitAndUndo ∧
    (db.run (insertAndStay ++ waitAndUndo)).waitingSessions = [2] ∧
    (db.run (insertAndStay ++ waitAndUndo)).coordinator.locks.mode? 1 1 = some .exclusive ∧
    CallsLocked 1 (db.run takeAllBack).coordinator
      (db.run (takeAllBack ++ [.advance 1])).coordinator ∧
    (db.run (takeAllBack ++ [.advance 1])).coordinator.trace.map (fun k => (k.call.name, k.mode)) =
      [("rollback", some .exclusive), ("rollback", some .exclusive), ("index", some .exclusive),
        ("index", some .exclusive)] ∧
    (db.run (takeAllBack ++ [.advance 1])).coordinator.locks.mode? 1 1 = none := by
  obtain ⟨db, hopen⟩ : ∃ db, open? .default = .ok db := ⟨_, rfl⟩
  have hdb := open?_eq hopen
  have hgoes : (db.run insertAndStay).GoesOn 1 waitAndUndo := by
    rw [hdb]
    decide
  have hwaiting : (db.run (insertAndStay ++ waitAndUndo)).waitingSessions = [2] := by
    rw [hdb]
    decide
  have hmode : (db.run insertAndStay).coordinator.locks.mode? 1 1 = some .exclusive := by
    rw [hdb]
    decide
  have htrace : (db.run (takeAllBack ++ [.advance 1])).coordinator.trace.map
      (fun k => (k.call.name, k.mode)) = [("rollback", some .exclusive),
        ("rollback", some .exclusive), ("index", some .exclusive), ("index", some .exclusive)] := by
    rw [hdb]
    decide
  have hfree : (db.run (takeAllBack ++ [.advance 1])).coordinator.locks.mode? 1 1 = none := by
    rw [hdb]
    decide
  obtain ⟨-, -, -, -, hkept, -⟩ := strict_two_phase_locking hopen insertAndStay 1
  obtain ⟨-, hlast, -⟩ := strict_two_phase_locking hopen takeAllBack 1
  exact ⟨db, hopen, hgoes, hwaiting, (hkept waitAndUndo hgoes 1).1 hmode,
    (hlast (.advance 1) rfl).1, htrace, hfree⟩

end Database

end LockingDb
