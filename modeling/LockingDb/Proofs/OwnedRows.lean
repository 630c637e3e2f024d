import LockingDb.Proofs.ScanView
import LockingDb.Proofs.StatementAtomicity

namespace LockingDb

open Coordinator Session

/-- An answer that does not speak of a row that another session works on. -/
def Unopposed {α : Type} (answer : Except Failure α) : Prop :=
  ∀ row, answer ≠ .error (.overwriteConflict row)

theorem unopposed_ok {α : Type} (a : α) : Unopposed (.ok a) := nofun

/-- A failure is passed on. -/
theorem Unopposed.passed {α β : Type} {answer : Except Failure α} {f : Failure}
    (h : Unopposed answer) (heq : answer = .error f) : Unopposed (.error f : Except Failure β) := by
  rintro row ⟨⟩
  exact h row heq

theorem Unopposed.map {α β : Type} {answer : Except Failure α} {f : α → β} (h : Unopposed answer) :
    Unopposed (answer.map f) := by
  cases answer with
  | error e => exact h.passed rfl
  | ok a => exact unopposed_ok _

namespace Storage

variable {s s' : Storage} {t : TableId} {k : StoreCall} {row : Row} {rows : IdMap Row}
  {visible : IdSet}

theorem unopposed_table? : Unopposed (s.table? t) := by
  unfold table?
  split
  next => exact unopposed_ok _
  next => exact nofun

theorem unopposed_perform {store : RowStore} : Unopposed (store.perform k) := by
  have hindex (row : Row) : Unopposed (store.indexRow row) := by
    unfold RowStore.indexRow
    split
    next => exact unopposed_ok _
    next => exact nofun
  cases k with
  | index row => exact hindex row
  | delete row =>
    dsimp only [RowStore.perform, RowStore.delete]
    split
    next => exact unopposed_ok _
    next => exact nofun
  | rollback row type =>
    cases type with
    | delete => exact hindex row
    | insertThenDelete => exact hindex row
    | _ => exact unopposed_ok _
  | commit row type => cases type <;> exact unopposed_ok _

/-- Only owners of rows are in conflict; the stores know nothing of them. -/
theorem unopposed_call (hobeys : ∀ faults, s.faults? t = some faults → ∀ n k, faults n k = none) :
    Unopposed (s.call t k).1 := by
  have hperform (store : RowStore) : Unopposed (store.perform k) := unopposed_perform
  have htable : Unopposed (s.table? t) := unopposed_table?
  unfold call
  split
  next hmissing => exact htable.passed hmissing
  next table hfound =>
    have hfaults : s.faults? t = some table.faults := by
      unfold table? at hfound
      split at hfound
      next hsome => rw [faults?, hsome, Except.ok.inj hfound, Option.map_some]
      next => cases hfound
    dsimp only
    rw [hobeys table.faults hfaults]
    dsimp only
    split
    next hrefused => exact (hperform table.store).passed hrefused
    next => exact unopposed_ok ()

theorem Sound.faults?_eq (hs : s.Sound) {faults : Nat → StoreCall → Option Failure}
    (hfaults : s.faults? t = some faults) (n : Nat) (k : StoreCall) : faults n k = none := by
  obtain ⟨table, htable, rfl⟩ := Option.map_eq_some_iff.mp hfaults
  exact hs.obeys t table htable n k

/-- A position that is not visible any more is not scanned. -/
theorem Edits.scan_erase (h : s.Edits t ⟨(s.contents t).rows, (s.contents t).visible.erase row.position⟩ s')
    (hs : s.Sound) (hrow : row ∈ s.scan t) : s'.scan t = (s.scan t).filter (· ≠ row) := by
  have hfound := hs.get?_of_mem_scan hrow
  rw [scan_eq, scan_eq, h.contents]
  unfold Contents.scan
  show ((s.contents t).visible.toList.filter (· ≠ row.position)).filterMap _ = _
  rw [List.filterMap_filter, List.filter_filterMap]
  refine congrArg (List.filterMap · (s.contents t).visible.toList) (funext fun p => ?_)
  rw [← get?_eq]
  cases hp : s.get? t p with
  | none => exact ite_self none
  | some other =>
    have hposition : p = row.position ↔ other = row := by
      refine ⟨fun heq => ?_, fun heq => heq ▸ (hs.placed t p other hp).2.symm⟩
      rw [heq, hfound] at hp
      exact (Option.some.inj hp).symm
    simp only [Option.filter_some, ne_eq, hposition]

/-- A visible row is deleted. -/
theorem Sound.call_delete_scanned (hs : s.Sound) (hrow : row ∈ s.scan t) :
    (s.call t (.delete row)).1 = .ok () ∧
      (s.call t (.delete row)).2.scan t = (s.scan t).filter (· ≠ row) := by
  have hfound := hs.get?_of_mem_scan hrow
  have hvisible : row.position ∈ (s.contents t).visible := by
    rw [scan_eq] at hrow
    obtain ⟨p, hp, hget⟩ := List.mem_filterMap.mp hrow
    rwa [(hs.placed t p row (get?_eq.trans hget)).2]
  have hk : (s.storeOf t).perform (.delete row) =
      .ok { s.storeOf t with index := (s.storeOf t).index.erase row.position } :=
    if_pos (decide_eq_true hvisible)
  obtain ⟨hok, hedits⟩ := hs.edits_call (isSome_of_get? hfound) hk rfl rfl fun _ _ h => h
  exact ⟨hok, hedits.scan_erase hs hrow⟩

end Storage

namespace Coordinator

open Change

variable {c : Coordinator} {s y : SessionId} {t : TableId} {r : LockRequest} {l : Ledger} {row : Row}
  {p : RowPosition}

/-- Who owns a row of a table has the table for itself. -/
theorem InStep.locked_of_owner (h : c.InStep l) (hagree : c.locks.HoldersAgree)
    (hbooked : c.Booked s) (hrow : c.storage.get? t p = some row)
    (howner : c.owners.owner? row.id = some s) : c.locks.mode? s t = some .exclusive := by
  obtain ⟨a, ha, hid⟩ := hbooked.owned row.id howner
  obtain ⟨k, hk, hnotes⟩ := exists_change_of_mem (h.carries s).logged.notes ha
  obtain ⟨hfound, -⟩ := h.of_mem hagree hk
  have hsame : k.row = row :=
    h.sound.apart _ _ _ _ k.row row hfound hrow (hnotes.row.symm.trans hid)
  have htable : k.table = t :=
    (congrArg Row.table hsame).trans (h.sound.placed t p row hrow).1
  exact htable ▸ (h.carries s).locked k hk

theorem unopposed_writable : Unopposed (c.writable r t) := by
  have htable : Unopposed (c.storage.table? t) := Storage.unopposed_table?
  unfold writable
  split
  next => exact htable.map
  next => exact nofun

theorem unopposed_scanTable : Unopposed (c.scanTable r t) := by
  have htable : Unopposed (c.storage.table? t) := Storage.unopposed_table?
  have hreadable : Unopposed (c.readable r t) := by
    unfold readable
    split
    next => exact htable.map
    next => exact nofun
  unfold scanTable
  split
  next hrefused => exact hreadable.passed hrefused
  next => exact unopposed_ok _

theorem InStep.unopposed_insertInto (h : c.InStep l) {values : List Value} :
    Unopposed (c.insertInto s r t values).1 := by
  have hwritable : Unopposed (c.writable r t) := unopposed_writable
  have hnew : (c.storage.newRow t values).1 = .error (.tableNotFound t) ∨
      ∃ row, (c.storage.newRow t values).1 = .ok row := by
    unfold Storage.newRow Storage.table?
    cases c.storage.tables.get? t with
    | none => exact .inl rfl
    | some table => exact .inr ⟨_, rfl⟩
  have hcall (row : Row) : Unopposed ((c.storage.newRow t values).2.call t (.index row)).1 := by
    have hadds : c.storage.Adds (fun _ => True) (c.storage.newRow t values).2 := Storage.newRow_adds
    refine Storage.unopposed_call fun faults hfaults => ?_
    rw [hadds.faults t] at hfaults
    exact h.sound.faults?_eq hfaults
  unfold Coordinator.insertInto
  split
  next hrefused => exact hwritable.passed hrefused
  next =>
    unfold insertRow recordInsert
    generalize c.storage.newRow t values = created at hnew hcall
    obtain ⟨answer, fresh⟩ := created
    rcases hnew with rfl | ⟨row, rfl⟩
    · exact nofun
    · dsimp only
      specialize hcall row
      generalize fresh.call t (.index row) = called at hcall
      obtain ⟨outcome, storage⟩ := called
      cases outcome with
      | error f => exact hcall.passed rfl
      | ok done => exact unopposed_ok _

variable (h : c.InStep l) (hagree : c.locks.HoldersAgree) (hbooked : ∀ y, c.Booked y)
  (hmode : c.locks.mode? s t = some .exclusive)
include h hagree hbooked hmode

/-- Nobody else works on the rows of a table that a session has for itself. -/
theorem InStep.check_ok (hrow : c.storage.get? t p = some row) : c.owners.check s row.id = .ok () := by
  refine RowOwnership.check_eq_ok.mpr fun owner howner => Decidable.not_not.mp fun hne => ?_
  have hwrites := h.locked_of_owner hagree (hbooked owner) hrow howner
  have hnone := hagree.writer_alone t owner s hwrites (Ne.symm hne)
  rw [hmode] at hnone
  cases hnone

theorem InStep.recordDelete_answer (hrow : c.storage.get? t p = some row) :
    (c.recordDelete s t row).1 = (c.storage.call t (.delete row)).1 ∧
      (c.recordDelete s t row).2.storage = (c.storage.call t (.delete row)).2 := by
  rw [Coordinator.recordDelete, h.check_ok hagree hbooked hmode hrow]
  obtain ⟨answer, storage⟩ := c.storage.call t (.delete row)
  cases answer <;> exact ⟨rfl, rfl⟩

theorem InStep.recordDelete_scanned (hrow : row ∈ c.storage.scan t) :
    (c.recordDelete s t row).1 = .ok () ∧
      (c.recordDelete s t row).2.storage.scan t = (c.storage.scan t).filter (· ≠ row) := by
  obtain ⟨hanswer, hstorage⟩ :=
    h.recordDelete_answer hagree hbooked hmode (h.sound.get?_of_mem_scan hrow)
  rw [hanswer, hstorage]
  exact h.sound.call_delete_scanned hrow

/-- The rows of a table that a session has for itself may all be deleted. -/
theorem InStep.checkDelete_ok {rows : List Row} (hrows : ∀ row ∈ rows, row ∈ c.storage.scan t) :
    c.checkDelete s rows = .ok () := by
  unfold checkDelete
  induction rows with
  | nil => rfl
  | cons row rows ih =>
    have hfirst := h.check_ok hagree hbooked hmode
      (h.sound.get?_of_mem_scan (hrows row List.mem_cons_self))
    rw [List.map_cons, RowOwnership.checkAll, hfirst]
    exact ih fun other hother => hrows other (List.mem_cons_of_mem row hother)

omit hmode
variable (hwrites : ∀ t ∈ r.writes, c.locks.mode? s t = some .exclusive)
include hwrites

theorem InStep.unopposed_deleteAt : Unopposed (c.deleteAt s r t p).1 := by
  have hwritable : Unopposed (c.writable r t) := unopposed_writable
  unfold Coordinator.deleteAt
  split
  next hrefused => exact hwritable.passed hrefused
  next hok =>
    split
    next => exact nofun
    next row hrow =>
      have hmode := hwrites t (mem_writes_of_writable_ok hok)
      rw [(h.recordDelete_answer hagree hbooked hmode hrow).1]
      exact Storage.unopposed_call fun _ => h.sound.faults?_eq

/-- A delete of all rows that pass a test is refused by the statement's locks only. -/
theorem InStep.deletable_eq {test : Row → Bool} : c.deletable s r t test =
    (c.writable r t).map fun _ => (c.storage.scan t).filter test := by
  unfold deletable
  split
  next hrefused => rw [hrefused]; rfl
  next hok =>
    have hmode := hwrites t (mem_writes_of_writable_ok hok)
    dsimp only
    rw [h.checkDelete_ok hagree hbooked hmode fun row hrow => (List.mem_filter.mp hrow).1, hok]
    rfl

end Coordinator

/-- Where a session is after `n` steps in which it deletes rows one by one. -/
def Activity.deletion (t : TableId) (rows : List Row) (next : Except Failure Nat → StatementBody)
    (n : Nat) : Activity :=
  if n ≤ rows.length then .deleting t (rows.drop n) n next else .running (next (.ok rows.length))

def Move.advances (s : SessionId) : Move → Bool
  | .advance y => y = s
  | _ => false

theorem Session.step_deleting {c : Coordinator} {s : SessionId} {x : Session} {t : TableId}
    {row : Row} {rows : List Row} {n : Nat} {next : Except Failure Nat → StatementBody}
    (hok : (c.recordDelete s t row).1 = .ok ()) :
    (x.become (.deleting t (row :: rows) n next)).step s c =
      (x.become (.deleting t rows (n + 1) next), (c.recordDelete s t row).2) := by
  simp only [Session.step, Session.become]
  generalize c.recordDelete s t row = deleted at hok
  obtain ⟨answer, c'⟩ := deleted
  cases hok
  rfl

namespace Database

open Change

variable {db : Database} {s : SessionId} {x : Session} {t : TableId} {l : Ledger} {m : Move}
  {moves during : List Move} {before rows : List Row} {next : Except Failure Nat → StatementBody}
  {n : Nat} {d : Draft}

theorem deletion_of_le (hn : n ≤ rows.length) :
    Activity.deletion t rows next n = .deleting t (rows.drop n) n next := if_pos hn

theorem deletion_of_lt (hn : rows.length < n) :
    Activity.deletion t rows next n = .running (next (.ok rows.length)) :=
  if_neg (Nat.not_le_of_lt hn)

/-- After `n` steps the first `n` rows are deleted, and nothing else has happened to the table. -/
structure DeletedTo (db : Database) (s : SessionId) (x : Session) (t : TableId)
    (before rows : List Row) (next : Except Failure Nat → StatementBody) (n : Nat) : Prop where
  session : db.sessions.get? s = some (x.become (.deletion t rows next n))
  scan : db.coordinator.storage.scan t = before.filter (· ∉ rows.take n)

theorem DeletedTo.busy (hd : db.DeletedTo s x t before rows next n) (h : db.WellKept l) :
    db.coordinator.Busy s x.statement.request (l.draft s) := by
  have hsession := hd.session
  rcases Nat.lt_or_ge rows.length n with hn | hn
  · rw [deletion_of_lt hn] at hsession
    exact (h.faithful.engaged s _ hsession).atWork
  · rw [deletion_of_le hn] at hsession
    exact (h.faithful.engaged s _ hsession).atWork.1

theorem DeletedTo.isIdle_eq_false : (x.become (.deletion t rows next n)).isIdle = false ∧
    (x.become (.deletion t rows next n)).isWaiting = false := by
  rcases Nat.lt_or_ge rows.length n with hn | hn
  · rw [deletion_of_lt hn]
    exact ⟨rfl, rfl⟩
  · rw [deletion_of_le hn]
    exact ⟨rfl, rfl⟩

/-- A session in a transaction stays in its place in a call while others move, unless it waits. -/
theorem Standing.stays_aside (h : db.Standing) (hx : db.sessions.get? s = some x)
    (hbusy : x.isIdle = false) (hgoes : x.isWaiting = false)
    (hopen : (db.coordinator.tx s).isOpen = true) (hm : m ≠ .advance s) :
    (db.perform m).sessions.get? s = some x := by
  cases hz : (db.perform m).sessions.get? s with
  | none =>
    obtain ⟨signals, htx⟩ := h.tx_aside hx hbusy hm
    obtain ⟨-, hclosed⟩ := (h.perform m).gone s hz
    rw [htx, hopen] at hclosed
    cases hclosed
  | some z =>
    rcases h.get?_aside hx hbusy hm hz with rfl | ⟨hwaits, -⟩
    · rfl
    · rw [hgoes] at hwaits
      cases hwaits

/-- A table that a session has for itself stays as it is while others move. -/
theorem WellKept.contents_aside (h : db.WellKept l) (hinside : m.isInside = true)
    (hnext : (db.perform m).coordinator.storage.nextRow ≠ 0)
    (hx : db.sessions.get? s = some x) (hbusy : x.isIdle = false) (hm : m ≠ .advance s)
    (hopen : (db.coordinator.tx s).isOpen = true)
    (hmode : db.coordinator.locks.mode? s t = some .exclusive) :
    (db.perform m).coordinator.storage.contents t = db.coordinator.storage.contents t := by
  have howns : db.Owns l s t (l.rows t) := ⟨h.faithful, hopen, hmode, rfl⟩
  have hafter := (howns.step (h.faithful.perform hinside hnext) (ends_aside hx hbusy hm)).evolved
  rw [draft_aside hx hbusy hm] at hafter
  exact hafter.unique howns.evolved

theorem DeletedTo.aside (hd : db.DeletedTo s x t before rows next n) (h : db.WellKept l)
    (ht : t ∈ x.statement.request.writes) (hinside : m.isInside = true)
    (hnext : (db.perform m).coordinator.storage.nextRow ≠ 0) (hm : m ≠ .advance s) :
    (db.perform m).DeletedTo s x t before rows next n := by
  obtain ⟨hbusy, hgoes⟩ : (x.become (.deletion t rows next n)).isIdle = false ∧
      (x.become (.deletion t rows next n)).isWaiting = false := isIdle_eq_false
  have hb := hd.busy h
  refine ⟨h.standing.stays_aside hd.session hbusy hgoes hb.isOpen hm, ?_⟩
  rw [← hd.scan, Storage.scan_eq, Storage.scan_eq,
    h.contents_aside hinside hnext hd.session hbusy hm hb.isOpen (hb.written ht)]

/-- The next row is there to be deleted, and after the last one the statement goes on. -/
theorem DeletedTo.advance (hd : db.DeletedTo s x t before rows next n) (h : db.WellKept l)
    (ht : t ∈ x.statement.request.writes) (hrows : ∀ row ∈ rows, row ∈ before)
    (hnodup : rows.Nodup) (hn : n ≤ rows.length) :
    (db.perform (.advance s)).DeletedTo s x t before rows next (n + 1) := by
  have hb := hd.busy h
  have hsession := hd.session
  rw [deletion_of_le hn] at hsession
  rw [perform_advance hsession]
  rcases Nat.lt_or_eq_of_le hn with hlt | rfl
  · have hdrop := List.drop_eq_getElem_cons hlt
    have htake : rows.take (n + 1) = rows.take n ++ [rows[n]] := List.take_succ_eq_append_getElem hlt
    have hleft : rows[n] ∉ rows.take n := by
      intro hin
      obtain ⟨i, hi, heq⟩ := List.mem_take_iff_getElem.mp hin
      have hsame := (hnodup.getElem_inj_iff).mp heq
      omega
    have hscanned : rows[n] ∈ db.coordinator.storage.scan t := by
      rw [hd.scan, List.mem_filter]
      exact ⟨hrows _ (List.getElem_mem hlt), decide_eq_true hleft⟩
    obtain ⟨hok, hscan⟩ := h.faithful.inStep.recordDelete_scanned
      h.faithful.coherent.toHoldersAgree h.standing.booked (hb.written ht) hscanned
    rw [hdrop, step_deleting hok]
    refine ⟨?_, ?_⟩
    · rw [deletion_of_le hlt]
      exact IdMap.get?_insert_self
    · dsimp only
      rw [hscan, hd.scan, List.filter_filter, htake]
      refine List.filter_congr fun row _ => ?_
      simp only [List.mem_append, List.mem_singleton, not_or, Bool.decide_and, ne_eq, Bool.and_comm]
  · rw [List.drop_length]
    refine ⟨?_, ?_⟩
    · rw [deletion_of_lt (Nat.lt_succ_self _)]
      exact IdMap.get?_insert_self
    · show db.coordinator.storage.scan t = _
      rw [hd.scan, List.take_length, List.take_of_length_le (Nat.le_succ _)]

/-- However the steps of others fall between them, each step of the session deletes one row. -/
theorem DeletedTo.run (hd : db.DeletedTo s x t before rows next 0) (h : db.WellKept l)
    (ht : t ∈ x.statement.request.writes) (hrows : ∀ row ∈ rows, row ∈ before)
    (hnodup : rows.Nodup) (hduring : db.RunsInside during)
    (hn : during.countP (·.advances s) ≤ rows.length + 1) :
    (db.run during).DeletedTo s x t before rows next (during.countP (·.advances s)) := by
  induction during using List.reverseRecOn with
  | nil => exact hd
  | append_singleton during m ih =>
    obtain ⟨hbefore, hinside, hnext, -⟩ := runsInside_append.mp hduring
    rw [List.countP_append, List.countP_singleton] at hn ⊢
    have hkept := h.run hbefore
    have hdeleted := ih hbefore (Nat.le_trans (Nat.le_add_right _ _) hn)
    rw [run_concat]
    cases hm : m.advances s with
    | true =>
      rw [hm, if_pos rfl] at hn
      obtain rfl : m = .advance s := by
        cases m with
        | advance y => exact congrArg Move.advance (of_decide_eq_true hm)
        | _ => cases hm
      exact hdeleted.advance hkept ht hrows hnodup (Nat.le_of_succ_le_succ hn)
    | false =>
      refine hdeleted.aside hkept ht hinside hnext ?_
      rintro rfl
      exact absurd hm (by simp [Move.advances])

/-- After the last row the statement goes on, and none of the rows that pass the test is left. -/
theorem DeletedTo.finished {test : Row → Bool}
    (hd : db.DeletedTo s x t before (before.filter test) next ((before.filter test).length + 1)) :
    db.sessions.get? s = some (x.become (.running (next (.ok (before.filter test).length)))) ∧
      db.coordinator.storage.scan t = before.filter (!test ·) := by
  have hsession := hd.session
  rw [deletion_of_lt (Nat.lt_succ_self _)] at hsession
  refine ⟨hsession, ?_⟩
  rw [hd.scan, List.take_of_length_le (Nat.le_succ _)]
  refine List.filter_congr fun row hrow => ?_
  simp [List.mem_filter, hrow]

/-- A statement deletes all rows of a table that pass a test: it starts with all of them, and with
each of its next steps, whatever others do in between, one of them is deleted. At the end exactly
these rows are gone. -/
structure DeletesAll (db : Database) (s : SessionId) (x : Session) (t : TableId) (test : Row → Bool)
    (next : Except Failure Nat → StatementBody) (before rows : List Row) : Prop where
  starts : x.step s db.coordinator = (x.become (.deleting t rows 0 next), db.coordinator)
  goes : ∀ during, db.RunsInside (.advance s :: during) →
    during.countP (·.advances s) ≤ rows.length + 1 →
      (db.run (.advance s :: during)).DeletedTo s x t before rows next (during.countP (·.advances s))
  ends : ∀ during, db.RunsInside (.advance s :: during) →
    during.countP (·.advances s) = rows.length + 1 →
      (db.run (.advance s :: during)).sessions.get? s =
          some (x.become (.running (next (.ok rows.length)))) ∧
        (db.run (.advance s :: during)).coordinator.storage.scan t = before.filter (!test ·)

theorem WellKept.deletesAll (h : db.WellKept l) (hx : db.sessions.get? s = some x)
    {test : Row → Bool} (hactivity : x.activity = .running (.deleteWhere t test next))
    (hwritable : db.coordinator.writable x.statement.request t = .ok ()) :
    db.DeletesAll s x t test next (db.coordinator.storage.scan t)
      ((db.coordinator.storage.scan t).filter test) := by
  have hb := (h.faithful.engaged s x hx).atWork
  simp only [AtWork, hactivity] at hb
  have ht := mem_writes_of_writable_ok hwritable
  have hagree := h.faithful.coherent.toHoldersAgree
  have hstarts : x.step s db.coordinator =
      (x.become (.deleting t ((db.coordinator.storage.scan t).filter test) 0 next), db.coordinator) := by
    simp only [step, hactivity, runBody, h.faithful.inStep.deletable_eq hagree h.standing.booked
      (fun t ht => hb.written ht), hwritable]
    rfl
  have hnodup : ((db.coordinator.storage.scan t).filter test).Nodup := by
    have hheld := isSome_of_exclusive (hb.written ht)
    rw [h.faithful.inStep.scan_view hagree hheld]
    have hpositions := h.faithful.inStep.increasing_view hagree hheld
    exact (List.Nodup.of_map Row.position (hpositions.imp Nat.ne_of_lt)).filter test
  have hdeleted : (db.perform (.advance s)).DeletedTo s x t (db.coordinator.storage.scan t)
      ((db.coordinator.storage.scan t).filter test) next 0 := by
    rw [perform_advance hx, hstarts]
    refine ⟨?_, ?_⟩
    · rw [deletion_of_le (Nat.zero_le _)]
      exact IdMap.get?_insert_self
    · exact (List.filter_eq_self.mpr fun row _ => decide_eq_true (List.not_mem_nil)).symm
  have hgoes (during : List Move) (hduring : db.RunsInside (.advance s :: during))
      (hn : during.countP (·.advances s) ≤ ((db.coordinator.storage.scan t).filter test).length + 1) :=
    hdeleted.run (h.perform hduring.1 hduring.2.1) ht (fun row hrow => (List.mem_filter.mp hrow).1)
      hnodup hduring.2.2 hn
  refine ⟨hstarts, hgoes, fun during hduring hn => ?_⟩
  have hend := hgoes during hduring (Nat.le_of_eq hn)
  rw [hn] at hend
  exact hend.finished

end Database

/-- The next step of a session goes on with the body of its statement, and the answer that the body
gets does not speak of a row that another session works on. -/
def Session.GetsUnopposed {α : Type} (x : Session) (s : SessionId) (c : Coordinator)
    (next : Except Failure α → StatementBody) : Prop :=
  ∃ answer, (x.step s c).1 = x.become (.running (next answer)) ∧ Unopposed answer

namespace Database

/-- Who owns a row has its table locked exclusively. So no statement is told that another session
works on a row, and a delete of all rows that pass a test is refused before it has done anything, or
deletes exactly the visible rows that pass, whatever the other sessions do meanwhile. -/
theorem owners_hold_locks {settings : Settings} {journal : Journal} {db : Database}
    {moves : List Move} (hopen : openWith? settings journal = .ok db)
    (hinside : db.RunsInside moves) :
    (∀ s t p row, (db.run moves).coordinator.storage.get? t p = some row →
      (db.run moves).coordinator.owners.owner? row.id = some s →
      (db.run moves).coordinator.locks.mode? s t = some .exclusive) ∧
    ∀ s x, (db.run moves).sessions.get? s = some x →
      (∀ t next, x.activity = .running (.scan t next) →
        x.GetsUnopposed s (db.run moves).coordinator next) ∧
      (∀ t values next, x.activity = .running (.insert t values next) →
        x.GetsUnopposed s (db.run moves).coordinator next) ∧
      (∀ t p next, x.activity = .running (.delete t p next) →
        x.GetsUnopposed s (db.run moves).coordinator next) ∧
      (∀ t test next, x.activity = .running (.deleteWhere t test next) →
        (∃ f, (db.run moves).coordinator.writable x.statement.request t = .error f ∧
          Unopposed (.error f : Except Failure Nat) ∧ x.step s (db.run moves).coordinator =
            (x.become (.running (next (.error f))), (db.run moves).coordinator)) ∨
        (db.run moves).DeletesAll s x t test next ((db.run moves).coordinator.storage.scan t)
          (((db.run moves).coordinator.storage.scan t).filter test)) := by
  have h := (wellKept_openWith hopen).run hinside
  generalize db.run moves = late at h
  generalize db.ledger .empty moves = l at h
  have hinStep := h.faithful.inStep
  have hagree := h.faithful.coherent.toHoldersAgree
  have hbooked := h.standing.booked
  refine ⟨fun s t p row hrow howner => hinStep.locked_of_owner hagree (hbooked s) hrow howner,
    fun s x hx => ⟨fun t next hactivity => ?_, fun t values next hactivity => ?_,
      fun t p next hactivity => ?_, fun t test next hactivity => ?_⟩⟩
  all_goals
    have hb := (h.faithful.engaged s x hx).atWork
    simp only [AtWork, hactivity] at hb
  · refine ⟨late.coordinator.scanTable x.statement.request t, ?_, unopposed_scanTable⟩
    simp only [step, hactivity, runBody]
  · refine ⟨(late.coordinator.insertInto s x.statement.request t values).1, ?_,
      hinStep.unopposed_insertInto⟩
    simp only [step, hactivity, runBody]
  · refine ⟨(late.coordinator.deleteAt s x.statement.request t p).1, ?_,
      hinStep.unopposed_deleteAt hagree hbooked fun t ht => hb.written ht⟩
    simp only [step, hactivity, runBody]
  -- The check of the table is the only one that can refuse: the rows themselves are then free.
  · cases hwritable : late.coordinator.writable x.statement.request t with
    | ok done => exact .inr (h.deletesAll hx hactivity hwritable)
    | error f =>
      refine .inl ⟨f, rfl, unopposed_writable.passed hwritable, ?_⟩
      simp only [step, hactivity, runBody, hinStep.deletable_eq hagree hbooked
        (fun t ht => hb.written ht), hwritable]
      rfl

/-- Session 1 commits two rows and then deletes all there are. -/
def insertThenDeleteAll : List Move :=
  [.createTable "t" false, .connect, .connect,
    .call 1 (.execute ⟨.write [1], fun _ => .insert 1 [] fun _ => .insert 1 [] fun _ => .done ⟨2, []⟩⟩)] ++
  List.replicate 9 (.advance 1) ++
  [.call 1 (.execute ⟨.write [1], fun _ => .deleteWhere 1 (fun _ => true) fun _ => .done ⟨2, []⟩⟩)] ++
  List.replicate 3 (.advance 1)

/-- Session 2 asks for the table while the rows are deleted. -/
def deleteAside : List Move :=
  [.call 2 (.execute ⟨.write [1], fun _ => .delete 1 1 fun _ => .done ⟨1, []⟩⟩), .advance 1,
    .advance 2, .advance 2, .advance 1, .advance 2]

theorem owners_hold_locks_insertThenDeleteAll : ∃ db x next,
    openWith? .default .empty = .ok db ∧ db.RunsInside (insertThenDeleteAll ++ .advance 1 :: deleteAside) ∧
    (db.run insertThenDeleteAll).sessions.get? 1 = some x ∧
    x.activity = .running (.deleteWhere 1 (fun _ => true) next) ∧
    (db.run insertThenDeleteAll).DeletesAll 1 x 1 (fun _ => true) next
      [⟨1, 1, 1, []⟩, ⟨2, 2, 1, []⟩] [⟨1, 1, 1, []⟩, ⟨2, 2, 1, []⟩] ∧
    (db.run (insertThenDeleteAll ++ .advance 1 :: deleteAside)).coordinator.owners.owner? 2 = some 1 ∧
    (db.run (insertThenDeleteAll ++ .advance 1 :: deleteAside)).coordinator.locks.mode? 1 1 =
      some .exclusive := by
  obtain ⟨db, hopen⟩ : ∃ db, openWith? .default .empty = .ok db := ⟨_, rfl⟩
  have hdb := openWith?_eq hopen
  have hinside : db.RunsInside (insertThenDeleteAll ++ .advance 1 :: deleteAside) := by
    rw [hdb]
    decide
  obtain ⟨x, next, hs, hactivity, hwritable⟩ : ∃ x next,
      (db.run insertThenDeleteAll).sessions.get? 1 = some x ∧
      x.activity = .running (.deleteWhere 1 (fun _ => true) next) ∧
      (db.run insertThenDeleteAll).coordinator.writable x.statement.request 1 = .ok () := by
    rw [hdb]
    exact ⟨_, _, rfl, rfl, rfl⟩
  have hscan : (db.run insertThenDeleteAll).coordinator.storage.scan 1 =
      [⟨1, 1, 1, []⟩, ⟨2, 2, 1, []⟩] := by
    rw [hdb]
    decide
  have hrow : (db.run (insertThenDeleteAll ++ .advance 1 :: deleteAside)).coordinator.storage.get? 1 2 =
      some ⟨2, 2, 1, []⟩ := by
    rw [hdb]
    decide
  have howner : (db.run (insertThenDeleteAll ++ .advance 1 :: deleteAside)).coordinator.owners.owner?
      2 = some 1 := by
    rw [hdb]
    decide
  have hmode := (owners_hold_locks hopen hinside).1 1 1 2 _ hrow howner
  obtain ⟨-, -, -, hdeletes⟩ := (owners_hold_locks hopen (runsInside_append.mp hinside).1).2 1 x hs
  rcases hdeletes 1 _ next hactivity with ⟨f, hrefused, -⟩ | hall
  · rw [hwritable] at hrefused
    cases hrefused
  · rw [hscan] at hall
    exact ⟨db, x, next, hopen, hinside, hs, hactivity, hall, howner, hmode⟩

end Database

end LockingDb
