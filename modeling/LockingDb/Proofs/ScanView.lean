import LockingDb.Proofs.DatabaseLedger

namespace LockingDb

open Coordinator Session Change

namespace Coordinator

variable {c : Coordinator} {s : SessionId} {t : TableId} {l : Ledger}

/-- What a session sees of a table that it has a lock on. -/
theorem InStep.scan_view (h : c.InStep l) (hagree : c.locks.HoldersAgree)
    (hheld : (c.locks.mode? s t).isSome = true) : c.storage.scan t = (l.view s t).values := by
  have hevolved := h.evolved_of_held hagree hheld
  rw [Storage.scan_eq, hevolved.scan, ← hevolved.changeAll_net, net_onTable]
  rfl

/-- The rows that a session sees are listed in the order of their positions. -/
theorem InStep.increasing_view (h : c.InStep l) (hagree : c.locks.HoldersAgree)
    (hheld : (c.locks.mode? s t).isSome = true) :
    ((l.view s t).values.map Row.position).Pairwise (· < ·) := by
  have hevolved := h.evolved_of_held hagree hheld
  have hview : l.view s t = (l.rows t).changeAll (onTable t (l.draft s).changes) := by
    rw [← hevolved.changeAll_net, net_onTable]
    rfl
  have hkeys : (l.view s t).values.map Row.position = (l.view s t).keys := by
    unfold IdMap.values IdMap.keys
    rw [List.map_map]
    refine List.map_congr_left fun e he => ?_
    have hrow := IdMap.mem_entries.mp he
    rw [hview] at hrow
    exact (h.sound.placed t e.1 e.2 (Storage.get?_eq.trans (hevolved.get?_rows hrow))).2
  rw [hkeys]
  exact (l.view s t).increasing

end Coordinator

namespace Database

variable {db : Database}

/-- The times of the commits grow. A statement that scans a table gets the committed rows with what
its own transaction has changed, in the order of their positions, at every isolation level; if it
must not read the table it is told so. -/
theorem scan_answers_view {settings : Settings} {journal : Journal} {moves : List Move}
    (hopen : openWith? settings journal = .ok db) (hinside : db.RunsInside moves) :
    (db.ledger .empty moves).commits.Pairwise (·.time < ·.time) ∧
    ∀ s x t next, (db.run moves).sessions.get? s = some x →
      x.activity = .running (.scan t next) →
        ((x.step s (db.run moves).coordinator).1.activity =
          .running (next (((db.run moves).coordinator.readable x.statement.request t).map
            fun _ => ((db.ledger .empty moves).view s t).values))) ∧
        ((db.run moves).coordinator.readable x.statement.request t = .ok () →
          (((db.ledger .empty moves).view s t).values.map Row.position).Pairwise (· < ·)) := by
  have hfaithful := (faithful_openWith hopen).run hinside
  generalize db.run moves = after at hfaithful
  generalize db.ledger .empty moves = l at hfaithful
  have hinStep := hfaithful.inStep
  have hagree := hfaithful.coherent.toHoldersAgree
  refine ⟨hinStep.timed, fun s x t next hs hactivity => ?_⟩
  have hatWork := (hfaithful.engaged s x hs).atWork
  simp only [AtWork, hactivity] at hatWork
  simp only [step, hactivity, runBody, scanTable]
  cases hreadable : after.coordinator.readable x.statement.request t with
  | error f => exact ⟨rfl, fun h => by cases h⟩
  | ok done =>
    have hheld := hatWork.held (allowsRead_of_readable hreadable)
    refine ⟨?_, fun _ => hinStep.increasing_view hagree hheld⟩
    dsimp only [Session.become]
    rw [hinStep.scan_view hagree hheld]
    rfl

/-- Session 1 commits two rows. Session 2 deletes the first of them, inserts another one and scans. -/
def deleteInsertScan : List Move :=
  [.createTable "t" false, .connect, .connect,
    .call 1 (.execute ⟨.write [1], fun _ => .insert 1 [] fun _ => .insert 1 [] fun _ => .done ⟨2, []⟩⟩)] ++
  List.replicate 9 (.advance 1) ++
  [.call 2 (.execute ⟨.write [1], fun _ => .delete 1 1 fun _ => .insert 1 [] fun _ =>
    .scan 1 fun _ => .done ⟨2, []⟩⟩)] ++ List.replicate 5 (.advance 2)

theorem scan_answers_view_deleteInsertScan : ∃ db, openWith? .default .empty = .ok db ∧
    db.RunsInside deleteInsertScan ∧
    (db.ledger .empty deleteInsertScan).commits.Pairwise (·.time < ·.time) ∧
    ∃ x next, (db.run deleteInsertScan).sessions.get? 2 = some x ∧
      x.activity = .running (.scan 1 next) ∧
      (x.step 2 (db.run deleteInsertScan).coordinator).1.activity =
        .running (next (.ok [⟨2, 2, 1, []⟩, ⟨3, 3, 1, []⟩])) := by
  obtain ⟨db, hopen⟩ : ∃ db, openWith? .default .empty = .ok db := ⟨_, rfl⟩
  have hdb := openWith?_eq hopen
  have hinside : db.RunsInside deleteInsertScan := by
    rw [hdb]
    decide
  have hview : ((db.ledger .empty deleteInsertScan).view 2 1).values =
      [⟨2, 2, 1, []⟩, ⟨3, 3, 1, []⟩] := by
    rw [hdb]
    decide
  obtain ⟨x, next, hs, hactivity, hreadable⟩ : ∃ x next,
      (db.run deleteInsertScan).sessions.get? 2 = some x ∧ x.activity = .running (.scan 1 next) ∧
        (db.run deleteInsertScan).coordinator.readable x.statement.request 1 = .ok () := by
    rw [hdb]
    exact ⟨_, _, rfl, rfl, rfl⟩
  obtain ⟨htimed, hscan⟩ := scan_answers_view hopen hinside
  obtain ⟨hanswer, -⟩ := hscan 2 x 1 next hs hactivity
  rw [hreadable, hview] at hanswer
  exact ⟨db, hopen, hinside, htimed, x, next, hs, hactivity, hanswer⟩

end Database

end LockingDb
