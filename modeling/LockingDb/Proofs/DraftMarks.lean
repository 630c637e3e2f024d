import LockingDb.Proofs.Ledger
import Mathlib.Data.List.InsertIdx

namespace LockingDb

namespace Draft

variable {d : Draft} {tx tx' : SessionTx} {k : Change} {i : Nat} {name : String}

/-- The savepoints of a session are those of its draft, and what they keep of the changes is part of
what the later ones keep. -/
structure Marked (d : Draft) (tx : SessionTx) : Prop where
  same : tx.savepoints.map (fun p => (p.name, p.logLength)) =
    d.savepoints.map (fun m => (m.1, m.2.length))
  nested : d.savepoints.Pairwise (·.2 <+: ·.2)
  kept : ∀ m ∈ d.savepoints, m.2 <+: d.changes

/-- A statement is running: it started where the session has noted it, after all savepoints. -/
structure InStatement (d : Draft) (tx : SessionTx) : Prop where
  started : d.statement <+: d.changes
  start : tx.statementStart = d.statement.length
  marks : ∀ m ∈ d.savepoints, m.2 <+: d.statement

theorem marked_empty (h : tx.savepoints = []) : empty.Marked tx := by
  refine ⟨?_, .nil, nofun⟩
  rw [h]
  rfl

theorem Marked.of_savepoints (h : d.Marked tx) (hsame : tx'.savepoints = tx.savepoints) :
    d.Marked tx' := by
  refine ⟨?_, h.nested, h.kept⟩
  rw [hsame]
  exact h.same

theorem Marked.add (h : d.Marked tx) : (d.add k).Marked tx :=
  ⟨h.same, h.nested, fun m hm => (h.kept m hm).trans (List.prefix_append _ _)⟩

theorem Marked.beginStatement (h : d.Marked tx) : d.beginStatement.Marked tx :=
  ⟨h.same, h.nested, h.kept⟩

theorem Marked.undoStatement (h : d.Marked tx) (hin : d.InStatement tx') :
    d.undoStatement.Marked tx := ⟨h.same, h.nested, hin.marks⟩

theorem Marked.inStatement (h : d.Marked tx) (hstart : tx'.statementStart = d.changes.length) :
    d.beginStatement.InStatement tx' := ⟨List.prefix_refl _, hstart, h.kept⟩

theorem InStatement.add (h : d.InStatement tx) (hstart : tx'.statementStart = tx.statementStart) :
    (d.add k).InStatement tx' :=
  ⟨h.started.trans (List.prefix_append _ _), hstart.trans h.start, h.marks⟩

theorem InStatement.of_start (h : d.InStatement tx) (hstart : tx'.statementStart = tx.statementStart) :
    d.InStatement tx' := ⟨h.started, hstart.trans h.start, h.marks⟩

/-- Session and draft find the same savepoint under a name. -/
theorem Marked.savepointIndex? (h : d.Marked tx) : tx.savepointIndex? name = d.place? name := by
  have hsession : tx.savepointIndex? name =
      (tx.savepoints.map fun p => (p.name, p.logLength)).findIdx? (·.1 = name) := by
    rw [List.findIdx?_map]
    rfl
  have hdraft : d.place? name =
      (d.savepoints.map fun m => (m.1, m.2.length)).findIdx? (·.1 = name) := by
    rw [List.findIdx?_map]
    rfl
  rw [hsession, hdraft, h.same]

theorem Marked.setSavepoint (h : d.Marked tx) (hlength : tx.actions.length = d.changes.length) :
    (d.setSavepoint name).Marked (tx.setSavepoint name) := by
  -- The older savepoint of the name is left out on both sides.
  have hset (ps : List Savepoint) (ms : List (String × List Change))
      (hsame : ps.map (fun p => (p.name, p.logLength)) = ms.map (fun m => (m.1, m.2.length)))
      (hsub : ms.Sublist d.savepoints) :
      ({ d with savepoints := ms ++ [(name, d.changes)] } : Draft).Marked
        { tx with savepoints := ps ++ [⟨name, tx.actions.length, tx.actionAt⟩] } := by
    refine ⟨?_, List.pairwise_append.mpr ⟨h.nested.sublist hsub, List.pairwise_singleton .., ?_⟩, ?_⟩
    · simp [hsame, hlength]
    · intro m hm last hlast
      rw [List.mem_singleton.mp hlast]
      exact h.kept m (hsub.subset hm)
    · intro m hm
      rcases List.mem_append.mp hm with hold | hnew
      · exact h.kept m (hsub.subset hold)
      · cases List.mem_singleton.mp hnew
        exact List.prefix_refl _
  unfold Draft.setSavepoint SessionTx.setSavepoint
  rw [h.savepointIndex?]
  cases d.place? name with
  | none => exact hset _ _ h.same (List.Sublist.refl _)
  | some i =>
    refine hset _ _ ?_ (List.eraseIdx_sublist _ _)
    rw [← List.eraseIdx_map, ← List.eraseIdx_map, h.same]

theorem Marked.take (h : d.Marked tx) (n : Nat) (hsame : tx'.savepoints = tx.savepoints.take n) :
    ({ d with savepoints := d.savepoints.take n } : Draft).Marked tx' := by
  refine ⟨?_, h.nested.sublist (List.take_sublist _ _), fun m hm => h.kept m (List.mem_of_mem_take hm)⟩
  rw [hsame, List.map_take, List.map_take, h.same]

theorem Marked.getElem? (h : d.Marked tx) : (tx.savepoints[i]? = none ∧ d.savepoints[i]? = none) ∨
    ∃ savepoint m, tx.savepoints[i]? = some savepoint ∧ d.savepoints[i]? = some m ∧
      savepoint.logLength = m.2.length := by
  have hi := congrArg (·[i]?) h.same
  simp only [List.getElem?_map] at hi
  cases hs : tx.savepoints[i]? with
  | none =>
    rw [hs] at hi
    exact Or.inl ⟨rfl, Option.map_eq_none_iff.mp hi.symm⟩
  | some savepoint =>
    rw [hs] at hi
    obtain ⟨m, hm, heq⟩ := Option.map_eq_some_iff.mp hi.symm
    exact Or.inr ⟨savepoint, m, rfl, hm, (congrArg Prod.snd heq).symm⟩

/-- What a savepoint keeps is kept of all savepoints that stay with it. -/
theorem Marked.undoTo (h : d.Marked tx) {m : String × List Change} (hm : d.savepoints[i]? = some m)
    (hsame : tx'.savepoints = tx.savepoints.take (i + 1)) : (d.undoTo i).Marked tx' := by
  have hcut := h.take (i + 1) hsame
  unfold Draft.undoTo
  rw [hm]
  refine ⟨hcut.same, hcut.nested, fun n hn => ?_⟩
  obtain ⟨j, hj⟩ := List.mem_iff_getElem?.mp hn
  rw [List.getElem?_take] at hj
  split at hj
  next hlt =>
    rcases Nat.lt_or_eq_of_le (Nat.le_of_lt_succ hlt) with hbefore | heq
    · obtain ⟨hjlen, rfl⟩ := List.getElem?_eq_some_iff.mp hj
      obtain ⟨hilen, rfl⟩ := List.getElem?_eq_some_iff.mp hm
      exact List.pairwise_iff_getElem.mp h.nested j i hjlen hilen hbefore
    · rw [heq, hm] at hj
      cases hj
      exact List.prefix_refl _
  next => cases hj

theorem undoTo_changes {m : String × List Change} (hm : d.savepoints[i]? = some m) :
    (d.undoTo i).changes = m.2 := by
  unfold Draft.undoTo
  rw [hm]

end Draft

end LockingDb
