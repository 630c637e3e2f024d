import LockingDb.Proofs.ChosenModes
import LockingDb.Proofs.OwnedRows
import LockingDb.Proofs.SavepointMoves

namespace LockingDb

open Coordinator Session

namespace Database

variable {db : Database} {s : SessionId} {m : Move} {x : Session} {name : String}
  {moves : List Move}

/-- The name of the savepoint that a move sets in the session. -/
def marks? (db : Database) (s : SessionId) : Move → Option String
  | .call y k =>
    if y = s then
      (db.sessions.get? s).bind fun x => if x.isIdle && !x.closed then k.marks? else none
    else none
  | _ => none

theorem exists_of_marks? (hset : db.marks? s m = some name) : ∃ x, db.sessions.get? s = some x ∧
    x.isIdle = true ∧ x.closed = false ∧ m = .call s (.savepoint name) := by
  cases m with
  | call y k =>
    unfold marks? at hset
    dsimp only at hset
    split at hset
    next hy =>
      obtain ⟨x, hx, hname⟩ := Option.bind_eq_some_iff.mp hset
      split at hname
      next hready =>
        simp only [Bool.and_eq_true, Bool.not_eq_true'] at hready
        cases k with
        | savepoint other =>
          cases hname
          exact ⟨x, hx, hready.1, hready.2, by rw [hy]⟩
        | _ => cases hname
      next => cases hname
    next => cases hset
  | _ => cases hset

/-- Savepoints and log of a session are in order, and outside of the runs of its statement it has
done no action since it began the statement. -/
structure Piled (db : Database) (s : SessionId) : Prop where
  stacked : (db.coordinator.tx s).Stacked
  rested : (∀ x, db.sessions.get? s = some x → x.phase ≠ .inside) → (db.coordinator.tx s).Rested

/-- A session at work in a run of its statement stays there until its next step. -/
theorem Standing.inside_aside (h : db.Standing) (hx : db.sessions.get? s = some x)
    (hin : x.phase = .inside) (hm : m ≠ .advance s) : (db.perform m).sessions.get? s = some x := by
  obtain ⟨hbusy, hgoes, hopen⟩ := (h.placed s x hx).stands.of_inside hin
  exact h.stays_aside hx hbusy hgoes hopen hm

/-- Apart from its steps a session works on its savepoints by its calls only. -/
theorem Standing.settles_savepoints (h : db.Standing) (hs : (db.coordinator.tx s).Stacked)
    (hm : m ≠ .advance s) :
    (db.coordinator.tx s).Settles ((db.perform m).coordinator.tx s) (db.marks? s m) := by
  have hstays {c : Coordinator} (hsame : c = db.coordinator) :
      (db.coordinator.tx s).Settles (c.tx s) none := by
    rw [hsame]
    exact SessionTx.settles_of_stack rfl
  have hother (hown : m.mover? ≠ some s) :
      (db.coordinator.tx s).Settles ((db.perform m).coordinator.tx s) none := by
    rcases h.tx_of_other hown with ⟨signals, htx⟩ | ⟨-, level, htx⟩
    · rw [htx]
      exact SessionTx.settles_of_stack rfl
    · rw [htx]
      exact SessionTx.settles_cleared rfl
  cases m with
  | advance y =>
    refine hother fun hown => hm ?_
    cases hown
    rfl
  | call y k =>
    by_cases hy : y = s
    · subst hy
      have hmarks : db.marks? y (.call y k) = (db.sessions.get? y).bind fun x =>
          if x.isIdle && !x.closed then k.marks? else none := if_pos rfl
      rw [hmarks]
      cases hx : db.sessions.get? y with
      | none =>
        refine hstays ?_
        show (db.withSession y _).coordinator = _
        unfold Database.withSession
        rw [hx]
      | some x =>
        rw [Option.bind_some]
        by_cases hidle : x.isIdle = true
        · have hcalled := settles_call (x := x) hs k
          rw [perform_call hx hidle, hidle, Bool.true_and]
          cases hclosed : x.closed with
          | true => simpa [hclosed] using hcalled
          | false => simpa [hclosed] using hcalled
        · have hbusy := Bool.eq_false_iff.mpr hidle
          rw [hbusy]
          exact hstays (call_of_busy (l := .empty) hx hbusy).1
    · have hmarks : db.marks? s (.call y k) = none := if_neg hy
      rw [hmarks]
      exact hother fun hown => hy (Option.some.inj hown)
  | drop y =>
    by_cases hown : (Move.drop y).mover? = some s
    · rcases perform_called hown hm with hsame | ⟨x, k, hx, hidle, hcall, hmade⟩
      · exact hstays hsame
      · obtain ⟨-, rfl⟩ := hcall.resolve_left nofun
        have hcalled := settles_call (x := x) hs .close
        rw [hmade]
        simp only [SessionCall.marks?, ite_self] at hcalled
        exact hcalled
    · exact hother hown
  | _ => exact hother nofun

theorem Piled.restacks (hp : db.Piled s) (h : db.Standing) (m : Move) :
    (db.coordinator.tx s).Restacks ((db.perform m).coordinator.tx s) (db.marks? s m) ∧
      (db.perform m).Piled s := by
  by_cases hm : m = .advance s
  · subst hm
    cases hx : db.sessions.get? s with
    | none =>
      have hstays : db.perform (.advance s) = db := by
        simp [perform, Database.advance, withSession, hx]
      rw [hstays]
      exact ⟨SessionTx.restacks_refl _, hp⟩
    | some x =>
      have hbefore : x.phase ≠ .inside → (db.coordinator.tx s).Rested := fun hout =>
        hp.rested fun y hy => by
          rw [hx] at hy
          cases hy
          exact hout
      obtain ⟨hstep, hrested⟩ := restacks_step hp.stacked hbefore
      rw [perform_advance hx]
      refine ⟨hstep, hstep.stacked hp.stacked fun hset => absurd rfl hset, fun hout => ?_⟩
      exact hrested (hout _ IdMap.get?_insert_self)
  · have hsettles := h.settles_savepoints hp.stacked hm
    have hrested (hset : db.marks? s m ≠ none) : (db.coordinator.tx s).Rested := by
      obtain ⟨name, hname⟩ := Option.ne_none_iff_exists'.mp hset
      obtain ⟨x, hx, hidle, -⟩ := exists_of_marks? hname
      refine hp.rested fun y hy => ?_
      rw [hx] at hy
      cases hy
      simp [phase, activity_of_isIdle hidle]
    refine ⟨hsettles.restacks, hsettles.restacks.stacked hp.stacked hrested, fun hout => ?_⟩
    refine hsettles.rested (hp.rested fun x hx hin => ?_)
    exact hout x (h.inside_aside hx hin hm) hin

/-- After how many moves of a run the session has last set a savepoint of the name. -/
def lastSet (db : Database) (s : SessionId) (name : String) : List Move → Nat
  | [] => 0
  | m :: rest =>
    match (db.perform m).lastSet s name rest with
    | 0 => if db.marks? s m = some name then 1 else 0
    | n + 1 => n + 2

theorem lastSet_concat : db.lastSet s name (moves ++ [m]) =
    if (db.run moves).marks? s m = some name then moves.length + 1 else db.lastSet s name moves := by
  induction moves generalizing db with
  | nil => rfl
  | cons first rest ih =>
    show (match (db.perform first).lastSet s name (rest ++ [m]) with
      | 0 => if db.marks? s first = some name then 1 else 0
      | n + 1 => n + 2) = _
    have hrun : db.run (first :: rest) = (db.perform first).run rest := rfl
    rw [ih, hrun]
    by_cases hset : ((db.perform first).run rest).marks? s m = some name
    · rw [if_pos hset, if_pos hset]
      rfl
    · rw [if_neg hset, if_neg hset]
      rfl

theorem lastSet_le (moves : List Move) : db.lastSet s name moves ≤ moves.length := by
  induction moves using List.reverseRecOn with
  | nil => exact Nat.le_refl 0
  | append_singleton moves m ih =>
    rw [lastSet_concat, List.length_append, List.length_singleton]
    split <;> omega

/-- The savepoints of a session after a run, in the order in which they were set. -/
structure SetInOrder (db : Database) (s : SessionId) (moves : List Move) (ps : List Savepoint) :
    Prop where
  set : ∀ p ∈ ps, 0 < db.lastSet s p.name moves
  ordered : ps.Pairwise fun p q => db.lastSet s p.name moves < db.lastSet s q.name moves

theorem SetInOrder.concat {tx tx' : SessionTx} (h : db.SetInOrder s moves tx.savepoints)
    (hs : tx.Stacked) (hstep : tx.Restacks tx' ((db.run moves).marks? s m)) :
    db.SetInOrder s (moves ++ [m]) tx'.savepoints := by
  generalize hset : (db.run moves).marks? s m = set at hstep
  have hsame (hnone : set = none) (name : String) :
      db.lastSet s name (moves ++ [m]) = db.lastSet s name moves := by
    rw [lastSet_concat, hset, hnone]
    rfl
  have hpart (hnone : set = none) (hsub : tx'.savepoints.Sublist tx.savepoints) :
      db.SetInOrder s (moves ++ [m]) tx'.savepoints := by
    refine ⟨fun p hp => ?_, ?_⟩
    · rw [hsame hnone]
      exact h.set p (hsub.subset hp)
    · simp only [hsame hnone]
      exact h.ordered.sublist hsub
  cases hstep with
  | grows hsavepoints => exact hpart rfl (hsavepoints ▸ List.Sublist.refl _)
  | starts hsavepoints => exact hpart rfl (hsavepoints ▸ List.Sublist.refl _)
  | @cuts k n hsavepoints => exact hpart rfl (hsavepoints ▸ List.take_sublist k _)
  | @sets name hsavepoints =>
    rw [SessionTx.savepoints_setSavepoint hs.apart] at hsavepoints
    have hnew : db.lastSet s name (moves ++ [m]) = moves.length + 1 := by
      rw [lastSet_concat, hset, if_pos rfl]
    have hkept (p : Savepoint) (hp : p ∈ tx.savepoints.filter (·.name ≠ name)) :
        p ∈ tx.savepoints ∧ db.lastSet s p.name (moves ++ [m]) = db.lastSet s p.name moves := by
      obtain ⟨hin, hother⟩ := List.mem_filter.mp hp
      refine ⟨hin, ?_⟩
      rw [lastSet_concat, hset, if_neg]
      intro hname
      simp [Option.some.inj hname] at hother
    rw [hsavepoints]
    refine ⟨fun p hp => ?_, List.pairwise_append.mpr ⟨?_, List.pairwise_singleton .., ?_⟩⟩
    · rcases List.mem_append.mp hp with hold | hlast
      · rw [(hkept p hold).2]
        exact h.set p (hkept p hold).1
      · rw [List.mem_singleton.mp hlast, hnew]
        exact Nat.succ_pos _
    · refine (h.ordered.sublist List.filter_sublist).imp_of_mem fun {p q} hp hq hlt => ?_
      rw [(hkept p hp).2, (hkept q hq).2]
      exact hlt
    · intro p hp q hq
      rw [List.mem_singleton.mp hq, hnew, (hkept p hp).2]
      exact Nat.lt_succ_of_le (lastSet_le moves)

theorem Piled.run (hp : db.Piled s) (h : db.Standing)
    (hnone : (db.coordinator.tx s).savepoints = []) (moves : List Move) :
    (db.run moves).Piled s ∧
      db.SetInOrder s moves ((db.run moves).coordinator.tx s).savepoints := by
  induction moves using List.reverseRecOn with
  | nil =>
    refine ⟨hp, ?_⟩
    show db.SetInOrder s [] (db.coordinator.tx s).savepoints
    rw [hnone]
    exact ⟨nofun, .nil⟩
  | append_singleton moves m ih =>
    obtain ⟨hpiled, hordered⟩ := ih
    have hlast : db.run (moves ++ [m]) = (db.run moves).perform m := run_append
    obtain ⟨hstep, hafter⟩ := hpiled.restacks (h.run moves) m
    rw [hlast]
    exact ⟨hafter, hordered.concat hpiled.stacked hstep⟩

theorem piled_openWith {settings : Settings} {journal : Journal}
    (hopen : openWith? settings journal = .ok db) :
    db.Piled s ∧ db.Standing ∧ (db.coordinator.tx s).savepoints = [] := by
  rw [openWith?_eq hopen]
  exact ⟨⟨⟨List.nodup_nil, .nil, nofun, Nat.le_refl 0⟩, fun _ => rfl⟩,
    standing_fresh settings journal, rfl⟩

/-- What is in front of a savepoint has been set before it. -/
theorem SetInOrder.take {ps : List Savepoint} (h : db.SetInOrder s moves ps) {i : Nat} {p : Savepoint}
    (hp : ps[i]? = some p) : ps.take i =
      ps.filter fun q => db.lastSet s q.name moves < db.lastSet s p.name moves := by
  have hdrop : ps.drop i = p :: ps.drop (i + 1) := by
    obtain ⟨hi, rfl⟩ := List.getElem?_eq_some_iff.mp hp
    exact List.drop_eq_getElem_cons hi
  have hordered := h.ordered
  rw [← List.take_append_drop i ps, hdrop] at hordered
  obtain ⟨-, hlater, hbefore⟩ := List.pairwise_append.mp hordered
  have hnone : (ps.drop i).filter
      (fun q => db.lastSet s q.name moves < db.lastSet s p.name moves) = [] := by
    rw [hdrop]
    refine List.filter_eq_nil_iff.mpr fun q hq => ?_
    rcases List.mem_cons.mp hq with rfl | hq
    · simp
    · have hlt := (List.pairwise_cons.mp hlater).1 q hq
      simp [Nat.le_of_lt hlt]
  have hall : (ps.take i).filter
      (fun q => db.lastSet s q.name moves < db.lastSet s p.name moves) = ps.take i :=
    List.filter_eq_self.mpr fun q hq => decide_eq_true (hbefore q hq p List.mem_cons_self)
  calc ps.take i = (ps.take i).filter _ ++ (ps.drop i).filter _ := by
        rw [hall, hnone, List.append_nil]
    _ = (ps.take i ++ ps.drop i).filter _ := (List.filter_append ..).symm
    _ = _ := by rw [List.take_append_drop]

/-- The session releases a savepoint. -/
theorem SetInOrder.release (h : db.SetInOrder s moves ((db.run moves).coordinator.tx s).savepoints)
    (hx : (db.run moves).sessions.get? s = some x) (hidle : x.isIdle = true)
    (hopen : x.closed = false) {after : Database}
    (hafter : (db.run moves).perform (.call s (.release name)) = after) :
    (after.coordinator.tx s).actions = ((db.run moves).coordinator.tx s).actions ∧
    if ∃ p ∈ ((db.run moves).coordinator.tx s).savepoints, p.name = name then
      (after.sessions.get? s).bind Session.reply = some (.ok .done) ∧
      (after.coordinator.tx s).savepoints = ((db.run moves).coordinator.tx s).savepoints.filter
        fun p => db.lastSet s p.name moves < db.lastSet s name moves
    else
      (after.sessions.get? s).bind Session.reply = some (.error (.savepointNotFound name)) ∧
      (after.coordinator.tx s).savepoints = ((db.run moves).coordinator.tx s).savepoints := by
  subst hafter
  rw [perform_call hx hidle, call_of_open hopen]
  dsimp only [callOpen]
  rw [IdMap.get?_insert_self, Option.bind_some]
  cases hplace : ((db.run moves).coordinator.tx s).savepointIndex? name with
  | none =>
    have hnone : ¬∃ p ∈ ((db.run moves).coordinator.tx s).savepoints, p.name = name := by
      rintro ⟨p, hp, hname⟩
      have hother := List.findIdx?_eq_none_iff.mp hplace p hp
      simp [hname] at hother
    rw [if_neg hnone]
    exact ⟨rfl, rfl, rfl⟩
  | some i =>
    obtain ⟨hi, hname, -⟩ := List.findIdx?_eq_some_iff_getElem.mp hplace
    have hname := of_decide_eq_true hname
    rw [if_pos ⟨_, List.getElem_mem hi, hname⟩, ← hname, ← h.take (List.getElem?_eq_getElem hi)]
    have htx : ((db.run moves).coordinator.updateTx s (·.truncateSavepoints i)).tx s =
        ((db.run moves).coordinator.tx s).truncateSavepoints i := tx_updateTx_self
    dsimp only
    rw [htx]
    exact ⟨rfl, rfl, rfl⟩

/-- Whatever happens to a database, the savepoints of a session have different names, are in the order
of the log and of the moves that have set them, and none is behind the end of the log. To set one
leaves exactly one of its name, which is the last one and stands at the end of the log. To release one
removes exactly those that were set when it was or later. -/
theorem savepoints_stacked {settings : Settings} {journal : Journal}
    (hopen : openWith? settings journal = .ok db) (moves : List Move) (s : SessionId)
    {tx : SessionTx} (htx : (db.run moves).coordinator.tx s = tx) :
    (tx.savepoints.map Savepoint.name).Nodup ∧
    tx.savepoints.Pairwise (fun p q => p.logLength ≤ q.logLength) ∧
    (∀ p ∈ tx.savepoints, p.logLength ≤ tx.actions.length ∧ 0 < db.lastSet s p.name moves) ∧
    tx.savepoints.Pairwise
      (fun p q => db.lastSet s p.name moves < db.lastSet s q.name moves) ∧
    (∀ m name, (db.run moves).marks? s m = some name →
      (((db.run moves).perform m).coordinator.tx s).actions = tx.actions ∧
      (((db.run moves).perform m).coordinator.tx s).savepoints =
        tx.savepoints.filter (·.name ≠ name) ++ [⟨name, tx.actions.length, tx.actionAt⟩]) ∧
    ∀ x name after, (db.run moves).sessions.get? s = some x → x.isIdle = true → x.closed = false →
      (db.run moves).perform (.call s (.release name)) = after →
      (after.coordinator.tx s).actions = tx.actions ∧
      if ∃ p ∈ tx.savepoints, p.name = name then
        (after.sessions.get? s).bind Session.reply = some (.ok .done) ∧
        (after.coordinator.tx s).savepoints = tx.savepoints.filter
          fun p => db.lastSet s p.name moves < db.lastSet s name moves
      else
        (after.sessions.get? s).bind Session.reply = some (.error (.savepointNotFound name)) ∧
        (after.coordinator.tx s).savepoints = tx.savepoints := by
  obtain ⟨hpiled, hstanding, hnone⟩ := piled_openWith (s := s) hopen
  obtain ⟨hlater, hordered⟩ := hpiled.run hstanding hnone moves
  have hstacked := hlater.stacked
  subst htx
  refine ⟨hstacked.apart, hstacked.rising, fun p hp => ⟨?_, hordered.set p hp⟩, hordered.ordered,
    fun m name hset => ?_, fun x name after hx hidle hlive => hordered.release hx hidle hlive⟩
  · exact Nat.le_trans (hstacked.marked p hp) hstacked.started
  · obtain ⟨hstep, -⟩ := hlater.restacks (hstanding.run moves) m
    rw [hset] at hstep
    cases hstep with
    | sets hsavepoints hactions =>
      exact ⟨hactions, hsavepoints.trans (SessionTx.savepoints_setSavepoint hstacked.apart name)⟩

/-- Session 1 sets two savepoints, inserts a row, and sets the first one again and a third one. -/
def markAgain : List Move :=
  twoRows ++ List.replicate 4 (.advance 1) ++ [.call 1 (.savepoint "a"), .call 1 (.savepoint "b"),
    .call 1 (.execute ⟨.write [1], fun _ => .insert 1 [] fun _ => .done ⟨1, []⟩⟩)] ++
  List.replicate 7 (.advance 1) ++ [.call 1 (.savepoint "a"), .call 1 (.savepoint "c")]

theorem savepoints_stacked_markAgain : ∃ db tx x after, openWith? .default .empty = .ok db ∧
    (db.run markAgain).coordinator.tx 1 = tx ∧ (db.run markAgain).sessions.get? 1 = some x ∧
    x.isIdle = true ∧ x.closed = false ∧
    (db.run markAgain).perform (.call 1 (.release "a")) = after ∧
    tx.savepoints.map (fun p => (p.name, p.logLength)) = [("b", 1), ("a", 2), ("c", 2)] ∧
    (after.coordinator.tx 1).savepoints = tx.savepoints.take 1 := by
  obtain ⟨db, hopen⟩ : ∃ db, openWith? .default .empty = .ok db := ⟨_, rfl⟩
  have hdb := openWith?_eq hopen
  obtain ⟨tx, htx⟩ : ∃ tx, (db.run markAgain).coordinator.tx 1 = tx := ⟨_, rfl⟩
  obtain ⟨after, hafter⟩ : ∃ after, (db.run markAgain).perform (.call 1 (.release "a")) = after :=
    ⟨_, rfl⟩
  have hidle : ((db.run markAgain).sessions.get? 1).any (fun x => x.isIdle && !x.closed) = true := by
    rw [hdb]
    decide
  obtain ⟨x, hx, hready⟩ := (Option.any_eq_true _ _).mp hidle
  simp only [Bool.and_eq_true, Bool.not_eq_true'] at hready
  obtain ⟨-, -, -, -, -, hrelease⟩ := savepoints_stacked hopen markAgain 1 htx
  obtain ⟨-, hreleased⟩ := hrelease x "a" after hx hready.1 hready.2 hafter
  have hmarks : tx.savepoints.map (fun p => (p.name, p.logLength)) =
      [("b", 1), ("a", 2), ("c", 2)] := by
    rw [← htx, hdb]
    decide
  have hthere : ∃ p ∈ tx.savepoints, p.name = "a" := by
    rw [← htx, hdb]
    decide
  have hfirst : tx.savepoints.filter
      (fun p => db.lastSet 1 p.name markAgain < db.lastSet 1 "a" markAgain) = tx.savepoints.take 1 := by
    rw [← htx, hdb]
    decide
  rw [if_pos hthere, hfirst] at hreleased
  exact ⟨db, tx, x, after, hopen, htx, hx, hready.1, hready.2, hafter, hmarks, hreleased.2⟩

end Database

end LockingDb
