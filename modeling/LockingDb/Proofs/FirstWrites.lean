import LockingDb.Proofs.RollbackInverse
import Mathlib.Data.Nat.Find

namespace LockingDb

section History

variable {first last : List Event} {a : Access} {e : Event} {i : Nat}

theorem Live.append (h : Live first i a) (hgoesOn : ∀ e ∈ last, e.ends a.session = false) :
    Live (first ++ last) i a := by
  obtain ⟨haccess, hopen⟩ := h
  have hlt := lt_of_getElem? haccess
  refine ⟨by rw [List.getElem?_append_left hlt, haccess], ?_⟩
  rintro ⟨m, e, him, hm, he, hends⟩
  by_cases hin : m < first.length
  · rw [List.getElem?_append_left hin] at he
    exact hopen ⟨m, e, him, hin, he, hends⟩
  · rw [List.getElem?_append_right (by omega)] at he
    have hgoes := hgoesOn e (List.mem_of_getElem? he)
    rw [hgoes] at hends
    cases hends

/-- After an access of an open transaction comes no end of it. -/
theorem Live.goesOn (h : Live (first ++ e :: last) first.length a) :
    ∀ e ∈ last, e.ends a.session = false := by
  intro late hlate
  obtain ⟨n, hn⟩ := List.mem_iff_getElem?.mp hlate
  have hlt := lt_of_getElem? hn
  refine Bool.eq_false_iff.mpr fun hends => h.2 ⟨first.length + 1 + n, late, by omega, ?_, ?_, hends⟩
  · rw [List.length_append, List.length_cons]
    omega
  · rw [List.getElem?_append_right (by omega)]
    have hplace : first.length + 1 + n - first.length = n + 1 := by omega
    rw [hplace]
    exact hn

/-- Of the writes of an open transaction to a table one is the first. -/
theorem exists_first_live {h : List Event} {s : SessionId} {t : TableId} {kind : AccessKind}
    (hkind : kind.isWrite = true) (hlive : Live h i ⟨s, t, kind⟩) : ∃ i kind,
      kind.isWrite = true ∧ Live h i ⟨s, t, kind⟩ ∧
      ∀ j < i, ∀ earlier, Live h j ⟨s, t, earlier⟩ → earlier.isWrite = false := by
  classical
  have hsome : ∃ i kind, kind.isWrite = true ∧ Live h i ⟨s, t, kind⟩ := ⟨i, kind, hkind, hlive⟩
  obtain ⟨kind, hkind, hlive⟩ := Nat.find_spec hsome
  refine ⟨Nat.find hsome, kind, hkind, hlive, fun j hj earlier hearlier => ?_⟩
  refine Bool.eq_false_iff.mpr fun hwrite => ?_
  exact Nat.find_min hsome hj ⟨earlier, hwrite, hearlier⟩

end History

namespace Database

variable {db : Database} {s : SessionId} {t : TableId} {before during moves rest : List Move}
  {write : Move} {i : Nat} {e : Event} {kind : AccessKind}

theorem history_append : db.history (before ++ rest) =
    db.history before ++ (db.run before).history rest := by
  induction before generalizing db with
  | nil => rfl
  | cons m before ih =>
    have hrun : db.run (m :: before) = (db.perform m).run before := rfl
    rw [List.cons_append, history, history, ih, hrun, List.append_assoc]

/-- Every event of a history is seen of one of the moves. -/
theorem exists_move (h : (db.history moves)[i]? = some e) : ∃ before m during,
    moves = before ++ m :: during ∧ (db.run before).observe m = some e ∧
      (db.history before).length = i := by
  induction moves generalizing db i with
  | nil => cases h
  | cons m rest ih =>
    rw [history] at h
    cases he : db.observe m with
    | none =>
      rw [he, Option.toList_none, List.nil_append] at h
      obtain ⟨before, write, during, rfl, hobserve, hlength⟩ := ih h
      refine ⟨m :: before, write, during, rfl, hobserve, ?_⟩
      rw [history, he]
      exact hlength
    | some event =>
      rw [he, Option.toList_some] at h
      cases i with
      | zero => exact ⟨[], m, rest, rfl, he.trans h, rfl⟩
      | succ i =>
        obtain ⟨before, write, during, rfl, hobserve, hlength⟩ := ih h
        refine ⟨m :: before, write, during, rfl, hobserve, ?_⟩
        rw [history, he]
        exact congrArg Nat.succ hlength

/-- In a run of three parts, the middle move is the first one by which the transaction that the
session has open in the end has changed the table. -/
structure FirstWrite (db : Database) (s : SessionId) (t : TableId) (before : List Move) (write : Move)
    (during : List Move) : Prop where
  writes : ∃ kind : AccessKind, kind.isWrite = true ∧
    (db.run before).observe write = some (.access ⟨s, t, kind⟩)
  first : ∀ i earlier, Live (db.history before) i ⟨s, t, earlier⟩ → earlier.isWrite = false
  goesOn : ∀ e ∈ (db.run (before ++ [write])).history during, e.ends s = false

/-- From the first write on, the transaction owns the table as it was before. -/
theorem FirstWrite.owns (h : db.FirstWrite s t before write during) (hf : db.Faithful .empty)
    (hinside : db.RunsInside (before ++ write :: during)) :
    ∃ l m, (db.run (before ++ write :: during)).Owns l s t m ∧
      (db.run before).coordinator.storage.contents t = .ofRows m := by
  obtain ⟨hbefore, hinto, hwritten, hduring⟩ := runsInside_append.mp hinside
  obtain ⟨kind, hkind, hwrite⟩ := h.writes
  have hfaithful := hf.run hbefore
  have hwitnessed : (db.ledger .empty before).Witnessed (db.history before) :=
    hf.witnessed (h := []) nofun hbefore
  have howns := hfaithful.owns_of_write hwrite hkind
  have hnone : Change.onTable t ((db.ledger .empty before).draft s).changes = [] := by
    refine Change.onTable_eq_nil.mpr fun k hk ht => ?_
    obtain ⟨i, earlier, hearlier, hlive⟩ := hwitnessed s k hk
    rw [ht] at hlive
    rw [h.first i earlier hlive] at hearlier
    cases hearlier
  have hstep := hfaithful.perform hinto hwritten
  rw [hwrite] at hstep
  have hmiddle : db.run (before ++ [write]) = (db.run before).perform write := run_append
  have hgoesOn := h.goesOn
  rw [hmiddle] at hgoesOn
  have hheld := (howns.step hstep (by rintro event ⟨⟩; rfl)).run hduring hgoesOn
  have hrun : db.run (before ++ write :: during) = ((db.run before).perform write).run during :=
    run_append
  rw [hrun]
  exact ⟨_, _, hheld, howns.contents hnone⟩

/-- A table on which the open transaction has made a change has a first write. -/
theorem exists_firstWrite (hkind : kind.isWrite = true)
    (hlive : Live (db.history moves) i ⟨s, t, kind⟩) : ∃ before write during,
      moves = before ++ write :: during ∧ db.FirstWrite s t before write during := by
  obtain ⟨i, kind, hkind, hlive, hfirst⟩ := exists_first_live hkind hlive
  obtain ⟨before, write, during, rfl, hobserve, rfl⟩ := exists_move hlive.1
  have hhistory : db.history (before ++ write :: during) = db.history before ++
      .access ⟨s, t, kind⟩ :: (db.run (before ++ [write])).history during := by
    have hmiddle : db.run (before ++ [write]) = (db.run before).perform write := run_append
    rw [history_append, hmiddle, history, hobserve]
    rfl
  rw [hhistory] at hlive hfirst
  have hgoesOn := hlive.goesOn
  refine ⟨before, write, during, rfl, ⟨kind, hkind, hobserve⟩, fun j earlier hearlier => ?_, hgoesOn⟩
  refine hfirst j (lt_of_getElem? hearlier.1) earlier (hearlier.append fun event hevent => ?_)
  rcases List.mem_cons.mp hevent with rfl | hlate
  · rfl
  · exact hgoesOn event hlate

end Database

end LockingDb
