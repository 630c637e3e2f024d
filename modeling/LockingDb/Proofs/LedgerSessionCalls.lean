import LockingDb.Proofs.LedgerSteps
import LockingDb.Proofs.SessionCalls

namespace LockingDb

open Coordinator Change

namespace Coordinator

variable {c : Coordinator} {s : SessionId} {l : Ledger}

/-- What is left by the attempt to go back to a savepoint. -/
structure Rewound (s : SessionId) (c : Coordinator) (l : Ledger) (d : Draft) (c' : Coordinator) :
    Prop where
  inStep : c'.InStep (l.note s d none)
  upholds : Upholds s c c'
  journal : c'.journal = c.journal
  marked : d.Marked (c'.tx s)
  fewer : d.changes ⊆ (l.draft s).changes

theorem rewound_refl (h : c.InStep l) (hmarked : (l.draft s).Marked (c.tx s)) :
    Rewound s c l (l.draft s) c := ⟨h.redraft rfl, .refl s c, rfl, hmarked, fun _ hk => hk⟩

theorem rollbackToIndex_rewound (h : c.InStep l) (hagree : c.locks.HoldersAgree)
    (hmarked : (l.draft s).Marked (c.tx s)) (i : Nat) :
    Rewound s c l ((l.draft s).undoTo i) (c.rollbackToIndex s i).2 := by
  rcases hmarked.getElem? (i := i) with ⟨hnone, hnothing⟩ | ⟨savepoint, m, hfound, hm, hlength⟩
  · have hrefused : (c.rollbackToIndex s i).2 = c := by
      unfold Coordinator.rollbackToIndex
      rw [hnone]
    have hsame : (l.draft s).undoTo i = l.draft s := by
      unfold Draft.undoTo
      rw [hnothing]
    rw [hrefused, hsame]
    exact rewound_refl h hmarked
  · have hchanges : ((l.draft s).undoTo i).changes = m.2 := Draft.undoTo_changes hm
    have hinitial : ((l.draft s).undoTo i).changes <+: (l.draft s).changes :=
      hchanges ▸ hmarked.kept m (List.mem_of_getElem? hm)
    obtain ⟨-, hrewinds⟩ := h.rollbackToIndex hagree hfound hinitial (hchanges ▸ hlength)
    exact ⟨hrewinds.inStep, hrewinds.upholds, hrewinds.journal,
      hmarked.undoTo hm hrewinds.savepoints, hinitial.subset⟩

theorem rollbackToSavepoint_rewound (h : c.InStep l) (hagree : c.locks.HoldersAgree)
    (hmarked : (l.draft s).Marked (c.tx s)) (name : String) :
    Rewound s c l ((l.draft s).undoToName name) (c.rollbackToSavepoint s name).2 := by
  unfold Coordinator.rollbackToSavepoint Draft.undoToName
  rw [hmarked.savepointIndex?]
  cases (l.draft s).place? name with
  | none => exact rewound_refl h hmarked
  | some i => exact rollbackToIndex_rewound h hagree hmarked i

end Coordinator

namespace Session

variable {s y : SessionId} {c c' : Coordinator} {x x' : Session} {e : Option Event} {l : Ledger}
  {d : Draft} {t : TableId}

theorem activity_of_isIdle (hidle : x.isIdle = true) : x.activity = .idle := by
  unfold isIdle at hidle
  split at hidle
  next hactivity => exact hactivity
  next => cases hidle

theorem Engaged.reset (h : x.Engaged s c d) (hidle : x.isIdle = true) :
    ({ x with reply := none, runs := 0 } : Session).Engaged s c d := by
  refine ⟨h.resting, h.marked, ?_⟩
  have hactivity := activity_of_isIdle hidle
  simp only [AtWork, hactivity]

/-- A rollback to a savepoint is written down if it succeeds. -/
theorem undone_tracks (hcoherent : c.locks.Coherent) {undone : Except Failure Unit × Coordinator} {sql : String}
    (hothers : ∀ y, y ≠ s → Spares y c undone.2) (hp : Proceeds s c undone.2)
    (hrewound : Rewound s c l d undone.2) (hclosed : x.closed = false) :
    Tracks s c l none
      (match undone with
        | (.error f, c) => (x.finish (.error f), c)
        | (.ok (), c) => (x.finish (.ok .done), c.noteStatement s sql)).1
      (match undone with
        | (.error f, c) => (x.finish (.error f), c)
        | (.ok (), c) => (x.finish (.ok .done), c.noteStatement s sql)).2 d := by
  obtain ⟨answer, c₁⟩ := undone
  have hagree₁ : c₁.locks.HoldersAgree :=
    ((hothers (s + 1) (Nat.succ_ne_self s)).coherent hcoherent).toHoldersAgree
  have hsame := congrArg Journal.faults hrewound.journal
  have hentries := congrArg Journal.entries hrewound.journal
  cases answer with
  | error f =>
    exact tracks_of_inStep hothers hp.covered hrewound.inStep hrewound.upholds hsame hentries
      goesOn_none hrewound.fewer
      (engaged_of_open (x := x.finish (.error f)) hclosed hrewound.marked trivial)
  | ok done =>
    have hnoted : Quiet s c₁ (c₁.noteStatement s sql) := quiet_noteStatement
    have hinStep := hrewound.inStep.quiet hagree₁ (fun _ _ => spares_noteStatement) hnoted
    exact tracks_of_inStep (fun y hy => (hothers y hy).trans spares_noteStatement)
      (hp.trans proceeds_noteStatement).covered hinStep (hrewound.upholds.trans hnoted.toUpholds)
      (hnoted.faults.trans hsame) (hnoted.entries.trans hentries) goesOn_none hrewound.fewer
      (engaged_of_open (x := x.finish (.ok .done)) hclosed hrewound.marked trivial)

section Calls

variable (h : c.InStep l) (hcoherent : c.locks.Coherent)

include h hcoherent

/-- A session that is closed leaves; what it has open is rolled back. -/
theorem close_tracks (hclosed : x.closed = false) (hclosed' : x'.closed = true)
    (hidle : x'.activity = .idle) :
    Tracks s c l (x.callEvent? s c .close) x' (x.close s c).2 (x.redraftCall (l.draft s) .close) := by
  obtain ⟨hleft, hjournal⟩ := h.unregister (s := s) hcoherent
  have hopen : ¬x.closed = true := by
    rw [hclosed]
    exact Bool.false_ne_true
  simp only [callEvent?, close, redraftCall]
  rw [if_neg hopen, if_neg hopen, if_neg hopen]
  refine tracks_end (fun y hy => spares_unregister hy) steady_unregister.covered hleft hjournal
    ⟨fun _ => hidle, fun hc => ?_, ?_⟩
  · rw [hclosed'] at hc
    cases hc
  · simp only [AtWork, hidle]

theorem setTx_tracks (hmarked : (l.draft s).Marked (c.tx s)) {tx : SessionTx}
    (hgranted : tx.granted = (c.tx s).granted) (hwork : tx.work = (c.tx s).work)
    (hopen : (c.tx s).isOpen = true → tx.isOpen = true) (hclosed : x'.closed = false)
    (hidle : x'.activity = .idle) : Tracks s c l none x' (c.setTx s tx) (l.draft s) := by
  have hquiet : Quiet s c (c.setTx s tx) := quiet_setTx hwork hopen
  refine tracks_quiet h hcoherent.toHoldersAgree (fun y hy => spares_setTx hy)
    (fun hc => hc.of_keeps ?_ (.refl s c.locks)) hquiet goesOn_none rfl
    (engaged_of_open hclosed (hmarked.of_savepoints (savepoints_of_work hquiet.work)) ?_)
  · rw [tx_setTx_self]
    exact hgranted
  · simp only [AtWork, hidle]

/-- A savepoint is set or dropped. -/
theorem updateSavepoints_tracks {f : SessionTx → SessionTx}
    (hwork : (f (c.tx s)).actions = (c.tx s).actions ∧ (f (c.tx s)).rowIndex = (c.tx s).rowIndex)
    (htx : (c.tx s).Continues (f (c.tx s))) (hd : d.changes = (l.draft s).changes)
    (hmarked : d.Marked (f (c.tx s))) (hclosed : x'.closed = false) (hidle : x'.activity = .idle)
    (hquiet : Quiet s (c.updateTx s f) c') (hproceeds : Proceeds s (c.updateTx s f) c')
    (hothers : ∀ y, y ≠ s → Spares y (c.updateTx s f) c') : Tracks s c l none x' c' d := by
  have hagree := hcoherent.toHoldersAgree
  have htx' : (c.updateTx s f).tx s = f (c.tx s) := tx_updateTx_self
  have hset : Proceeds s c (c.updateTx s f) := proceeds_updateTx htx
  have hup : Upholds s c (c.updateTx s f) :=
    upholds_of_continues (htx'.symm ▸ htx) rfl
  have hchanged : (c.updateTx s f).InStep l := h.setTx hagree hwork.1 hwork.2 htx.isOpen
  refine tracks_of_inStep (fun y hy => (spares_updateTx hy).trans (hothers y hy))
    (hset.trans hproceeds).covered ((hchanged.quiet hagree hothers hquiet).redraft hd)
    (hup.trans hquiet.toUpholds) hquiet.faults hquiet.entries goesOn_none (fun _ hk => hd ▸ hk)
    (engaged_of_open hclosed (hmarked.of_savepoints ?_) ?_)
  · rw [savepoints_of_work hquiet.work, htx']
  · simp only [AtWork, hidle]

theorem callOpen_tracks {k : SessionCall} (hclosed : x.closed = false)
    (hmarked : (l.draft s).Marked (c.tx s)) :
    Tracks s c l (x.callEvent? s c k) (x.callOpen s c k).1 (x.callOpen s c k).2
      (x.redraftCall (l.draft s) k) := by
  have hagree := hcoherent.toHoldersAgree
  have hopen : ¬x.closed = true := by
    rw [hclosed]
    exact Bool.false_ne_true
  have hlength : (c.tx s).actions.length = (l.draft s).changes.length :=
    (h.carries s).logged.length_eq
  have hstay (x' : Session) (hclosed' : x'.closed = false) (hatWork : x'.AtWork s c (l.draft s)) :
      Tracks s c l none x' c (l.draft s) :=
    tracks_stay h hagree goesOn_none rfl (engaged_of_open hclosed' hmarked hatWork)
  have hfinish (reply : Reply) : Tracks s c l none (x.finish reply) c (l.draft s) :=
    hstay (x.finish reply) hclosed trivial
  have hquietly (x' : Session) (c' : Coordinator) (hclosed' : x'.closed = false)
      (hatWork : x'.AtWork s c' (l.draft s)) (hothers : ∀ y, y ≠ s → Spares y c c')
      (hproceeds : Proceeds s c c') (hquiet : Quiet s c c') : Tracks s c l none x' c' (l.draft s) :=
    tracks_quiet h hagree hothers hproceeds.covered hquiet goesOn_none rfl
      (engaged_of_open hclosed' (hmarked.of_savepoints (savepoints_of_work hquiet.work)) hatWork)
  unfold redraftCall
  rw [if_neg hopen]
  cases k with
  | begin =>
    exact hquietly (x.finish (.ok .done)) _ hclosed trivial (fun y hy => spares_beginTransaction hy)
      proceeds_beginTransaction quiet_beginTransaction
  | commit => exact hstay (x.become (.committing _ _)) hclosed trivial
  | prepare =>
    have hprepared (x' : Session) (hclosed' : x'.closed = false)
        (hatWork : x'.AtWork s (c.prepare s).2 (l.draft s)) :=
      hquietly x' _ hclosed' hatWork (fun y hy => spares_prepare hy) proceeds_prepare quiet_prepare
    dsimp only [callEvent?, callOpen]
    generalize c.prepare s = prepared at hprepared
    obtain ⟨answer, c₁⟩ := prepared
    cases answer with
    | true => exact hprepared (x.finish (.ok .done)) hclosed trivial
    | false => exact hprepared x.giveUp hclosed trivial
  | rollback =>
    dsimp only [callEvent?, callOpen]
    split
    next =>
      exact hquietly (x.become (.rollingBack _)) _ hclosed trivial (fun _ _ => spares_noteStatement)
        proceeds_noteStatement quiet_noteStatement
    next => exact hstay (x.become (.rollingBack _)) hclosed trivial
  | savepoint name =>
    exact updateSavepoints_tracks h hcoherent ⟨rfl, rfl⟩ ⟨rfl, id, rfl, id⟩ rfl
      (hmarked.setSavepoint hlength) hclosed rfl quiet_noteStatement proceeds_noteStatement
      fun _ _ => spares_noteStatement
  | rollbackTo name =>
    exact undone_tracks hcoherent (fun y hy => spares_rollbackToSavepoint hy)
      proceeds_rollbackToSavepoint (rollbackToSavepoint_rewound h hagree hmarked name) hclosed
  | rollbackToFirst =>
    exact undone_tracks hcoherent (fun y hy => spares_rollbackToIndex hy) proceeds_rollbackToIndex
      (rollbackToIndex_rewound h hagree hmarked 0) hclosed
  | release name =>
    dsimp only [callEvent?, callOpen]
    unfold Draft.release
    rw [hmarked.savepointIndex?]
    cases (l.draft s).place? name with
    | none => exact hfinish _
    | some i =>
      exact updateSavepoints_tracks h hcoherent ⟨rfl, rfl⟩ ⟨rfl, id, rfl, id⟩ rfl
        (hmarked.take i rfl) hclosed rfl (.refl s _) (.refl s _) fun _ _ => spares_of_eq rfl rfl rfl
  | setAutocommit on =>
    dsimp only [callEvent?, callOpen]
    split
    next => exact hstay (x.become (.committing _ _)) hclosed trivial
    next => exact hstay (Session.finish { x with autocommit := on } (.ok .done)) hclosed trivial
  | setIsolation level =>
    dsimp only [callEvent?, callOpen]
    unfold SessionTx.setIsolation
    split
    next => exact hfinish _
    next => exact setTx_tracks h hcoherent hmarked rfl rfl id hclosed rfl
  | setIsolationDefault level => exact setTx_tracks h hcoherent hmarked rfl rfl id hclosed rfl
  | setReadOnly on =>
    dsimp only [callEvent?, callOpen]
    unfold SessionTx.setReadOnly
    split
    next => exact hfinish _
    next => exact setTx_tracks h hcoherent hmarked rfl rfl id hclosed rfl
  | setReadOnlyDefault on => exact setTx_tracks h hcoherent hmarked rfl rfl id hclosed rfl
  | setLockWaitTimeout timeout =>
    exact hstay (Session.finish { x with lockWaitTimeout := timeout } (.ok .done)) hclosed trivial
  | setControl mode =>
    dsimp only [callEvent?, callOpen]
    cases setControl s c mode with
    | error f => exact hfinish _
    | ok done => exact hfinish _
  | execute statement =>
    dsimp only [callEvent?, callOpen]
    split
    next => exact hfinish _
    next => exact hstay (Session.become { x with statement } .entering) hclosed trivial
  | close =>
    have hleft : ((x.close s c).1.finish (.ok .done)).closed = true := by
      unfold close
      rw [if_neg hopen]
      rfl
    have hcloses : Tracks s c l (x.callEvent? s c .close) ((x.close s c).1.finish (.ok .done))
        (x.close s c).2 (x.redraftCall (l.draft s) .close) :=
      close_tracks h hcoherent hclosed hleft rfl
    unfold redraftCall at hcloses
    rw [if_neg hopen] at hcloses
    exact hcloses

theorem call_tracks {k : SessionCall} (hx : x.Engaged s c (l.draft s)) (hidle : x.isIdle = true) :
    Tracks s c l (x.callEvent? s c k) (x.call s c k).1 (x.call s c k).2
      (x.redraftCall (l.draft s) k) := by
  have hreset := hx.reset hidle
  have hactivity := activity_of_isIdle hidle
  have hstay (x' : Session) (hidle' : x'.activity = .idle) (hclosed' : x'.closed = true) :
      Tracks s c l none x' c (l.draft s) := by
    refine tracks_stay h hcoherent.toHoldersAgree goesOn_none rfl ⟨fun _ => hidle', fun hc => ?_, ?_⟩
    · rw [hclosed'] at hc
      cases hc
    · simp only [AtWork, hidle']
  by_cases hclosed : x.closed = true
  · have hsame : x.redraftCall (l.draft s) k = l.draft s := if_pos hclosed
    rw [hsame]
    cases k with
    | close =>
      have hnone : x.callEvent? s c .close = none := if_pos hclosed
      have hcall : x.call s c .close =
          (Session.finish { x with reply := none, runs := 0 } (.ok .done), c) := by
        simp [call, callOpen, close, hclosed]
      rw [hnone, hcall]
      exact hstay _ rfl hclosed
    | setLockWaitTimeout timeout =>
      have hcall : x.call s c (.setLockWaitTimeout timeout) = (Session.finish
          { x with reply := none, runs := 0, lockWaitTimeout := timeout } (.ok .done), c) := by
        simp [call, callOpen, hclosed]
      rw [hcall]
      exact hstay _ rfl hclosed
    | _ =>
      simp only [callEvent?, call, hclosed, if_true]
      exact hstay _ rfl rfl
  · have hopen := Bool.eq_false_iff.mpr hclosed
    rw [call_of_open hopen]
    exact callOpen_tracks (x := { x with reply := none, runs := 0 }) h hcoherent hopen
      (hreset.marked hopen)

theorem close_idle_tracks (hx : x.Engaged s c (l.draft s)) (hidle : x.isIdle = true) :
    Tracks s c l (x.callEvent? s c .close) (x.close s c).1 (x.close s c).2
      (x.redraftCall (l.draft s) .close) := by
  have hactivity := activity_of_isIdle hidle
  by_cases hclosed : x.closed = true
  · simp only [callEvent?, close, redraftCall, hclosed, if_true]
    exact tracks_stay h hcoherent.toHoldersAgree goesOn_none rfl hx
  · have hopen := Bool.eq_false_iff.mpr hclosed
    refine close_tracks h hcoherent hopen ?_ ?_
    all_goals
      unfold close
      rw [if_neg hclosed]
    exact hactivity

end Calls

end Session

end LockingDb
