import LockingDb.Proofs.DatabaseStanding
import LockingDb.Proofs.SessionReplies
import LockingDb.Proofs.SturdyTables

namespace LockingDb

open Coordinator Session

/-- A move by which no ended transaction is made up by the body of a statement. -/
def Move.IsTruthful : Move → Prop
  | .call _ (.execute statement) => ∀ n, (statement.body n).Relays fun _ => False
  | _ => True

namespace Session

variable {s y : SessionId} {c c' : Coordinator} {x x' : Session} {known : Failure → Prop}

/-- What a session tells of its transaction is right, unless it is not in autocommit mode and hands on
a failure that is known. -/
structure Candid (x : Session) (s : SessionId) (c : Coordinator) (known : Failure → Prop) : Prop where
  statement : ∀ n, (x.statement.body n).Relays fun _ => False
  tells : x.Tells known
  replied : x.activity = .idle → ∀ f, x.reply = some (.error f) → f.endsTransaction = true →
    (c.tx s).isOpen = false ∨ x.autocommit = false ∧ known f

/-- A statement that was called in autocommit mode, with no transaction open. -/
structure Alone (x : Session) (s : SessionId) (c : Coordinator) : Prop where
  auto : x.IsAuto
  closed : x.activity = .idle → (c.tx s).isOpen = false

theorem Candid.of_isOpen (hx : x.Candid s c known) (h : (c'.tx s).isOpen = (c.tx s).isOpen) :
    x.Candid s c' known :=
  ⟨hx.statement, hx.tells, fun hidle f hf hends => (hx.replied hidle f hf hends).imp_left h.trans⟩

theorem Candid.mono (hx : x.Candid s c known) {more : Failure → Prop}
    (hmore : ∀ f, known f → more f) : x.Candid s c more :=
  ⟨hx.statement, hx.tells.mono hmore, fun hidle f hf hends =>
    (hx.replied hidle f hf hends).imp_right fun hopen => ⟨hopen.1, hmore f hopen.2⟩⟩

theorem Alone.of_isOpen (hx : x.Alone s c) (h : (c'.tx s).isOpen = (c.tx s).isOpen) :
    x.Alone s c' := ⟨hx.auto, fun hidle => h.trans (hx.closed hidle)⟩

theorem step_of_idle (hidle : x.activity = .idle) : x.step s c = (x, c) := by
  simp only [step, hidle]

theorem Candid.step (hx : x.Candid s c known) (h : x.Ready s c) :
    (x.step s c).1.Candid s (x.step s c).2 fun f =>
      known f ∨ c.storage.FailsWith (x.step s c).2.storage f := by
  have hpersists : x.Persists c (x.step s c) := step_persists
  have hless : ∀ f, known f → known f ∨ c.storage.FailsWith (x.step s c).2.storage f := fun _ => .inl
  refine ⟨hpersists.statement ▸ hx.statement, hpersists.tells known hx.statement hx.tells,
    fun hidle f hf hends => ?_⟩
  by_cases hactivity : x.activity = .idle
  · have hsame := (hx.mono hless).replied hactivity f
    rw [step_of_idle hactivity] at hf hsame ⊢
    exact hsame hf hends
  · rcases h.returns hactivity hidle with hover | ⟨hmanual, ⟨error, hfailed, hreply⟩ | ⟨answer, hreply⟩⟩
    · exact .inl hover
    · have htells := hx.tells
      simp only [Tells, hfailed] at htells
      rw [hreply] at hf
      cases hf
      exact .inr ⟨(autocommit_step_of_failed hfailed).trans hmanual, .inl (htells hends)⟩
    · rw [hreply] at hf
      cases hf

/-- A call is taken up with no failure known. -/
theorem Candid.call (hx : x.Candid s c known) {k : SessionCall}
    (hk : ∀ statement, k = .execute statement → ∀ n, (statement.body n).Relays fun _ => False)
    (more : Failure → Prop) : (x.call s c k).1.Candid s (x.call s c k).2 more := by
  have hstarts : x.Starts k (x.call s c k).1 := call_starts k
  refine ⟨?_, hstarts.tells more, fun hidle f hf hends => ?_⟩
  · rcases hstarts.statement with hsame | hnew
    · rw [hsame]
      exact hx.statement
    · exact hk _ hnew
  · exact (hstarts.replied hidle _ hf f rfl hends).elim

theorem Alone.step (hx : x.Alone s c) (h : x.Ready s c) :
    (x.step s c).1.Alone s (x.step s c).2 := by
  have hpersists : x.Persists c (x.step s c) := step_persists
  refine ⟨hpersists.auto hx.auto, fun hidle => ?_⟩
  by_cases hactivity : x.activity = .idle
  · rw [step_of_idle hactivity]
    exact hx.closed hactivity
  · rcases h.returns hactivity hidle with hover | ⟨hmanual, -⟩
    · exact hover
    · have hauto := hx.auto.1
      rw [hmanual] at hauto
      cases hauto

/-- A statement is refused at once, or it starts. -/
theorem alone_execute {statement : Statement} (hauto : x.autocommit = true)
    (hclosed : (c.tx s).isOpen = false) :
    (x.call s c (.execute statement)).1.Alone s (x.call s c (.execute statement)).2 := by
  unfold Session.call
  dsimp only
  split
  next => exact ⟨⟨hauto, trivial⟩, fun _ => hclosed⟩
  next =>
    dsimp only [callOpen]
    split
    next => exact ⟨⟨hauto, trivial⟩, fun _ => hclosed⟩
    next => exact ⟨⟨hauto, trivial⟩, nofun⟩

end Session

namespace Database

variable {db db' : Database} {s y : SessionId} {x x' : Session} {c' : Coordinator} {e : Bool}
  {m : Move}

/-- What a move makes of a session. -/
inductive Becomes (db : Database) (m : Move) (s : SessionId) (x : Session) : Session → Prop where
  | same (hcall : ∀ k, m = .call s k → x.isIdle = false)
      (hopen : ((db.perform m).coordinator.tx s).isOpen = (db.coordinator.tx s).isOpen) :
      Becomes db m s x x
  | expired (hwaits : x.isWaiting = true) : Becomes db m s x (x.become .timedOut)
  | stepped (hm : m = .advance s) (hleft : (db.perform m).coordinator = (x.step s db.coordinator).2) :
      Becomes db m s x (x.step s db.coordinator).1
  | called {k : SessionCall} (hm : m = .call s k) (hidle : x.isIdle = true) :
      Becomes db m s x (x.call s db.coordinator k).1

theorem get?_withSession {f : Session → Coordinator → Session × Coordinator} {z : Session}
    (hz : (db.withSession y f).sessions.get? s = some z) :
    (db.sessions.get? s = some z ∧ s ≠ y) ∨ s = y ∧ ∃ x, db.sessions.get? s = some x ∧
      z = (f x db.coordinator).1 ∧ (db.withSession y f).coordinator = (f x db.coordinator).2 := by
  unfold Database.withSession at hz ⊢
  cases hy : db.sessions.get? y with
  | none =>
    rw [hy] at hz
    refine Or.inl ⟨hz, ?_⟩
    rintro rfl
    rw [hy] at hz
    cases hz
  | some x =>
    rw [hy] at hz
    dsimp only at hz
    rw [IdMap.get?_insert] at hz
    split at hz
    next hs =>
      cases hz
      exact Or.inr ⟨hs, x, hs ▸ hy, rfl, rfl⟩
    next hs => exact Or.inl ⟨hz, hs⟩

/-- Only sessions in the middle of a call stay when they are told to go away. -/
theorem get?_drop {z : Session} (hz : (db.drop y).sessions.get? s = some z) :
    db.sessions.get? s = some z ∧ (s ≠ y ∨ (db.drop y).coordinator = db.coordinator) := by
  unfold Database.drop at hz ⊢
  dsimp only at hz ⊢
  split at hz
  next x hx =>
    split at hz
    next hidle =>
      have hleft := IdMap.get?_erase.symm.trans hz
      split at hleft
      next => cases hleft
      next hs =>
        rcases get?_withSession hleft with ⟨hbefore, -⟩ | ⟨rfl, -⟩
        · exact ⟨hbefore, Or.inl hs⟩
        · exact absurd rfl hs
    next hbusy =>
      rcases get?_withSession hz with ⟨hbefore, hs⟩ | ⟨rfl, x₀, hx₀, hmade, hleft⟩
      · exact ⟨hbefore, Or.inl hs⟩
      · have hzx : z = x := Option.some.inj (hz.symm.trans hx)
        have hstill : ¬x₀.isIdle = true := by
          intro hidle
          rw [if_pos hidle] at hmade
          refine hbusy ?_
          rw [← hzx, hmade, isIdle, activity_close, ← isIdle]
          exact hidle
        rw [if_neg hstill] at hmade
        rw [hmade]
        refine ⟨hx₀, Or.inr ?_⟩
        rw [if_neg hbusy, hleft, if_neg hstill]
  next hnone =>
    rcases get?_withSession hz with ⟨hbefore, hs⟩ | ⟨rfl, -⟩
    · exact ⟨hbefore, Or.inl hs⟩
    · rw [hnone] at hz
      cases hz

theorem Standing.becomes (h : db.Standing) {z : Session}
    (hz : (db.perform m).sessions.get? s = some z) :
    (∃ x, db.sessions.get? s = some x ∧ db.Becomes m s x z) ∨ db.sessions.get? s = none ∧
      z = .fresh db.settings.autocommit db.settings.lockWaitTimeout := by
  cases m with
  | createTable name watched => exact Or.inl ⟨z, hz, .same nofun rfl⟩
  | checkpoint => exact Or.inl ⟨z, hz, .same nofun rfl⟩
  | outside storage journal => exact Or.inl ⟨z, hz, .same nofun rfl⟩
  | raiseAbort y => exact Or.inl ⟨z, hz, .same nofun (unmoved_raiseAbort y s).isOpen⟩
  | connect =>
    rcases get?_connect hz with ⟨rfl, hfresh⟩ | hbefore
    · exact Or.inr ⟨h.nobody, hfresh⟩
    · refine Or.inl ⟨z, hbefore, .same nofun ?_⟩
      exact congrArg SessionTx.isOpen (tx_setTx_of_ne (Nat.ne_of_lt (h.known s z hbefore)))
  | call y k =>
    rcases get?_withSession hz with ⟨hbefore, hs⟩ | ⟨rfl, x, hx, hmade, hleft⟩
    · refine Or.inl ⟨z, hbefore, .same (fun k' heq => ?_) ((h.call y k).others s hs).isOpen⟩
      cases heq
      exact absurd rfl hs
    · refine Or.inl ⟨x, hx, ?_⟩
      by_cases hidle : x.isIdle = true
      · rw [if_pos hidle] at hmade
        exact hmade ▸ .called rfl hidle
      · rw [if_neg hidle] at hmade hleft
        refine hmade ▸ .same (fun _ _ => Bool.eq_false_iff.mpr hidle) ?_
        exact congrArg (fun c : Coordinator => (c.tx s).isOpen) hleft
  | advance y =>
    rcases get?_withSession hz with ⟨hbefore, hs⟩ | ⟨rfl, x, hx, hmade, hleft⟩
    · exact Or.inl ⟨z, hbefore, .same nofun ((h.advance y).others s hs).isOpen⟩
    · exact Or.inl ⟨x, hx, hmade ▸ .stepped rfl hleft⟩
  | expire y =>
    have hopen : ((db.perform (.expire y)).coordinator.tx s).isOpen = (db.coordinator.tx s).isOpen :=
      congrArg (fun c : Coordinator => (c.tx s).isOpen) coordinator_expire
    rcases get?_withSession hz with ⟨hbefore, -⟩ | ⟨rfl, x, hx, hmade, -⟩
    · exact Or.inl ⟨z, hbefore, .same nofun hopen⟩
    · refine Or.inl ⟨x, hx, ?_⟩
      rw [hmade]
      dsimp only [Session.expire]
      split
      next hwaits => exact .expired (by simp_all)
      next => exact .same nofun hopen
  | drop y =>
    obtain ⟨hbefore, hother⟩ := get?_drop hz
    refine Or.inl ⟨z, hbefore, .same nofun ?_⟩
    rcases hother with hs | hleft
    · exact ((h.drop y).others s hs).isOpen
    · exact congrArg (fun c : Coordinator => (c.tx s).isOpen) hleft

/-- A session works on a call. -/
def isBusy (db : Database) (s : SessionId) : Bool := (db.sessions.get? s).any (!·.isIdle)

/-- A table has failed in a step of the session, with a call for the statement that it executes or
that it has executed last. -/
inductive StoreFailed (db : Database) (s : SessionId) (f : Failure) : List Move → Prop where
  | now {moves : List Move} (hfails : (db.run moves).coordinator.storage.FailsWith
      (db.run (moves ++ [.advance s])).coordinator.storage f) :
      StoreFailed db s f (moves ++ [.advance s])
  | before {moves : List Move} {m : Move} (h : StoreFailed db s f moves)
      (hcall : ∀ k, m = .call s k → (db.run moves).isBusy s = true) : StoreFailed db s f (moves ++ [m])

/-- What all sessions tell of their transactions is right, unless a table has told them so. -/
structure Candid (db : Database) (moves : List Move) : Prop where
  standing : (db.run moves).Standing
  candid : ∀ s x, (db.run moves).sessions.get? s = some x →
    x.Candid s (db.run moves).coordinator fun f => db.StoreFailed s f moves

theorem Candid.perform {moves : List Move} (hc : db.Candid moves) (hm : m.IsTruthful) :
    db.Candid (moves ++ [m]) := by
  have hrun : db.run (moves ++ [m]) = (db.run moves).perform m := run_append
  refine ⟨hrun ▸ hc.standing.perform m, fun s z hz => ?_⟩
  rw [hrun] at hz ⊢
  rcases hc.standing.becomes hz with ⟨x, hx, hbecomes⟩ | ⟨-, rfl⟩
  · have hcandid := hc.candid s x hx
    cases hbecomes with
    | same hcall hopen =>
      refine (hcandid.of_isOpen hopen).mono fun f hf => hf.before fun k hk => ?_
      simp [isBusy, hx, hcall k hk]
    | expired => exact ⟨hcandid.statement, trivial, nofun⟩
    | stepped hm hleft =>
      subst hm
      rw [hleft]
      refine (hcandid.step (hc.standing.ready hx)).mono fun f hf => ?_
      rcases hf with hf | hf
      · exact hf.before nofun
      · refine .now ?_
        rw [hrun, hleft]
        exact hf
    | @called k heq hidle =>
      subst heq
      rw [perform_call hx hidle]
      refine hcandid.call (fun statement hk n => ?_) _
      subst hk
      exact hm n
  · exact ⟨fun n => trivial, trivial, nofun⟩

theorem Candid.run {moves : List Move} (hc : db.Candid []) (hm : ∀ m ∈ moves, m.IsTruthful) :
    db.Candid moves := by
  induction moves using List.reverseRecOn with
  | nil => exact hc
  | append_singleton moves m ih =>
    have hbefore := ih fun k hk => hm k (List.mem_append_left _ hk)
    exact hbefore.perform (hm m (List.mem_append_right _ (List.mem_singleton_self m)))

/-- The statement that a session executes was called in autocommit mode, with no transaction open. -/
def Alone (db : Database) (s : SessionId) : Prop :=
  ∀ x, db.sessions.get? s = some x → x.Alone s db.coordinator

/-- A session works on a call until the last move of a run. -/
def StaysBusy (db : Database) (s : SessionId) : List Move → Prop
  | [] => True
  | m :: rest => db.isBusy s = true ∧ (db.perform m).StaysBusy s rest

instance instDecidableStaysBusy (db : Database) (s : SessionId) : (moves : List Move) →
    Decidable (db.StaysBusy s moves)
  | [] => inferInstanceAs (Decidable True)
  | m :: rest =>
    have := instDecidableStaysBusy (db.perform m) s rest
    inferInstanceAs (Decidable (db.isBusy s = true ∧ (db.perform m).StaysBusy s rest))

theorem Alone.perform (ha : db.Alone s) (h : db.Standing) (hbusy : db.isBusy s = true) (m : Move) :
    (db.perform m).Alone s := by
  intro z hz
  rcases h.becomes hz with ⟨x, hx, hbecomes⟩ | ⟨hnone, -⟩
  · have halone := ha x hx
    cases hbecomes with
    | same _ hopen => exact halone.of_isOpen hopen
    | expired => exact ⟨⟨halone.auto.1, trivial⟩, nofun⟩
    | stepped _ hleft =>
      rw [hleft]
      exact halone.step (h.ready hx)
    | called heq hidle => simp [isBusy, hx, hidle] at hbusy
  · simp [isBusy, hnone] at hbusy

theorem Alone.run (ha : db.Alone s) (h : db.Standing) {moves : List Move}
    (hbusy : db.StaysBusy s moves) : (db.run moves).Alone s := by
  induction moves generalizing db with
  | nil => exact ha
  | cons m rest ih =>
    obtain ⟨hnow, hrest⟩ := hbusy
    exact ih (ha.perform h hnow m) (h.perform m) hrest

theorem candid_open {settings : Settings} (hopen : open? settings = .ok db) : db.Candid [] := by
  have hdb := open?_eq hopen
  subst hdb
  refine ⟨standing_fresh settings .empty, fun s x hx => ?_⟩
  have hnone : (∅ : IdMap Session).get? s = some x := hx
  rw [IdMap.get?_empty] at hnone
  cases hnone

/-- Whenever a call on a session has returned, the session does not wait; without an open
transaction it has no lock, no row and an empty log; its transaction is over if the call says so,
unless the session is not in autocommit mode and hands on what a table has failed with; and an execute
in autocommit mode that found no transaction open leaves none. -/
theorem session_boundary {settings : Settings} {moves : List Move} (hopen : open? settings = .ok db)
    (hx : (db.run moves).sessions.get? s = some x) (hidle : x.isIdle = true) :
    s ∉ (db.run moves).waitingSessions ∧
    (((db.run moves).coordinator.tx s).isOpen = false →
      (∀ t, (db.run moves).coordinator.locks.mode? s t = none) ∧
      (∀ row, (db.run moves).coordinator.owners.owner? row ≠ some s) ∧
      ((db.run moves).coordinator.tx s).actions = []) ∧
    ((∀ m ∈ moves, m.IsTruthful) → ∀ f, x.reply = some (.error f) → f.endsTransaction = true →
      ((db.run moves).coordinator.tx s).isOpen = false ∨
        x.autocommit = false ∧ db.StoreFailed s f moves) ∧
    ∀ before statement during y, moves = before ++ .call s (.execute statement) :: during →
      (db.run before).sessions.get? s = some y → y.isIdle = true → y.autocommit = true →
      ((db.run before).coordinator.tx s).isOpen = false →
      (db.run (before ++ [.call s (.execute statement)])).StaysBusy s during →
        ((db.run moves).coordinator.tx s).isOpen = false := by
  have hcandid := candid_open hopen
  have hstanding := hcandid.standing.run moves
  have hactivity := activity_of_isIdle hidle
  have hrest := (hstanding.ready hx).atRest hactivity
  refine ⟨fun hwaits => ?_, fun hclosed => ?_, fun htruthful f hf hends => ?_, ?_⟩
  · obtain ⟨n, w, hq⟩ := hstanding.settled.mem_waitingSessions.mp hwaits
    exact hstanding.settled.isWaiting_eq_false.mp hrest.waits n w hq
  · have hunlocked := hrest.unlocked hclosed
    have hfreed := (hstanding.booked s).freed hclosed hunlocked hrest.waits
    exact ⟨hunlocked, hfreed.owned, hfreed.actions⟩
  · exact ((hcandid.run htruthful).candid s x hx).replied hactivity f hf hends
  · intro before statement during y hmoves hy hidle' hauto hclosed hbusy
    subst hmoves
    have hone : db.run (before ++ [.call s (.execute statement)]) =
        (db.run before).call s (.execute statement) := run_append
    have hall : db.run (before ++ .call s (.execute statement) :: during) =
        ((db.run before).call s (.execute statement)).run during := run_append
    rw [hone] at hbusy
    rw [hall] at hx ⊢
    have halone : ((db.run before).call s (.execute statement)).Alone s := by
      intro z hz
      rcases get?_withSession hz with ⟨-, hs⟩ | ⟨-, w, hw, hmade, hleft⟩
      · exact absurd rfl hs
      · rw [hy] at hw
        cases hw
        rw [if_pos hidle'] at hmade hleft
        have hstarted : ((db.run before).call s (.execute statement)).coordinator =
            (y.call s (db.run before).coordinator (.execute statement)).2 := hleft
        rw [hmade, hstarted]
        exact alone_execute hauto hclosed
    have hbefore := hcandid.standing.run before
    have hduring := halone.run (hbefore.call s (.execute statement)).standing hbusy
    exact (hduring x hx).closed hactivity

def insertOne : Statement := ⟨.write [1], fun _ => .insert 1 [] fun
  | .ok _ => .done ⟨1, []⟩
  | .error f => .fail f⟩

def readOne : Statement := ⟨.read [1], fun _ => .scan 1 fun
  | .ok rows => .done ⟨0, rows.map Row.values⟩
  | .error f => .fail f⟩

theorem relays_insertOne (n : Nat) : (insertOne.body n).Relays fun _ => False := by
  intro answer
  cases answer with
  | ok position => trivial
  | error f => exact fun _ => Or.inr rfl

theorem relays_readOne (n : Nat) : (readOne.body n).Relays fun _ => False := by
  intro answer
  cases answer with
  | ok rows => trivial
  | error f => exact fun _ => Or.inr rfl

/-- An empty table that shows no row. -/
def fullTable : Storage :=
  (Storage.empty.createTable "t" false).2.refault 1 fun _ _ => some (.fatalStore "disk full")

/-- Session 1, that is not in autocommit mode, fails to insert a row. -/
def refusedInsert : List Move :=
  [.connect, .connect, .outside fullTable .empty, .call 1 (.setAutocommit false),
    .call 1 (.execute insertOne)] ++
  List.replicate 7 (.advance 1) ++ [.call 2 (.setLockWaitTimeout (some ⟨1, 0⟩))]

/-- Session 2 waits, until its wait has lasted too long. -/
def waitTooLong : List Move := [.advance 2, .advance 2, .expire 2, .advance 2, .advance 2]

def insertRefused : List Move := refusedInsert ++ .call 2 (.execute readOne) :: waitTooLong

theorem truthful_insertRefused : ∀ m ∈ insertRefused, m.IsTruthful := by
  simp [insertRefused, refusedInsert, waitTooLong, Move.IsTruthful, relays_insertOne, relays_readOne]

/-- Session 1 tells what its table has told it, and its transaction stays open. -/
theorem told_insertRefused (hopen : open? .default = .ok db) :
    (∃ x, (db.run insertRefused).sessions.get? 1 = some x ∧ x.isIdle = true ∧
      x.reply = some (.error (.fatalStore "disk full"))) ∧
    ((db.run insertRefused).coordinator.tx 1).isOpen = true := by
  have hdb := open?_eq hopen
  subst hdb
  exact ⟨⟨_, rfl, rfl, rfl⟩, rfl⟩

theorem session_boundary_insertRefused : ∃ db x y, open? .default = .ok db ∧
    (db.run insertRefused).sessions.get? 1 = some x ∧ x.isIdle = true ∧
    (db.run insertRefused).sessions.get? 2 = some y ∧ y.isIdle = true ∧
    1 ∉ (db.run insertRefused).waitingSessions ∧ 2 ∉ (db.run insertRefused).waitingSessions ∧
    (∀ m ∈ insertRefused, m.IsTruthful) ∧ x.reply = some (.error (.fatalStore "disk full")) ∧
    db.StoreFailed 1 (.fatalStore "disk full") insertRefused ∧
    y.reply = some (.error .lockWaitTimeout) ∧
    ((db.run insertRefused).coordinator.tx 2).isOpen = false ∧
    ∀ t, (db.run insertRefused).coordinator.locks.mode? 2 t = none := by
  obtain ⟨db, hopen⟩ : ∃ db, open? .default = .ok db := ⟨_, rfl⟩
  have hdb := open?_eq hopen
  obtain ⟨⟨x, hx, hidle, hreply⟩, hstays⟩ := told_insertRefused hopen
  obtain ⟨y, hy, hidle', hreply'⟩ : ∃ y, (db.run insertRefused).sessions.get? 2 = some y ∧
      y.isIdle = true ∧ y.reply = some (.error .lockWaitTimeout) := by
    rw [hdb]
    exact ⟨_, rfl, rfl, rfl⟩
  obtain ⟨z, hz, hready, hauto, hnone, hbusy⟩ : ∃ z, (db.run refusedInsert).sessions.get? 2 = some z ∧
      z.isIdle = true ∧ z.autocommit = true ∧ ((db.run refusedInsert).coordinator.tx 2).isOpen = false ∧
      (db.run (refusedInsert ++ [.call 2 (.execute readOne)])).StaysBusy 2 waitTooLong := by
    rw [hdb]
    exact ⟨_, rfl, rfl, rfl, rfl, by decide⟩
  obtain ⟨hout, -, hover, -⟩ := session_boundary hopen hx hidle
  obtain ⟨hout', hleft, -, halone⟩ := session_boundary hopen hy hidle'
  have hfailed : db.StoreFailed 1 (.fatalStore "disk full") insertRefused := by
    rcases hover truthful_insertRefused _ hreply rfl with hclosed | ⟨-, hfailed⟩
    · rw [hstays] at hclosed
      cases hclosed
    · exact hfailed
  have hclosed := halone refusedInsert readOne waitTooLong z rfl hz hready hauto hnone hbusy
  exact ⟨db, x, y, hopen, hx, hidle, hy, hidle', hout, hout', truthful_insertRefused, hreply, hfailed,
    hreply', hclosed, (hleft hclosed).1⟩

/-- A transaction stays open although its session has told of a store that is broken for good. -/
theorem relayed_failure_stays_open :
    ¬∀ (settings : Settings) (db : Database) (moves : List Move) (s : SessionId) (x : Session),
      open? settings = .ok db → (db.run moves).sessions.get? s = some x → x.isIdle = true →
      (∀ m ∈ moves, m.IsTruthful) → ∀ f, x.reply = some (.error f) → f.endsTransaction = true →
        ((db.run moves).coordinator.tx s).isOpen = false := by
  intro hclaim
  obtain ⟨db, hopen⟩ : ∃ db, open? .default = .ok db := ⟨_, rfl⟩
  obtain ⟨⟨x, hx, hidle, hreply⟩, hstays⟩ := told_insertRefused hopen
  have hclosed := hclaim .default db insertRefused 1 x hopen hx hidle truthful_insertRefused _ hreply rfl
  rw [hstays] at hclosed
  cases hclosed

end Database

end LockingDb
