import LockingDb.Identifiers
import Mathlib.Logic.Relation
import Mathlib.Tactic.ByContra

namespace LockingDb

inductive AccessKind where
  | scan
  | insert
  | delete
  deriving DecidableEq

def AccessKind.isWrite : AccessKind → Bool
  | .scan => false
  | .insert | .delete => true

/-- A statement of a session works on a table. -/
structure Access where
  session : SessionId
  table : TableId
  kind : AccessKind
  deriving DecidableEq

def Access.conflictsWith (a b : Access) : Prop :=
  a.table = b.table ∧ (a.kind.isWrite = true ∨ b.kind.isWrite = true)

/-- What a transaction does to the tables, and how it ends. -/
inductive Event where
  | access (a : Access)
  | committed (s : SessionId) (now : Timestamp)
  | rolledBack (s : SessionId)
  deriving DecidableEq

def Event.ends (s : SessionId) : Event → Bool
  | .access _ => false
  | .committed x _ | .rolledBack x => x = s

/-- A transaction of the session ends between two places of a history. -/
def EndsBetween (h : List Event) (s : SessionId) (i j : Nat) : Prop :=
  ∃ m e, i < m ∧ m < j ∧ h[m]? = some e ∧ e.ends s = true

/-- The access at place `i` belongs to the transaction that is committed at place `k`. -/
structure CommittedAt (h : List Event) (i k : Nat) (a : Access) (now : Timestamp) : Prop where
  access : h[i]? = some (.access a)
  commit : h[k]? = some (.committed a.session now)
  before : i < k
  whole : ¬EndsBetween h a.session i k

/-- Of two committed transactions the first has accessed a table before the second did, and the
two accesses conflict. -/
def Precedes (h : List Event) (k l : Nat) : Prop :=
  k ≠ l ∧ ∃ i j a b now later, CommittedAt h i k a now ∧ CommittedAt h j l b later ∧
    i < j ∧ a.conflictsWith b

/-- The access at place `i` belongs to a transaction that has not ended yet. -/
def Live (h : List Event) (i : Nat) (a : Access) : Prop :=
  h[i]? = some (.access a) ∧ ¬EndsBetween h a.session i h.length

/-- Between conflicting accesses of two sessions the transaction of the first one ends, and the
times of commits grow. -/
structure TwoPhased (h : List Event) : Prop where
  separated : ∀ i j a b, h[i]? = some (.access a) → h[j]? = some (.access b) → i < j →
    a.session ≠ b.session → a.conflictsWith b → EndsBetween h a.session i j
  timed : ∀ (k l : Nat) (s x : SessionId) (now later : Timestamp),
    h[k]? = some (.committed s now) → h[l]? = some (.committed x later) → k < l → now < later

variable {h : List Event} {s : SessionId} {i j k l : Nat} {a b : Access} {e : Event}
  {now later : Timestamp}

theorem TwoPhased.before (ht : TwoPhased h) (ha : CommittedAt h i k a now)
    (hb : CommittedAt h j l b later) (hkl : k ≠ l) (hij : i < j) (hconflict : a.conflictsWith b) :
    k < l := by
  have hjl := hb.before
  by_contra hlate
  -- Otherwise a transaction of the first session ends between its access and its commit.
  by_cases hs : a.session = b.session
  · refine ha.whole ⟨l, _, by omega, by omega, hb.commit, ?_⟩
    simp [Event.ends, hs]
  · obtain ⟨m, e, him, hmj, he, hend⟩ := ht.separated i j a b ha.access hb.access hij hs hconflict
    exact ha.whole ⟨m, e, him, by omega, he, hend⟩

theorem TwoPhased.now_lt (ht : TwoPhased h) (ha : CommittedAt h i k a now)
    (hb : CommittedAt h j l b later) (hkl : k ≠ l) (hij : i < j) (hconflict : a.conflictsWith b) :
    now < later :=
  ht.timed k l a.session b.session now later ha.commit hb.commit (ht.before ha hb hkl hij hconflict)

theorem TwoPhased.acyclic (ht : TwoPhased h) (k : Nat) : ¬Relation.TransGen (Precedes h) k k := by
  have hgrows : ∀ l, Relation.TransGen (Precedes h) k l → k < l := by
    intro l hkl
    induction hkl with
    | single hstep =>
      obtain ⟨hne, i, j, a, b, now, later, ha, hb, hij, hconflict⟩ := hstep
      exact ht.before ha hb hne hij hconflict
    | tail _ hstep ih =>
      obtain ⟨hne, i, j, a, b, now, later, ha, hb, hij, hconflict⟩ := hstep
      have hlt := ht.before ha hb hne hij hconflict
      omega
  intro hcycle
  have hlt := hgrows k hcycle
  omega

theorem getElem?_concat : (h ++ [e])[i]? = if i = h.length then some e else h[i]? := by
  rw [List.getElem?_append]
  split
  next hlt =>
    have hne : i ≠ h.length := by omega
    rw [if_neg hne]
  next hge =>
    by_cases hi : i = h.length
    · simp [hi]
    · have hlate : h.length ≤ i := by omega
      have hone : 1 ≤ i - h.length := by omega
      rw [if_neg hi, List.getElem?_eq_none hlate, List.getElem?_eq_none (by simpa using hone)]

theorem lt_of_getElem? (he : h[i]? = some e) : i < h.length := (List.getElem?_eq_some_iff.mp he).1

theorem endsBetween_concat (hj : j ≤ h.length) :
    EndsBetween (h ++ [e]) s i j ↔ EndsBetween h s i j := by
  have hsame : ∀ m, m < j → (h ++ [e])[m]? = h[m]? := fun m hm => by
    rw [getElem?_concat, if_neg (by omega)]
  constructor
  · rintro ⟨m, e', him, hmj, he, hend⟩
    exact ⟨m, e', him, hmj, hsame m hmj ▸ he, hend⟩
  · rintro ⟨m, e', him, hmj, he, hend⟩
    exact ⟨m, e', him, hmj, (hsame m hmj).trans he, hend⟩

theorem endsBetween_concat_length :
    EndsBetween (h ++ [e]) s i (h ++ [e]).length ↔
      EndsBetween h s i h.length ∨ (i < h.length ∧ e.ends s = true) := by
  constructor
  · rintro ⟨m, e', him, hm, he, hend⟩
    rw [List.length_append, List.length_singleton] at hm
    rw [getElem?_concat] at he
    split at he
    next hlast =>
      obtain rfl := Option.some.inj he
      exact Or.inr ⟨by omega, hend⟩
    next hne => exact Or.inl ⟨m, e', him, by omega, he, hend⟩
  · rintro (⟨m, e', him, hm, he, hend⟩ | ⟨hi, hend⟩)
    · refine ⟨m, e', him, ?_, ?_, hend⟩
      · rw [List.length_append]
        omega
      · rw [getElem?_concat, if_neg (by omega)]
        exact he
    · refine ⟨h.length, e, hi, ?_, ?_, hend⟩
      · rw [List.length_append, List.length_singleton]
        omega
      · rw [getElem?_concat, if_pos rfl]

theorem live_concat (hlive : Live (h ++ [e]) i a) :
    (Live h i a ∧ e.ends a.session = false) ∨ e = .access a := by
  obtain ⟨haccess, hopen⟩ := hlive
  rw [endsBetween_concat_length] at hopen
  rw [getElem?_concat] at haccess
  split at haccess
  next => exact Or.inr (Option.some.inj haccess)
  next =>
    refine Or.inl ⟨⟨haccess, fun hend => hopen (Or.inl hend)⟩, ?_⟩
    have hlt := lt_of_getElem? haccess
    exact Bool.eq_false_iff.mpr fun hend => hopen (Or.inr ⟨hlt, hend⟩)

theorem Live.concat (hlive : Live h i a) (hgoes : e.ends a.session = false) : Live (h ++ [e]) i a := by
  obtain ⟨haccess, hopen⟩ := hlive
  have hlt := lt_of_getElem? haccess
  refine ⟨?_, fun hend => ?_⟩
  · rw [getElem?_concat, if_neg (Nat.ne_of_lt hlt)]
    exact haccess
  · rcases endsBetween_concat_length.mp hend with hbefore | ⟨-, hends⟩
    · exact hopen hbefore
    · rw [hgoes] at hends
      cases hends

theorem live_last : Live (h ++ [.access a]) h.length a := by
  refine ⟨by rw [getElem?_concat, if_pos rfl], fun hend => ?_⟩
  rcases endsBetween_concat_length.mp hend with ⟨m, e, him, hm, -⟩ | ⟨-, hends⟩
  · omega
  · cases hends

theorem twoPhased_nil : TwoPhased [] := ⟨nofun, nofun⟩

theorem TwoPhased.concat (ht : TwoPhased h)
    (hfree : ∀ b, e = .access b → ∀ i a, Live h i a → a.session ≠ b.session → ¬a.conflictsWith b)
    (hlater : ∀ s now, e = .committed s now →
      ∀ (k : Nat) (x : SessionId) (before : Timestamp), h[k]? = some (.committed x before) →
        before < now) :
    TwoPhased (h ++ [e]) := by
  constructor
  · intro i j a b ha hb hij hs hconflict
    rw [getElem?_concat] at ha hb
    split at hb
    next hj =>
      -- The new event is the second access, so the first transaction is not open any more.
      rw [if_neg (by omega)] at ha
      rw [hj, endsBetween_concat (Nat.le_refl _)]
      by_contra hopen
      exact hfree b (Option.some.inj hb) i a ⟨ha, hopen⟩ hs hconflict
    next hj =>
      have hlt := lt_of_getElem? hb
      rw [if_neg (by omega)] at ha
      rw [endsBetween_concat (by omega)]
      exact ht.separated i j a b ha hb hij hs hconflict
  · intro k l s x now later hk hl hkl
    rw [getElem?_concat] at hk hl
    split at hl
    next =>
      rw [if_neg (by omega)] at hk
      exact hlater x later (Option.some.inj hl) k s now hk
    next =>
      have hlt := lt_of_getElem? hl
      rw [if_neg (by omega)] at hk
      exact ht.timed k l s x now later hk hl hkl

end LockingDb
