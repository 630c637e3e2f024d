import LockingDb.LockQueue
import Mathlib.Logic.Basic

namespace LockingDb

namespace LockTable

variable {l : LockTable} {s x : SessionId} {t u : TableId} {r : LockRequest}

/-- The part of the table that says who waits. -/
def line (l : LockTable) : IdMap Waiter × IdMap Nat × Nat := (l.queue, l.ticket, l.nextTicket)

/-- The three maps of holders say the same, and a table with a writer has no other holder. -/
structure HoldersAgree (l : LockTable) : Prop where
  writer_iff : ∀ t s, l.writer.get? t = some s ↔ l.mode? s t = some .exclusive
  reader_iff : ∀ t s, s ∈ l.readersOf t ↔ l.mode? s t = some .shared
  reader_exists : ∀ t readers, l.readers.get? t = some readers → ∃ s, s ∈ readers
  writer_alone : ∀ t s x, l.mode? s t = some .exclusive → x ≠ s → l.mode? x t = none

/-- The session holds a lock that does not go with the request of another one. -/
def Bars (l : LockTable) (x : SessionId) (r : LockRequest) : Prop :=
  (∃ t ∈ r.writes, (l.mode? x t).isSome = true) ∨ ∃ t ∈ r.reads, l.mode? x t = some .exclusive

def Grantable (l : LockTable) (s : SessionId) (r : LockRequest) : Prop :=
  ∀ x, x ≠ s → ¬l.Bars x r

theorem mode?_def : l.mode? s t = (l.held.get? s).bind (·.get? t) := by
  unfold mode? locksOf
  cases l.held.get? s <;> rfl

theorem dropReader_writer : (l.dropReader s t).writer = l.writer := by
  unfold dropReader
  split <;> rfl

theorem dropReader_held : (l.dropReader s t).held = l.held := by
  unfold dropReader
  split <;> rfl

theorem dropReader_line : (l.dropReader s t).line = l.line := by
  unfold dropReader
  split <;> rfl

theorem mode?_dropReader : (l.dropReader s t).mode? x u = l.mode? x u := by
  simp only [mode?_def, dropReader_held]

theorem readersOf_dropReader :
    (l.dropReader s t).readersOf u = if u = t then (l.readersOf t).erase s else l.readersOf u := by
  cases hr : l.readers.get? t with
  | none =>
    have hdrop : l.dropReader s t = l := by simp [dropReader, hr]
    have hnobody : l.readersOf t = ∅ := by simp [readersOf, hr]
    rw [hdrop, hnobody]
    split
    next hu =>
      rw [hu, hnobody]
      rfl
    next => rfl
  | some readers =>
    have hold : l.readersOf t = readers := by simp [readersOf, hr]
    rw [hold]
    by_cases hleft : (readers.erase s).isEmpty
    · have hdrop : l.dropReader s t = { l with readers := l.readers.erase t } := by
        simp [dropReader, hr, hleft]
      have hgone : readers.erase s = ∅ := by
        ext x
        simpa using IdSet.isEmpty_iff.mp hleft x
      rw [hdrop, hgone]
      by_cases hu : u = t <;> simp [readersOf, IdMap.get?_erase, hu]
    · have hdrop : l.dropReader s t = { l with readers := l.readers.insert t (readers.erase s) } := by
        simp [dropReader, hr, hleft]
      rw [hdrop]
      by_cases hu : u = t <;> simp [readersOf, IdMap.get?_insert, hu]

theorem mem_readersOf_dropReader :
    x ∈ (l.dropReader s t).readersOf u ↔ x ∈ l.readersOf u ∧ ¬(x = s ∧ u = t) := by
  rw [readersOf_dropReader]
  split
  next hu => simp [hu]
  next hu => simp [hu]

theorem reader_exists_dropReader
    (h : ∀ u readers, l.readers.get? u = some readers → ∃ x, x ∈ readers) :
    ∀ u readers, (l.dropReader s t).readers.get? u = some readers → ∃ x, x ∈ readers := by
  intro u readers hu
  unfold dropReader at hu
  split at hu
  next => exact h u readers hu
  next old hold =>
    simp only at hu
    split at hu
    next =>
      rw [IdMap.get?_erase] at hu
      split at hu
      · cases hu
      · exact h u readers hu
    next hleft =>
      rw [IdMap.get?_insert] at hu
      split at hu
      · cases Option.some.inj hu
        simpa only [IdSet.isEmpty_iff, not_forall, not_not] using hleft
      · exact h u readers hu

theorem mode?_setMode {m : LockMode} :
    (l.setMode s t m).mode? x u = if x = s ∧ u = t then some m else l.mode? x u := by
  simp only [mode?_def, setMode, IdMap.get?_insert]
  by_cases hx : x = s
  · subst hx
    by_cases hu : u = t
    · simp [hu]
    · cases hh : l.held.get? x <;> simp [hu, hh, IdMap.get?_insert, locksOf]
  · simp [hx]

theorem mode?_grantWrite :
    (l.grantWrite s t).mode? x u = if x = s ∧ u = t then some .exclusive else l.mode? x u := by
  simp only [grantWrite, mode?_setMode, mode?_dropReader]
  rfl

theorem grantWrite_writer : (l.grantWrite s t).writer = l.writer.insert t s := by
  simp only [grantWrite, setMode, dropReader_writer]

theorem mem_readersOf_grantWrite :
    x ∈ (l.grantWrite s t).readersOf u ↔ x ∈ l.readersOf u ∧ ¬(x = s ∧ u = t) :=
  mem_readersOf_dropReader (l := { l with writer := l.writer.insert t s })

theorem grantWrite_line : (l.grantWrite s t).line = l.line :=
  dropReader_line (l := { l with writer := l.writer.insert t s })

theorem mode?_grantRead :
    (l.grantRead s t).mode? x u =
      if x = s ∧ u = t ∧ l.mode? s t ≠ some .exclusive then some .shared else l.mode? x u := by
  unfold grantRead
  split
  next h => simp [h]
  next h =>
    rw [mode?_setMode]
    simp only [h, ne_eq, not_false_eq_true, and_true]
    rfl

theorem grantRead_writer : (l.grantRead s t).writer = l.writer := by
  unfold grantRead
  split <;> rfl

theorem mem_readersOf_grantRead :
    x ∈ (l.grantRead s t).readersOf u ↔
      x ∈ l.readersOf u ∨ (x = s ∧ u = t ∧ l.mode? s t ≠ some .exclusive) := by
  unfold grantRead
  split
  next h => simp [h]
  next h =>
    by_cases hu : u = t
    · simp [readersOf, setMode, hu, h, or_comm]
    · simp [readersOf, setMode, hu, IdMap.get?_insert]

theorem grantRead_line : (l.grantRead s t).line = l.line := by
  unfold grantRead
  split <;> rfl

theorem HoldersAgree.grantWrite (h : l.HoldersAgree) (halone : ∀ x, x ≠ s → l.mode? x t = none) :
    (l.grantWrite s t).HoldersAgree := by
  refine ⟨fun u x => ?_, fun u x => ?_, ?_, fun u x y hx hy => ?_⟩
  · rw [grantWrite_writer, IdMap.get?_insert, mode?_grantWrite]
    by_cases hu : u = t
    · subst hu
      by_cases hx : x = s
      · simp [hx]
      · simp [hx, halone x hx, Ne.symm hx]
    · simp [hu, h.writer_iff]
  · rw [mem_readersOf_grantWrite, mode?_grantWrite, h.reader_iff]
    by_cases hx : x = s ∧ u = t <;> simp [hx]
  · exact reader_exists_dropReader h.reader_exists
  · rw [mode?_grantWrite] at hx ⊢
    by_cases hs : x = s ∧ u = t
    · rw [if_neg (by rintro ⟨rfl, -⟩; exact hy hs.1.symm)]
      exact hs.2 ▸ halone y (hs.1 ▸ hy)
    · rw [if_neg hs] at hx
      have hnone := h.writer_alone u x y hx hy
      by_cases hys : y = s ∧ u = t
      · have hfree := halone x (fun hxs => hs ⟨hxs, hys.2⟩)
        rw [← hys.2, hx] at hfree
        cases hfree
      · rw [if_neg hys, hnone]

theorem HoldersAgree.grantRead (h : l.HoldersAgree)
    (hshared : ∀ x, x ≠ s → l.mode? x t ≠ some .exclusive) : (l.grantRead s t).HoldersAgree := by
  by_cases hmode : l.mode? s t = some .exclusive
  · rwa [show l.grantRead s t = l by simp [LockTable.grantRead, hmode]]
  refine ⟨fun u x => ?_, fun u x => ?_, ?_, fun u x y hx hy => ?_⟩
  · rw [grantRead_writer, h.writer_iff, mode?_grantRead]
    by_cases hx : x = s ∧ u = t
    · simp [hx, hmode]
    · rw [if_neg (fun hc => hx ⟨hc.1, hc.2.1⟩)]
  · rw [mem_readersOf_grantRead, mode?_grantRead, h.reader_iff]
    by_cases hx : x = s ∧ u = t ∧ l.mode? s t ≠ some .exclusive <;> simp [hx]
  · intro u readers hu
    simp only [LockTable.grantRead, hmode, if_false, setMode, IdMap.get?_insert] at hu
    split at hu
    next => exact ⟨s, Option.some.inj hu ▸ IdSet.mem_insert.mpr (Or.inl rfl)⟩
    next => exact h.reader_exists u readers hu
  · rw [mode?_grantRead] at hx ⊢
    have hxold : l.mode? x u = some .exclusive := by
      split at hx
      · cases hx
      · exact hx
    have hnot : ¬(y = s ∧ u = t ∧ l.mode? s t ≠ some .exclusive) := by
      rintro ⟨rfl, rfl, -⟩
      exact hshared x (Ne.symm hy) hxold
    rw [if_neg hnot]
    exact h.writer_alone u x y hxold hy

theorem mode?_grantWrites (ts : List TableId) :
    (ts.foldl (fun l t => l.grantWrite s t) l).mode? x u =
      if x = s ∧ u ∈ ts then some .exclusive else l.mode? x u := by
  induction ts generalizing l with
  | nil => simp
  | cons t ts ih =>
    rw [List.foldl_cons, ih, mode?_grantWrite]
    by_cases hx : x = s <;> by_cases hu : u = t <;> by_cases hm : u ∈ ts <;> simp [hx, hu, hm]

theorem mode?_grantReads (ts : List TableId) :
    (ts.foldl (fun l t => l.grantRead s t) l).mode? x u =
      if x = s ∧ u ∈ ts ∧ l.mode? s u ≠ some .exclusive then some .shared else l.mode? x u := by
  induction ts generalizing l with
  | nil => simp
  | cons t ts ih =>
    rw [List.foldl_cons, ih, mode?_grantRead, mode?_grantRead]
    by_cases hx : x = s
    · subst hx
      by_cases hu : u = t
      · subst hu
        by_cases he : l.mode? x u = some .exclusive <;> simp [he]
      · simp [hu]
    · simp [hx]

/-- An empty entry for a session that has none says the same. -/
theorem mode?_insert_locksOf :
    ({ l with held := l.held.insert s (l.locksOf s) } : LockTable).mode? x u = l.mode? x u := by
  by_cases hx : x = s
  · subst hx
    simp only [mode?_def, IdMap.get?_insert_self, locksOf]
    cases l.held.get? x <;> rfl
  · simp [mode?_def, IdMap.get?_insert, hx]

theorem mode?_grant_of_ne (hx : x ≠ s) : (l.grant s r).mode? x u = l.mode? x u := by
  simp only [grant]
  rw [mode?_grantReads, if_neg (fun h => hx h.1), mode?_grantWrites, if_neg (fun h => hx h.1),
    mode?_insert_locksOf]

/-- A lock is taken or made stronger, never weaker. -/
theorem mode?_grant_self :
    (l.grant s r).mode? s u =
      if u ∈ r.writes then some .exclusive
      else if u ∈ r.reads ∧ l.mode? s u ≠ some .exclusive then some .shared
      else l.mode? s u := by
  simp only [grant]
  rw [mode?_grantReads, mode?_grantWrites, mode?_insert_locksOf]
  by_cases hw : u ∈ r.writes
  · simp [IdSet.mem_toList, hw]
  · simp [IdSet.mem_toList, hw]

theorem grant_line : (l.grant s r).line = l.line := by
  have hwrites : (r.writes.toList.foldl (fun (l : LockTable) t => l.grantWrite s t)
      { l with held := l.held.insert s (l.locksOf s) }).line = l.line :=
    List.foldlRecOn (motive := fun l' : LockTable => l'.line = l.line) _ _ rfl
      (fun _ h _ _ => grantWrite_line.trans h)
  exact List.foldlRecOn (motive := fun l' : LockTable => l'.line = l.line) _ _ hwrites
    (fun _ h _ _ => grantRead_line.trans h)

theorem holdsAll_iff : l.holdsAll s r = true ↔
    (∀ t ∈ r.writes, l.mode? s t = some .exclusive) ∧ ∀ t ∈ r.reads, (l.mode? s t).isSome = true := by
  simp [holdsAll, IdSet.mem_toList]

theorem holdsAll_grant : (l.grant s r).holdsAll s r = true := by
  refine holdsAll_iff.mpr ⟨fun t ht => ?_, fun t ht => ?_⟩
  · rw [mode?_grant_self, if_pos ht]
  · rw [mode?_grant_self, if_neg (r.disjoint t ht)]
    split
    next => rfl
    next hkept =>
      have he : l.mode? s t = some .exclusive := not_not.mp fun hne => hkept ⟨ht, hne⟩
      rw [he]
      rfl

theorem Grantable.not_held (hg : l.Grantable s r) (hx : x ≠ s) (ht : t ∈ r.writes) :
    l.mode? x t = none :=
  Option.not_isSome_iff_eq_none.mp fun hheld => hg x hx (Or.inl ⟨t, ht, hheld⟩)

theorem Grantable.not_written (hg : l.Grantable s r) (hx : x ≠ s) (ht : t ∈ r.reads) :
    l.mode? x t ≠ some .exclusive :=
  fun he => hg x hx (Or.inr ⟨t, ht, he⟩)

theorem HoldersAgree.mem_conflictingHolders (h : l.HoldersAgree) :
    x ∈ l.conflictingHolders s r ↔ x ≠ s ∧ l.Bars x r := by
  have hsome : ∀ t, (l.mode? x t).isSome = true ↔
      l.mode? x t = some .exclusive ∨ l.mode? x t = some .shared := by
    intro t
    cases l.mode? x t with
    | none => simp
    | some m => cases m <;> simp
  simp only [conflictingHolders, IdSet.mem_erase, IdSet.mem_ofList, List.mem_append,
    List.mem_filterMap, List.mem_flatMap, IdSet.mem_toList, h.writer_iff, h.reader_iff, Bars, hsome]
  constructor
  · rintro ⟨⟨t, ht | ht, he⟩ | ⟨t, ht, hs⟩, hx⟩
    · exact ⟨hx, Or.inl ⟨t, ht, Or.inl he⟩⟩
    · exact ⟨hx, Or.inr ⟨t, ht, he⟩⟩
    · exact ⟨hx, Or.inl ⟨t, ht, Or.inr hs⟩⟩
  · rintro ⟨hx, ⟨t, ht, he | hs⟩ | ⟨t, ht, he⟩⟩
    · exact ⟨Or.inl ⟨t, Or.inl ht, he⟩, hx⟩
    · exact ⟨Or.inr ⟨t, ht, hs⟩, hx⟩
    · exact ⟨Or.inl ⟨t, Or.inr ht, he⟩, hx⟩

theorem HoldersAgree.grantable_iff (h : l.HoldersAgree) :
    l.Grantable s r ↔ (l.conflictingHolders s r).isEmpty = true := by
  simp only [IdSet.isEmpty_iff, h.mem_conflictingHolders, not_and]
  rfl

theorem HoldersAgree.grant (h : l.HoldersAgree) (hg : l.Grantable s r) :
    (l.grant s r).HoldersAgree := by
  let entered : LockTable := { l with held := l.held.insert s (l.locksOf s) }
  have hmode : ∀ x u, entered.mode? x u = l.mode? x u := fun _ _ => mode?_insert_locksOf
  have hentered : entered.HoldersAgree :=
    ⟨fun t x => by rw [hmode]; exact h.writer_iff t x, fun t x => by rw [hmode]; exact h.reader_iff t x,
      h.reader_exists, fun t x y hx hy => by rw [hmode] at hx ⊢; exact h.writer_alone t x y hx hy⟩
  -- The modes of the others stay as they are, so each single grant meets its condition.
  let Good := fun l' : LockTable => l'.HoldersAgree ∧ ∀ x, x ≠ s → ∀ u, l'.mode? x u = l.mode? x u
  have hwrites : Good (r.writes.toList.foldl (fun l t => l.grantWrite s t) entered) := by
    refine List.foldlRecOn (motive := Good) _ _ ⟨hentered, fun x _ u => hmode x u⟩ ?_
    rintro l' ⟨hl', hothers⟩ t ht
    refine ⟨hl'.grantWrite fun x hx => ?_, fun x hx u => ?_⟩
    · rw [hothers x hx]
      exact hg.not_held hx ht
    · rw [mode?_grantWrite, if_neg (fun hc => hx hc.1), hothers x hx]
  refine (List.foldlRecOn (motive := Good) _ _ hwrites ?_).1
  rintro l' ⟨hl', hothers⟩ t ht
  refine ⟨hl'.grantRead fun x hx => ?_, fun x hx u => ?_⟩
  · rw [hothers x hx]
    exact hg.not_written hx ht
  · rw [mode?_grantRead, if_neg (fun hc => hx hc.1), hothers x hx]

section Release

variable {m : LockMode} {tables : List TableId}

theorem unlock_held : (l.unlock s t m).held = l.held := by
  cases m with
  | exclusive =>
    unfold unlock
    dsimp only
    split <;> rfl
  | shared => exact dropReader_held

theorem unlock_line : (l.unlock s t m).line = l.line := by
  cases m with
  | exclusive =>
    unfold unlock
    dsimp only
    split <;> rfl
  | shared => exact dropReader_line

theorem unlock_writer :
    (l.unlock s t m).writer.get? u =
      if m = .exclusive ∧ u = t ∧ l.writer.get? t = some s then none else l.writer.get? u := by
  cases m with
  | exclusive =>
    by_cases hw : l.writer.get? t = some s
    · by_cases hu : u = t <;> simp [unlock, hw, IdMap.get?_erase, hu]
    · simp [unlock, hw]
  | shared => simp [unlock, dropReader_writer]

theorem mem_readersOf_unlock :
    x ∈ (l.unlock s t m).readersOf u ↔ x ∈ l.readersOf u ∧ ¬(x = s ∧ u = t ∧ m = .shared) := by
  cases m with
  | exclusive =>
    have hreaders : (l.unlock s t .exclusive).readersOf u = l.readersOf u := by
      unfold unlock
      dsimp only
      split <;> rfl
    simp [hreaders]
  | shared => simpa [unlock] using mem_readersOf_dropReader

theorem reader_exists_unlock
    (h : ∀ u readers, l.readers.get? u = some readers → ∃ x, x ∈ readers) :
    ∀ u readers, (l.unlock s t m).readers.get? u = some readers → ∃ x, x ∈ readers := by
  cases m with
  | exclusive =>
    have hreaders : (l.unlock s t .exclusive).readers = l.readers := by
      unfold unlock
      dsimp only
      split <;> rfl
    rwa [hreaders]
  | shared => exact reader_exists_dropReader h

theorem foldl_unlock_held (es : List (TableId × LockMode)) :
    (es.foldl (fun l (t, m) => l.unlock s t m) l).held = l.held :=
  List.foldlRecOn (motive := fun l' : LockTable => l'.held = l.held) _ _ rfl
    (fun _ h _ _ => unlock_held.trans h)

theorem foldl_unlock_line (es : List (TableId × LockMode)) :
    (es.foldl (fun l (t, m) => l.unlock s t m) l).line = l.line :=
  List.foldlRecOn (motive := fun l' : LockTable => l'.line = l.line) _ _ rfl
    (fun _ h _ _ => unlock_line.trans h)

theorem foldl_unlock_writer (es : List (TableId × LockMode)) :
    (es.foldl (fun l (t, m) => l.unlock s t m) l).writer.get? u =
      if (u, .exclusive) ∈ es ∧ l.writer.get? u = some s then none else l.writer.get? u := by
  induction es generalizing l with
  | nil => simp
  | cons e es ih =>
    obtain ⟨t, m⟩ := e
    rw [List.foldl_cons, ih, unlock_writer]
    by_cases hw : l.writer.get? u = some s
    · by_cases hu : u = t
      · subst hu
        by_cases hm : m = .exclusive
        · simp [hw, hm]
        · simp [hm, Ne.symm hm]
      · simp [hu]
    · by_cases hu : u = t
      · subst hu
        simp [hw]
      · simp [hu, hw]

theorem mem_readersOf_foldl_unlock (es : List (TableId × LockMode)) :
    x ∈ (es.foldl (fun l (t, m) => l.unlock s t m) l).readersOf u ↔
      x ∈ l.readersOf u ∧ ¬(x = s ∧ (u, .shared) ∈ es) := by
  induction es generalizing l with
  | nil => simp
  | cons e es ih =>
    obtain ⟨t, m⟩ := e
    rw [List.foldl_cons, ih, mem_readersOf_unlock]
    by_cases hx : x = s
    · by_cases hu : u = t
      · by_cases hm : m = .shared
        · simp [hx, hu, hm]
        · simp [hx, hu, hm, Ne.symm hm]
      · simp [hx, hu]
    · simp [hx]

theorem releaseAll_line : (l.releaseAll s).2.line = l.line := by
  unfold releaseAll
  split
  next => rfl
  next locks _ => exact foldl_unlock_line locks.entries

theorem mode?_releaseAll :
    (l.releaseAll s).2.mode? x u = if x = s then none else l.mode? x u := by
  unfold releaseAll
  split
  next hnone =>
    split
    next hx => simp [mode?_def, hx, hnone]
    next => rfl
  next locks _ =>
    simp only [mode?_def, foldl_unlock_held, IdMap.get?_erase]
    split <;> rfl

theorem HoldersAgree.releaseAll (h : l.HoldersAgree) : (l.releaseAll s).2.HoldersAgree := by
  cases hheld : l.held.get? s with
  | none => simpa [LockTable.releaseAll, hheld] using h
  | some locks =>
    have hentry : ∀ u m, (u, m) ∈ locks.entries ↔ l.mode? s u = some m := by
      intro u m
      rw [IdMap.mem_entries, mode?_def, hheld]
      rfl
    -- A table that the session writes has no writer afterwards; it had no other one before.
    refine ⟨fun u x => ?_, fun u x => ?_, ?_, fun u x y hx hy => ?_⟩
    · rw [mode?_releaseAll]
      simp only [LockTable.releaseAll, hheld, foldl_unlock_writer, hentry, h.writer_iff]
      by_cases hx : x = s
      · subst hx
        by_cases hm : l.mode? x u = some .exclusive
        · simp [hm]
        · simp [hm, h.writer_iff]
      · by_cases hm : l.mode? s u = some .exclusive
        · have hnone := h.writer_alone u s x hm hx
          simp [hm, hx, hnone]
        · simp [hm, hx, h.writer_iff]
    · rw [mode?_releaseAll]
      simp only [LockTable.releaseAll, hheld, mem_readersOf_foldl_unlock, hentry]
      by_cases hx : x = s
      · subst hx
        simp only [if_true, true_and, reduceCtorEq, iff_false, not_and, not_not]
        exact (h.reader_iff u x).mp
      · simp only [hx, false_and, not_false_eq_true, and_true, if_false]
        exact h.reader_iff u x
    · simp only [LockTable.releaseAll, hheld]
      exact List.foldlRecOn
        (motive := fun l' : LockTable => ∀ u readers, l'.readers.get? u = some readers → ∃ x, x ∈ readers)
        _ _ h.reader_exists (fun _ hl' _ _ => reader_exists_unlock hl')
    · rw [mode?_releaseAll] at hx ⊢
      split at hx
      · cases hx
      · split
        · rfl
        · exact h.writer_alone u x y hx hy

theorem foldl_dropReader_held (ts : List TableId) :
    (ts.foldl (fun l t => l.dropReader s t) l).held = l.held :=
  List.foldlRecOn (motive := fun l' : LockTable => l'.held = l.held) _ _ rfl
    (fun _ h _ _ => dropReader_held.trans h)

theorem mem_readersOf_foldl_dropReader (ts : List TableId) :
    x ∈ (ts.foldl (fun l t => l.dropReader s t) l).readersOf u ↔
      x ∈ l.readersOf u ∧ ¬(x = s ∧ u ∈ ts) := by
  induction ts generalizing l with
  | nil => simp
  | cons t ts ih =>
    rw [List.foldl_cons, ih, mem_readersOf_dropReader]
    by_cases hx : x = s <;> by_cases hu : u = t <;> simp [hx, hu]

theorem releaseShared_line : (l.releaseShared s tables).2.line = l.line :=
  List.foldlRecOn (motive := fun l' : LockTable => l'.line = l.line) _ _ rfl
    (fun _ h _ _ => dropReader_line.trans h)

theorem releaseShared_writer : (l.releaseShared s tables).2.writer = l.writer :=
  List.foldlRecOn (motive := fun l' : LockTable => l'.writer = l.writer) _ _ rfl
    (fun _ h _ _ => dropReader_writer.trans h)

theorem mode?_releaseShared :
    (l.releaseShared s tables).2.mode? x u =
      if x = s ∧ u ∈ tables ∧ l.mode? s u = some .shared then none else l.mode? x u := by
  rw [mode?_def (l := (l.releaseShared s tables).2)]
  simp only [releaseShared, foldl_dropReader_held]
  cases hheld : l.held.get? s with
  | none =>
    have hnone : l.mode? s u = none := by simp [mode?_def, hheld]
    simp [hnone, mode?_def]
  | some locks =>
    have hmode : ∀ k, l.mode? s k = locks.get? k := fun k => by simp [mode?_def, hheld]
    have hleft : ∀ k, (((IdSet.ofList tables).toList.filter fun t => l.mode? s t = some .shared).foldl
        IdMap.erase locks).get? k =
        if k ∈ tables ∧ l.mode? s k = some .shared then none else l.mode? s k := by
      intro k
      rw [IdMap.get?_foldl_erase]
      simp [IdSet.mem_toList, hmode]
    by_cases hx : x = s
    · subst hx
      simp only [true_and]
      rw [← hleft u]
      split
      next hempty => simpa using (IdMap.isEmpty_iff.mp hempty u).symm
      next => simp
    · simp only [hx, false_and, if_false, mode?_def]
      split
      next => simp [IdMap.get?_erase, hx]
      next => simp [IdMap.get?_insert, hx]

theorem HoldersAgree.releaseShared (h : l.HoldersAgree) :
    (l.releaseShared s tables).2.HoldersAgree := by
  refine ⟨fun u x => ?_, fun u x => ?_, ?_, fun u x y hx hy => ?_⟩
  · rw [releaseShared_writer, mode?_releaseShared, h.writer_iff]
    split
    next hx => simp [hx.1, hx.2.2]
    next => rfl
  · rw [mode?_releaseShared]
    simp only [LockTable.releaseShared, mem_readersOf_foldl_dropReader, IdSet.mem_toList,
      IdSet.mem_ofList]
    have hold := h.reader_iff u x
    by_cases hx : x = s ∧ u ∈ tables
    · simp only [hx, true_and, not_true_eq_false, and_false, false_iff]
      obtain ⟨rfl, -⟩ := hx
      split
      next => exact fun hshared => by cases hshared
      next hshared => exact hshared
    · rw [if_neg (fun hc => hx ⟨hc.1, hc.2.1⟩), ← hold]
      exact ⟨fun hc => hc.1, fun hc => ⟨hc, hx⟩⟩
  · exact List.foldlRecOn
      (motive := fun l' : LockTable => ∀ u readers, l'.readers.get? u = some readers → ∃ x, x ∈ readers)
      _ _ h.reader_exists (fun _ hl' _ _ => reader_exists_dropReader hl')
  · rw [mode?_releaseShared] at hx ⊢
    split at hx
    · cases hx
    · split
      · rfl
      · exact h.writer_alone u x y hx hy

end Release

/-- The session has at least the locks in `l'` that it has in `l`. -/
structure Keeps (s : SessionId) (l l' : LockTable) : Prop where
  held : ∀ t, (l.mode? s t).isSome = true → (l'.mode? s t).isSome = true
  written : ∀ t, l.mode? s t = some .exclusive → l'.mode? s t = some .exclusive

section Keeps

variable {l' l₂ : LockTable}

theorem keeps_of_eq (h : ∀ t, l'.mode? s t = l.mode? s t) : Keeps s l l' :=
  ⟨fun t ht => (h t).symm ▸ ht, fun t ht => (h t).symm ▸ ht⟩

theorem Keeps.refl (s : SessionId) (l : LockTable) : Keeps s l l := ⟨fun _ ht => ht, fun _ ht => ht⟩

theorem Keeps.trans (h : Keeps s l l') (h₂ : Keeps s l' l₂) : Keeps s l l₂ :=
  ⟨fun t ht => h₂.held t (h.held t ht), fun t ht => h₂.written t (h.written t ht)⟩

theorem Keeps.holdsAll (h : Keeps s l l') (hall : l.holdsAll s r = true) :
    l'.holdsAll s r = true := by
  obtain ⟨hwrites, hreads⟩ := holdsAll_iff.mp hall
  exact holdsAll_iff.mpr ⟨fun t ht => h.written t (hwrites t ht), fun t ht => h.held t (hreads t ht)⟩

theorem Keeps.bars (h : Keeps x l l') (hb : l.Bars x r) : l'.Bars x r := by
  rcases hb with ⟨t, ht, hheld⟩ | ⟨t, ht, hwritten⟩
  · exact Or.inl ⟨t, ht, h.held t hheld⟩
  · exact Or.inr ⟨t, ht, h.written t hwritten⟩

theorem keeps_grant : Keeps x l (l.grant s r) := by
  by_cases hx : x = s
  · subst hx
    refine ⟨fun t ht => ?_, fun t ht => ?_⟩
    · rw [mode?_grant_self]
      split
      · rfl
      · split
        · rfl
        · exact ht
    · rw [mode?_grant_self]
      split
      · rfl
      · rw [if_neg (fun hc => hc.2 ht), ht]
  · exact keeps_of_eq fun _ => mode?_grant_of_ne hx

theorem keeps_before_releaseAll : Keeps x (l.releaseAll s).2 l := by
  refine ⟨fun t ht => ?_, fun t ht => ?_⟩
  all_goals
    rw [mode?_releaseAll] at ht
    split at ht
    · cases ht
    · exact ht

theorem keeps_releaseAll (hx : x ≠ s) : Keeps x l (l.releaseAll s).2 :=
  keeps_of_eq fun t => by rw [mode?_releaseAll, if_neg hx]

theorem keeps_before_releaseShared {tables : List TableId} :
    Keeps x (l.releaseShared s tables).2 l := by
  refine ⟨fun t ht => ?_, fun t ht => ?_⟩
  all_goals
    rw [mode?_releaseShared] at ht
    split at ht
    · cases ht
    · exact ht

theorem keeps_releaseShared (hx : x ≠ s) {tables : List TableId} :
    Keeps x l (l.releaseShared s tables).2 :=
  keeps_of_eq fun t => by rw [mode?_releaseShared, if_neg (fun hc => hx hc.1)]

end Keeps

end LockTable

end LockingDb
