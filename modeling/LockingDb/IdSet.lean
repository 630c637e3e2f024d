namespace LockingDb

/-- A finite set of identifiers, listed in increasing order. -/
structure IdSet where
  toList : List Nat
  increasing : toList.Pairwise (· < ·)
  deriving DecidableEq

namespace IdSet

/-- Puts `x` at its place in an increasing list, once. -/
def place (x : Nat) : List Nat → List Nat
  | [] => [x]
  | y :: rest =>
    if x < y then x :: y :: rest
    else if x = y then y :: rest
    else y :: place x rest

@[simp] theorem mem_place {x z : Nat} {l : List Nat} : z ∈ place x l ↔ z = x ∨ z ∈ l := by
  induction l with
  | nil => simp [place]
  | cons y rest ih =>
    unfold place
    split
    · simp
    · split
      next h => simp [h]
      next => simp [ih, or_left_comm]

theorem increasing_place {x : Nat} {l : List Nat} (hl : l.Pairwise (· < ·)) :
    (place x l).Pairwise (· < ·) := by
  induction l with
  | nil => simp [place]
  | cons y rest ih =>
    have hy := List.pairwise_cons.mp hl
    unfold place
    split
    next h =>
      refine List.pairwise_cons.mpr ⟨fun z hz => ?_, hl⟩
      rcases List.mem_cons.mp hz with rfl | hz
      · exact h
      · exact Nat.lt_trans h (hy.1 z hz)
    next h =>
      split
      · exact hl
      next hne =>
        refine List.pairwise_cons.mpr ⟨fun z hz => ?_, ih hy.2⟩
        rcases mem_place.mp hz with rfl | hz
        · omega
        · exact hy.1 z hz

theorem increasing_nil : ([] : List Nat).Pairwise (· < ·) := .nil

def empty : IdSet := ⟨[], increasing_nil⟩

instance : EmptyCollection IdSet := ⟨empty⟩

instance : Inhabited IdSet := ⟨empty⟩

instance : Membership Nat IdSet := ⟨fun s x => x ∈ s.toList⟩

instance (x : Nat) (s : IdSet) : Decidable (x ∈ s) := inferInstanceAs (Decidable (x ∈ s.toList))

def insert (s : IdSet) (x : Nat) : IdSet := ⟨place x s.toList, increasing_place s.increasing⟩

def erase (s : IdSet) (x : Nat) : IdSet :=
  ⟨s.toList.filter (· ≠ x), s.increasing.filter _⟩

def filter (s : IdSet) (p : Nat → Bool) : IdSet := ⟨s.toList.filter p, s.increasing.filter p⟩

def insertAll (s : IdSet) (xs : List Nat) : IdSet := xs.foldl insert s

def ofList (xs : List Nat) : IdSet := empty.insertAll xs

def union (s t : IdSet) : IdSet := s.insertAll t.toList

instance : Union IdSet := ⟨union⟩

def isEmpty (s : IdSet) : Bool := s.toList.isEmpty

def size (s : IdSet) : Nat := s.toList.length

@[ext] theorem ext {s t : IdSet} (h : ∀ x, x ∈ s ↔ x ∈ t) : s = t := by
  obtain ⟨a, ha⟩ := s
  obtain ⟨b, hb⟩ := t
  have h' : ∀ x, x ∈ a ↔ x ∈ b := h
  suffices a = b by subst this; rfl
  clear h
  induction a generalizing b with
  | nil =>
    cases b with
    | nil => rfl
    | cons y b => simpa using (h' y).mpr (by simp)
  | cons x a ih =>
    cases b with
    | nil => simpa using (h' x).mp (by simp)
    | cons y b =>
      have hx := List.pairwise_cons.mp ha
      have hy := List.pairwise_cons.mp hb
      have hxy : x = y := by
        rcases List.mem_cons.mp ((h' x).mp (by simp)) with h | h
        · exact h
        · rcases List.mem_cons.mp ((h' y).mpr (by simp)) with h2 | h2
          · exact h2.symm
          · have := hx.1 y h2
            have := hy.1 x h
            omega
      subst hxy
      congr 1
      refine ih hx.2 b hy.2 (fun z => ⟨fun hz => ?_, fun hz => ?_⟩)
      · rcases List.mem_cons.mp ((h' z).mp (by simp [hz])) with rfl | h
        · exact absurd (hx.1 z hz) (Nat.lt_irrefl _)
        · exact h
      · rcases List.mem_cons.mp ((h' z).mpr (by simp [hz])) with rfl | h
        · exact absurd (hy.1 z hz) (Nat.lt_irrefl _)
        · exact h

theorem mem_toList {s : IdSet} {x : Nat} : x ∈ s.toList ↔ x ∈ s := Iff.rfl

@[simp] theorem not_mem_empty {x : Nat} : ¬x ∈ (∅ : IdSet) := List.not_mem_nil

@[simp] theorem mem_insert {s : IdSet} {x z : Nat} : z ∈ s.insert x ↔ z = x ∨ z ∈ s := mem_place

@[simp] theorem mem_erase {s : IdSet} {x z : Nat} : z ∈ s.erase x ↔ z ∈ s ∧ z ≠ x := by
  simp [← mem_toList, erase]

@[simp] theorem mem_filter {s : IdSet} {p : Nat → Bool} {z : Nat} :
    z ∈ s.filter p ↔ z ∈ s ∧ p z = true := by
  simp [← mem_toList, filter]

@[simp] theorem mem_insertAll {s : IdSet} {xs : List Nat} {z : Nat} :
    z ∈ s.insertAll xs ↔ z ∈ s ∨ z ∈ xs := by
  induction xs generalizing s with
  | nil => simp [insertAll]
  | cons x xs ih =>
    have := ih (s := s.insert x)
    simp only [insertAll, List.foldl_cons] at this ⊢
    rw [this, mem_insert, List.mem_cons, or_assoc, or_left_comm]

@[simp] theorem mem_ofList {xs : List Nat} {z : Nat} : z ∈ ofList xs ↔ z ∈ xs := by
  have h : ¬z ∈ empty := List.not_mem_nil
  simp [ofList, h]

@[simp] theorem mem_union {s t : IdSet} {z : Nat} : z ∈ s ∪ t ↔ z ∈ s ∨ z ∈ t := mem_insertAll

theorem isEmpty_iff {s : IdSet} : s.isEmpty = true ↔ ∀ x, ¬x ∈ s := by
  simp [isEmpty, List.isEmpty_iff, List.eq_nil_iff_forall_not_mem, ← mem_toList]

end IdSet

end LockingDb
