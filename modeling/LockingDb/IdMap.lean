namespace LockingDb

/-- A finite map from identifiers, listed in increasing order of key. -/
structure IdMap (α : Type) where
  entries : List (Nat × α)
  increasing : (entries.map Prod.fst).Pairwise (· < ·)
  deriving DecidableEq

namespace IdMap

variable {α β : Type}

/-- Reads the first entry under `k`. -/
def find (k : Nat) : List (Nat × α) → Option α
  | [] => none
  | (j, v) :: rest => if k = j then some v else find k rest

/-- Puts `v` under `k` in an increasing list, in place of an older entry. -/
def put (k : Nat) (v : α) : List (Nat × α) → List (Nat × α)
  | [] => [(k, v)]
  | (j, w) :: rest =>
    if k < j then (k, v) :: (j, w) :: rest
    else if k = j then (k, v) :: rest
    else (j, w) :: put k v rest

theorem mem_keys_put {k z : Nat} {v : α} {l : List (Nat × α)} :
    z ∈ (put k v l).map Prod.fst ↔ z = k ∨ z ∈ l.map Prod.fst := by
  induction l with
  | nil => simp [put]
  | cons e rest ih =>
    obtain ⟨j, w⟩ := e
    unfold put
    split
    · simp
    · split
      next h => simp [h]
      next =>
        simp only [List.map_cons, List.mem_cons, ih, or_left_comm]

theorem increasing_put {k : Nat} {v : α} {l : List (Nat × α)}
    (hl : (l.map Prod.fst).Pairwise (· < ·)) : ((put k v l).map Prod.fst).Pairwise (· < ·) := by
  induction l with
  | nil => simp [put]
  | cons e rest ih =>
    obtain ⟨j, w⟩ := e
    have hj := List.pairwise_cons.mp hl
    unfold put
    split
    next h =>
      refine List.pairwise_cons.mpr ⟨fun z hz => ?_, hl⟩
      rcases List.mem_cons.mp hz with rfl | hz
      · exact h
      · exact Nat.lt_trans h (hj.1 z hz)
    next h =>
      split
      next hk =>
        subst hk
        exact List.pairwise_cons.mpr hj
      next hne =>
        refine List.pairwise_cons.mpr ⟨fun z hz => ?_, ih hj.2⟩
        rcases mem_keys_put.mp hz with rfl | hz
        · simp only
          omega
        · exact hj.1 z hz

def empty : IdMap α := ⟨[], .nil⟩

instance : EmptyCollection (IdMap α) := ⟨empty⟩

instance : Inhabited (IdMap α) := ⟨empty⟩

def get? (m : IdMap α) (k : Nat) : Option α := find k m.entries

def insert (m : IdMap α) (k : Nat) (v : α) : IdMap α :=
  ⟨put k v m.entries, increasing_put m.increasing⟩

def erase (m : IdMap α) (k : Nat) : IdMap α :=
  ⟨m.entries.filter (·.1 ≠ k), m.increasing.sublist (List.filter_sublist.map _)⟩

def contains (m : IdMap α) (k : Nat) : Bool := (m.get? k).isSome

def keys (m : IdMap α) : List Nat := m.entries.map Prod.fst

def values (m : IdMap α) : List α := m.entries.map Prod.snd

def size (m : IdMap α) : Nat := m.entries.length

def isEmpty (m : IdMap α) : Bool := m.entries.isEmpty

/-- Changes what stands under `k`, and the map only if something stands there. -/
def modify (m : IdMap α) (k : Nat) (f : α → α) : IdMap α :=
  match m.get? k with
  | some v => m.insert k (f v)
  | none => m

theorem find_eq_none {k : Nat} {l : List (Nat × α)} (h : ∀ z ∈ l.map Prod.fst, k < z) :
    find k l = none := by
  induction l with
  | nil => rfl
  | cons e rest ih =>
    have hk : k < e.1 := h e.1 (by simp)
    simp only [find, Nat.ne_of_lt hk, if_false]
    exact ih fun z hz => h z (List.mem_cons_of_mem _ hz)

theorem find_isSome {k : Nat} {l : List (Nat × α)} :
    (find k l).isSome = true ↔ k ∈ l.map Prod.fst := by
  induction l with
  | nil => simp [find]
  | cons e rest ih =>
    by_cases h : k = e.1
    · simp [find, h]
    · simp [find, h, ih]

theorem find_put {k j : Nat} {v : α} {l : List (Nat × α)} :
    find j (put k v l) = if j = k then some v else find j l := by
  induction l with
  | nil => simp [put, find]
  | cons e rest ih =>
    obtain ⟨i, w⟩ := e
    unfold put
    split
    · simp [find]
    · split
      next h =>
        subst h
        by_cases hj : j = k <;> simp [find, hj]
      next hk =>
        simp only [find, ih]
        by_cases hi : j = i
        · subst hi
          simp [Ne.symm hk]
        · simp [hi]

theorem find_filter {k j : Nat} {l : List (Nat × α)} :
    find j (l.filter (·.1 ≠ k)) = if j = k then none else find j l := by
  induction l with
  | nil => simp [find]
  | cons e rest ih =>
    obtain ⟨i, w⟩ := e
    by_cases hi : i = k
    · subst hi
      rw [List.filter_cons_of_neg (by simp), ih]
      by_cases hj : j = i <;> simp [find, hj]
    · rw [List.filter_cons_of_pos (by simp [hi])]
      simp only [find, ih]
      by_cases hj : j = i
      · subst hj
        simp [hi]
      · simp [hj]

@[simp] theorem get?_empty {k : Nat} : (∅ : IdMap α).get? k = none := rfl

theorem get?_insert {m : IdMap α} {k j : Nat} {v : α} :
    (m.insert k v).get? j = if j = k then some v else m.get? j := find_put

@[simp] theorem get?_insert_self {m : IdMap α} {k : Nat} {v : α} :
    (m.insert k v).get? k = some v := by
  simp [get?_insert]

theorem get?_erase {m : IdMap α} {k j : Nat} :
    (m.erase k).get? j = if j = k then none else m.get? j := find_filter

@[simp] theorem get?_erase_self {m : IdMap α} {k : Nat} : (m.erase k).get? k = none := by
  simp [get?_erase]

theorem get?_modify {m : IdMap α} {k j : Nat} {f : α → α} :
    (m.modify k f).get? j = if j = k then (m.get? k).map f else m.get? j := by
  unfold modify
  split
  next v h => simp [get?_insert, h]
  next h =>
    by_cases hj : j = k
    · simp [hj, h]
    · simp [hj]

theorem mem_keys {m : IdMap α} {k : Nat} : k ∈ m.keys ↔ (m.get? k).isSome = true :=
  find_isSome.symm

theorem nodup_keys (m : IdMap α) : m.keys.Nodup := m.increasing.imp fun hlt => Nat.ne_of_lt hlt

@[simp] theorem contains_eq {m : IdMap α} {k : Nat} : m.contains k = (m.get? k).isSome := rfl

theorem mem_entries {m : IdMap α} {k : Nat} {v : α} : (k, v) ∈ m.entries ↔ m.get? k = some v := by
  obtain ⟨l, hl⟩ := m
  show (k, v) ∈ l ↔ find k l = some v
  induction l with
  | nil => simp [find]
  | cons e rest ih =>
    obtain ⟨j, w⟩ := e
    have hj := List.pairwise_cons.mp hl
    by_cases h : k = j
    · subst h
      have hno : ¬(k, v) ∈ rest := fun hm =>
        absurd (hj.1 k (List.mem_map_of_mem hm)) (Nat.lt_irrefl _)
      simp [find, hno, eq_comm]
    · simp [find, h, ih hj.2]

theorem mem_values {m : IdMap α} {v : α} : v ∈ m.values ↔ ∃ k, m.get? k = some v := by
  simp only [values, List.mem_map, Prod.exists, exists_eq_right, mem_entries]

theorem get?_foldl_erase {m : IdMap α} {ks : List Nat} {k : Nat} :
    (ks.foldl erase m).get? k = if k ∈ ks then none else m.get? k := by
  induction ks generalizing m with
  | nil => simp
  | cons j ks ih =>
    rw [List.foldl_cons, ih, get?_erase]
    by_cases h : k = j <;> by_cases hk : k ∈ ks <;> simp [h, hk]

theorem isEmpty_iff {m : IdMap α} : m.isEmpty = true ↔ ∀ k, m.get? k = none := by
  have hkeys : m.isEmpty = true ↔ ∀ k, ¬k ∈ m.keys := by
    simp [isEmpty, keys, List.isEmpty_iff, List.eq_nil_iff_forall_not_mem]
  rw [hkeys]
  simp [mem_keys]

@[ext] theorem ext {m n : IdMap α} (h : ∀ k, m.get? k = n.get? k) : m = n := by
  obtain ⟨a, ha⟩ := m
  obtain ⟨b, hb⟩ := n
  have h' : ∀ k, find k a = find k b := h
  suffices a = b by subst this; rfl
  clear h
  induction a generalizing b with
  | nil =>
    cases b with
    | nil => rfl
    | cons e b => simpa [find] using h' e.1
  | cons d a ih =>
    cases b with
    | nil => simpa [find] using h' d.1
    | cons e b =>
      have hd := List.pairwise_cons.mp ha
      have he := List.pairwise_cons.mp hb
      have hkey : d.1 = e.1 := by
        rcases Nat.lt_trichotomy d.1 e.1 with hlt | heq | hlt
        · have hn : find d.1 (e :: b) = none := find_eq_none fun z hz => by
            rcases List.mem_cons.mp hz with rfl | hz
            · exact hlt
            · exact Nat.lt_trans hlt (he.1 z hz)
          exact absurd ((h' d.1).trans hn) (by simp [find])
        · exact heq
        · have hn : find e.1 (d :: a) = none := find_eq_none fun z hz => by
            rcases List.mem_cons.mp hz with rfl | hz
            · exact hlt
            · exact Nat.lt_trans hlt (hd.1 z hz)
          exact absurd ((h' e.1).symm.trans hn) (by simp [find])
      have hvalue : d.2 = e.2 := by simpa [find, hkey] using h' e.1
      have hentry : d = e := Prod.ext hkey hvalue
      subst hentry
      congr 1
      refine ih hd.2 b he.2 fun k => ?_
      by_cases hk : k = d.1
      · subst hk
        rw [find_eq_none hd.1, find_eq_none he.1]
      · simpa [find, hk] using h' k

end IdMap

end LockingDb
