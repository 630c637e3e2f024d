import LockingDb.JsonFields
import LockingDb.Proofs.TextRoundTrip

namespace LockingDb

namespace JsonTree

open NumberText (Ends)

variable {t : JsonTree} {c : Char} {cs rest : List Char} {room : Nat}

mutual

/-- The trees that a reader can find in a text. -/
def WellFormed : JsonTree → Prop
  | null | bool _ => True
  | number text => text.WellFormed
  | string pieces => ∀ p ∈ pieces, p.WellFormed
  | array items => ItemsWellFormed items
  | object fields => FieldsWellFormed fields

def ItemsWellFormed : List JsonTree → Prop
  | [] => True
  | item :: items => item.WellFormed ∧ ItemsWellFormed items

def FieldsWellFormed : List (List TextPiece × JsonTree) → Prop
  | [] => True
  | (key, tree) :: fields =>
    (∀ p ∈ key, p.WellFormed) ∧ tree.WellFormed ∧ FieldsWellFormed fields

end

theorem skipBlanks_cons (h : isBlank c = false) : skipBlanks (c :: cs) = c :: cs := by
  simp [skipBlanks, h]

/-- The first character of a number. -/
theorem number_head {text : NumberText} (h : text.WellFormed) :
    ∃ c cs, text.render = c :: cs ∧ (c = '-' ∨ ∃ d : Digit, c = d.char) := by
  rw [NumberText.render_eq]
  cases text.negative with
  | true => exact ⟨'-', _, rfl, .inl rfl⟩
  | false =>
    have hwhole := h.whole
    cases hds : text.whole with
    | nil =>
      rw [hds] at hwhole
      cases hwhole
    | cons d ds => exact ⟨d.char, _, rfl, .inr ⟨d, rfl⟩⟩

theorem not_isBlank (hc : c = '-' ∨ ∃ d : Digit, c = d.char) : isBlank c = false := by
  rcases hc with rfl | ⟨d, rfl⟩
  · rfl
  · revert d
    decide

/-- Neither a blank nor a closing bracket stands where a tree begins. -/
theorem render_head (h : t.WellFormed) :
    ∃ c cs, t.render = c :: cs ∧ isBlank c = false ∧ c ≠ ']' := by
  match t, h with
  | null, _ => exact ⟨_, _, rfl, rfl, by decide⟩
  | bool true, _ => exact ⟨_, _, rfl, rfl, by decide⟩
  | bool false, _ => exact ⟨_, _, rfl, rfl, by decide⟩
  | number text, h =>
    obtain ⟨c, cs, hrender, hc⟩ := number_head h
    have hbracket : c ≠ ']' := by
      clear hrender
      rcases hc with rfl | ⟨d, rfl⟩
      · decide
      · revert d
        decide
    exact ⟨c, cs, hrender, not_isBlank hc, hbracket⟩
  | string pieces, _ => exact ⟨_, _, rfl, rfl, by decide⟩
  | array [], _ => exact ⟨_, _, rfl, rfl, by decide⟩
  | array (_ :: _), _ => exact ⟨_, _, rfl, rfl, by decide⟩
  | object [], _ => exact ⟨_, _, rfl, rfl, by decide⟩
  | object (_ :: _), _ => exact ⟨_, _, rfl, rfl, by decide⟩

/-- A text that begins like a number is read as one. -/
theorem readTree_number (hc : c = '-' ∨ ∃ d : Digit, c = d.char) :
    readTree (room + 1) (c :: cs) = (do
      let (text, rest) ← NumberText.read (c :: cs)
      some (number text, rest)) := by
  have hother : c ≠ 'n' ∧ c ≠ 't' ∧ c ≠ 'f' ∧ c ≠ '"' ∧ c ≠ '[' ∧ c ≠ '\x7b' := by
    rcases hc with rfl | ⟨d, rfl⟩
    · decide
    · revert d
      decide
  obtain ⟨hn, ht, hf, hquote, hbracket, hbrace⟩ := hother
  rw [readTree, skipBlanks_cons (not_isBlank hc)]
  split
  next heq => exact absurd (List.cons.inj heq).1 hn
  next heq => exact absurd (List.cons.inj heq).1 ht
  next heq => exact absurd (List.cons.inj heq).1 hf
  next heq => exact absurd (List.cons.inj heq).1 hquote
  next heq => exact absurd (List.cons.inj heq).1 hbracket
  next heq => exact absurd (List.cons.inj heq).1 hbrace
  next => rfl

theorem readTree_string {pieces : List TextPiece} (h : ∀ p ∈ pieces, p.WellFormed) :
    readTree (room + 1) (renderString pieces ++ rest) = some (string pieces, rest) := by
  have htext : renderString pieces ++ rest =
      '"' :: (pieces.flatMap TextPiece.render ++ '"' :: rest) := by
    simp only [renderString, List.cons_append, List.append_assoc, List.nil_append]
  rw [htext, readTree, skipBlanks_cons (by decide)]
  show (TextPiece.readAll (pieces.flatMap TextPiece.render ++ '"' :: rest)).bind _ = _
  rw [TextPiece.readAll_render h]
  rfl

/-- Items up to their closing bracket are read as an array. -/
theorem readTree_array {items : List JsonTree} (h : ∃ c cs', cs = c :: cs' ∧
    isBlank c = false ∧ c ≠ ']') (hread : readItems room cs = some (items, rest)) :
    readTree (room + 1) ('[' :: cs) = some (array items, rest) := by
  obtain ⟨c, cs', rfl, hblank, hbracket⟩ := h
  rw [readTree, skipBlanks_cons (by decide)]
  simp only [skipBlanks_cons hblank]
  split
  next heq => exact absurd (List.cons.inj heq).1 hbracket
  next => rw [hread]; rfl

/-- Fields up to their closing brace are read as an object. -/
theorem readTree_object {fields : List (List TextPiece × JsonTree)} {cs' : List Char}
    (h : cs = '"' :: cs') (hread : readFields room cs = some (fields, rest)) :
    readTree (room + 1) ('\x7b' :: cs) = some (object fields, rest) := by
  subst h
  rw [readTree, skipBlanks_cons (by decide)]
  show (readFields room ('"' :: cs')).bind _ = _
  rw [hread]
  rfl

theorem ends_renderItems (items : List JsonTree) : Ends (renderItems items ++ rest) := by
  cases items with
  | nil => exact Ends.cons (.inr (.inl rfl))
  | cons item items => exact Ends.cons (.inl rfl)

theorem ends_renderFields (fields : List (List TextPiece × JsonTree)) :
    Ends (renderFields fields ++ rest) := by
  cases fields with
  | nil => exact Ends.cons (.inr (.inr rfl))
  | cons field fields => exact Ends.cons (.inl rfl)

/-- The first item is read by itself and the others after the comma that follows it. -/
theorem readItems_cons {item : JsonTree} {items : List JsonTree}
    (hitem : ∀ rest, Ends rest → readTree room (item.render ++ rest) = some (item, rest))
    (hitems : items ≠ [] → readItems room ((renderItems items).tail ++ rest) = some (items, rest)) :
    readItems (room + 1) (item.render ++ (renderItems items ++ rest)) =
      some (item :: items, rest) := by
  rw [readItems, hitem _ (ends_renderItems items)]
  cases items with
  | nil => rfl
  | cons next items =>
    show (readItems room ((renderItems (next :: items)).tail ++ rest)).bind _ = _
    rw [hitems (List.cons_ne_nil _ _)]
    rfl

/-- The first field is read by itself and the others after the comma that follows it. -/
theorem readFields_cons {key : List TextPiece} {tree : JsonTree}
    {fields : List (List TextPiece × JsonTree)} (hkey : ∀ p ∈ key, p.WellFormed)
    (htree : ∀ rest, Ends rest → readTree room (tree.render ++ rest) = some (tree, rest))
    (hfields : fields ≠ [] →
      readFields room ((renderFields fields).tail ++ rest) = some (fields, rest)) :
    readFields (room + 1)
        (renderString key ++ ':' :: (tree.render ++ (renderFields fields ++ rest))) =
      some ((key, tree) :: fields, rest) := by
  have htext (tail : List Char) : renderString key ++ tail =
      '"' :: (key.flatMap TextPiece.render ++ '"' :: tail) := by
    simp only [renderString, List.cons_append, List.append_assoc, List.nil_append]
  rw [htext, readFields, skipBlanks_cons (by decide)]
  show (TextPiece.readAll (key.flatMap TextPiece.render ++
    '"' :: ':' :: (tree.render ++ (renderFields fields ++ rest)))).bind _ = _
  rw [TextPiece.readAll_render hkey]
  show (readTree room (tree.render ++ (renderFields fields ++ rest))).bind _ = _
  rw [htree _ (ends_renderFields fields)]
  cases fields with
  | nil => rfl
  | cons field fields =>
    show (readFields room ((renderFields (field :: fields)).tail ++ rest)).bind _ = _
    rw [hfields (List.cons_ne_nil _ _)]
    rfl

theorem length_render_pos (h : t.WellFormed) : 0 < t.render.length := by
  obtain ⟨c, cs, hrender, -⟩ := render_head h
  rw [hrender]
  exact Nat.succ_pos _

mutual

/-- A written tree is read back, where nothing follows that could continue it. -/
theorem readTree_render : ∀ (t : JsonTree) {room : Nat} {rest : List Char}, t.WellFormed →
    Ends rest → t.render.length ≤ room → readTree room (t.render ++ rest) = some (t, rest)
  | t, 0, _, h, _, hroom => absurd (length_render_pos h) (by omega)
  | null, _ + 1, _, _, _, _ => rfl
  | bool true, _ + 1, _, _, _, _ => rfl
  | bool false, _ + 1, _, _, _, _ => rfl
  | number text, room + 1, rest, h, hends, _ => by
    have hread := NumberText.read_render h hends
    obtain ⟨c, cs, hrender, hc⟩ := number_head h
    rw [hrender] at hread
    rw [render, hrender, List.cons_append, readTree_number hc, ← List.cons_append, hread]
    rfl
  | string pieces, room + 1, rest, h, _, _ => readTree_string h
  | array [], _ + 1, _, _, _, _ => rfl
  | array (item :: items), room + 1, rest, h, _, hroom => by
    have hread := readItems_render (item :: items) room h (List.cons_ne_nil _ _) rest
      (by simp only [render, renderItems, List.length_cons] at hroom ⊢; omega)
    obtain ⟨c, cs, hrender, hhead⟩ := render_head h.1
    have htext : item.render ++ renderItems items ++ rest =
        c :: (cs ++ renderItems items ++ rest) := by rw [hrender]; rfl
    exact readTree_array ⟨c, _, htext, hhead⟩ hread
  | object [], _ + 1, _, _, _, _ => rfl
  | object ((key, tree) :: fields), room + 1, rest, h, _, hroom => by
    have hread := readFields_render ((key, tree) :: fields) room h (List.cons_ne_nil _ _) rest
      (by simp only [render, renderFields, List.length_cons] at hroom ⊢; omega)
    exact readTree_object rfl hread

theorem readItems_render : ∀ (ts : List JsonTree) (room : Nat), ItemsWellFormed ts → ts ≠ [] →
    ∀ rest, (renderItems ts).length ≤ room + 1 →
      readItems room ((renderItems ts).tail ++ rest) = some (ts, rest)
  | [], _, _, hne, _, _ => absurd rfl hne
  | item :: items, room, h, _, rest, hroom => by
    have hpos := length_render_pos h.1
    have hlast : 0 < (renderItems items).length := by cases items <;> exact Nat.succ_pos _
    simp only [renderItems, List.length_cons, List.length_append] at hroom
    obtain ⟨room, rfl⟩ : ∃ less, room = less + 1 := ⟨room - 1, by omega⟩
    rw [renderItems, List.tail_cons, List.append_assoc]
    exact readItems_cons
      (fun rest hends => readTree_render item h.1 hends (by omega))
      (fun hne => readItems_render items room h.2 hne rest (by omega))

theorem readFields_render : ∀ (fs : List (List TextPiece × JsonTree)) (room : Nat),
    FieldsWellFormed fs → fs ≠ [] → ∀ rest, (renderFields fs).length ≤ room + 1 →
      readFields room ((renderFields fs).tail ++ rest) = some (fs, rest)
  | [], _, _, hne, _, _ => absurd rfl hne
  | (key, tree) :: fields, room, h, _, rest, hroom => by
    have hpos := length_render_pos h.2.1
    have hlast : 0 < (renderFields fields).length := by
      cases fields <;> exact Nat.succ_pos _
    simp only [renderFields, List.length_cons, List.length_append] at hroom
    obtain ⟨room, rfl⟩ : ∃ less, room = less + 1 := ⟨room - 1, by omega⟩
    rw [renderFields, List.tail_cons, List.append_assoc, List.cons_append, List.append_assoc]
    exact readFields_cons h.1
      (fun rest hends => readTree_render tree h.2.1 hends (by omega))
      (fun hne => readFields_render fields room h.2.2 hne rest (by omega))

end

/-- Every tree is read back from its text. -/
theorem parse?_render (h : t.WellFormed) : parse? t.render = some t := by
  have hread : readTree (2 * t.render.length + 2) (t.render ++ []) = some (t, []) :=
    readTree_render t h Ends.nil (by omega)
  rw [List.append_nil] at hread
  unfold parse?
  rw [hread]
  rfl

/-- No control character stands in a written string. -/
theorem le_of_mem_renderString {pieces : List TextPiece} (h : ∀ p ∈ pieces, p.WellFormed)
    (hc : c ∈ renderString pieces) : 32 ≤ c.toNat := by
  simp only [renderString, List.mem_cons, List.mem_append, List.mem_flatMap, List.not_mem_nil,
    or_false] at hc
  rcases hc with rfl | ⟨p, hp, hc⟩ | rfl
  · decide
  · exact TextPiece.le_of_mem_render (h p hp) hc
  · decide

theorem le_of_all (h : cs.all (32 ≤ ·.toNat) = true) : ∀ c ∈ cs, 32 ≤ c.toNat := fun c hc =>
  of_decide_eq_true (List.all_eq_true.mp h c hc)

mutual

/-- No control character stands in a written tree. -/
theorem le_of_mem_render : ∀ (t : JsonTree), t.WellFormed → ∀ c ∈ t.render, 32 ≤ c.toNat
  | null, _ => le_of_all (by decide)
  | bool true, _ => le_of_all (by decide)
  | bool false, _ => le_of_all (by decide)
  | number text, _ => fun _ hc => NumberText.le_of_mem_render hc
  | string pieces, h => fun _ hc => le_of_mem_renderString h hc
  | array [], _ => le_of_all (by decide)
  | array (item :: items), h => by
    intro c hc
    rcases List.mem_cons.mp hc with rfl | hc
    · decide
    · rcases List.mem_append.mp hc with hc | hc
      · exact le_of_mem_render item h.1 c hc
      · exact le_of_mem_renderItems items h.2 c hc
  | object [], _ => le_of_all (by decide)
  | object ((key, tree) :: fields), h => by
    intro c hc
    rcases List.mem_cons.mp hc with rfl | hc
    · decide
    · exact le_of_mem_renderFields ((key, tree) :: fields) h c (List.mem_cons_of_mem _ hc)

theorem le_of_mem_renderItems : ∀ (ts : List JsonTree), ItemsWellFormed ts →
    ∀ c ∈ renderItems ts, 32 ≤ c.toNat
  | [], _ => le_of_all (by decide)
  | item :: items, h => by
    intro c hc
    rcases List.mem_cons.mp hc with rfl | hc
    · decide
    · rcases List.mem_append.mp hc with hc | hc
      · exact le_of_mem_render item h.1 c hc
      · exact le_of_mem_renderItems items h.2 c hc

theorem le_of_mem_renderFields : ∀ (fs : List (List TextPiece × JsonTree)), FieldsWellFormed fs →
    ∀ c ∈ renderFields fs, 32 ≤ c.toNat
  | [], _ => le_of_all (by decide)
  | (key, tree) :: fields, h => by
    intro c hc
    rcases List.mem_cons.mp hc with rfl | hc
    · decide
    · rcases List.mem_append.mp hc with hc | hc
      · exact le_of_mem_renderString h.1 hc
      · rcases List.mem_cons.mp hc with rfl | hc
        · decide
        · rcases List.mem_append.mp hc with hc | hc
          · exact le_of_mem_render tree h.2.1 c hc
          · exact le_of_mem_renderFields fields h.2.2 c hc

end

section Fields

variable {text name : String} {fields : List (String × JsonTree)}

theorem textOf?_map_ofChar (text : String) :
    textOf? (text.toList.map TextPiece.ofChar) = some text := by
  rw [textOf?, TextPiece.meaning?_map_ofChar, Option.map_some, String.ofList_toList]

theorem string?_ofString (text : String) : (ofString text).string? = some text :=
  textOf?_map_ofChar text

theorem pieces_wellFormed (text : String) :
    ∀ p ∈ text.toList.map TextPiece.ofChar, p.WellFormed := by
  intro p hp
  obtain ⟨c, -, rfl⟩ := List.mem_map.mp hp
  exact TextPiece.ofChar_wellFormed c

theorem ofString_wellFormed (text : String) : (ofString text).WellFormed := pieces_wellFormed text

theorem ofInt_wellFormed (n : Int) : (ofInt n).WellFormed := NumberText.ofInt_wellFormed n

theorem array_wellFormed {items : List JsonTree} (h : ∀ t ∈ items, t.WellFormed) :
    (array items).WellFormed := by
  induction items with
  | nil => trivial
  | cons item items ih =>
    exact ⟨h item List.mem_cons_self, ih fun t ht => h t (List.mem_cons_of_mem _ ht)⟩

theorem record_wellFormed (h : ∀ f ∈ fields, f.2.WellFormed) : (record fields).WellFormed := by
  induction fields with
  | nil => trivial
  | cons field fields ih =>
    exact ⟨pieces_wellFormed field.1, h field List.mem_cons_self,
      ih fun f hf => h f (List.mem_cons_of_mem _ hf)⟩

theorem variant?_ofString (name : String) : (ofString name).variant? = some (name, none) := by
  rw [ofString, variant?, textOf?_map_ofChar, Option.map_some]

theorem variant?_record (name : String) (tree : JsonTree) :
    (record [(name, tree)]).variant? = some (name, some tree) := by
  rw [record, List.map_singleton, variant?, textOf?_map_ofChar, Option.map_some]

theorem int?_ofInt {low high n : Int} (hlow : low ≤ n) (hhigh : n < high) :
    (ofInt n).int? low high = some n := by
  simp only [ofInt, int?, NumberText.int?_ofInt, Option.bind_eq_bind, Option.bind_some,
    hlow, hhigh, and_self, if_true]

theorem nat?_ofNat {limit n : Nat} (h : n < limit) : (ofNat n).nat? limit = some n := by
  rw [ofNat, nat?, int?_ofInt (Int.natCast_nonneg n) (Int.ofNat_lt.mpr h)]
  rfl

/-- A reader that reads each item of a list reads the list. -/
theorem mapM_eq_some {α β : Type} {read : α → Option β} {answer : α → β} {xs : List α}
    (h : ∀ x ∈ xs, read x = some (answer x)) : xs.mapM read = some (xs.map answer) := by
  induction xs with
  | nil => rfl
  | cons x xs ih =>
    rw [List.mapM_cons, h x List.mem_cons_self, ih fun y hy => h y (List.mem_cons_of_mem _ hy)]
    rfl

theorem list?_map {α : Type} {item? : JsonTree → Option α} {toTree : α → JsonTree} {xs : List α}
    (h : ∀ x ∈ xs, item? (toTree x) = some x) :
    (array (xs.map toTree)).list? item? = some xs := by
  show (xs.map toTree).mapM item? = some xs
  have hread : xs.mapM (item? ∘ toTree) = some (xs.map id) := mapM_eq_some h
  rw [List.mapM_map, hread, List.map_id]

/-- The name of a field stands once, so its tree is found. -/
theorem field?_of_mem (hnames : (fields.map Prod.fst).Nodup) {field : String × JsonTree}
    (h : field ∈ fields) : field? fields field.1 = some (some field.2) := by
  have hfilter : fields.filter (·.1 = field.1) = [field] := by
    induction fields with
    | nil => cases h
    | cons first fields ih =>
      obtain ⟨hfirst, hnames⟩ := List.nodup_cons.mp hnames
      rcases List.mem_cons.mp h with rfl | h
      · have hothers : fields.filter (·.1 = field.1) = [] := by
          refine List.filter_eq_nil_iff.mpr fun other hother hsame => hfirst ?_
          rw [← of_decide_eq_true hsame]
          exact List.mem_map_of_mem hother
        rw [List.filter_cons_of_pos (by simp), hothers]
      · have hne : ¬first.1 = field.1 := by
          intro hsame
          rw [hsame] at hfirst
          exact hfirst (List.mem_map_of_mem h)
        rw [List.filter_cons_of_neg (by simpa using hne), ih hnames h]
  rw [field?, hfilter]

/-- The fields of a record are read back in their order. -/
theorem record?_record (fields : List (String × JsonTree)) (hnames : (fields.map Prod.fst).Nodup) :
    (record fields).record? (fields.map Prod.fst) false = some (fields.map fun f => some f.2) := by
  have hfields : (fields.map fun f => (f.1.toList.map TextPiece.ofChar, f.2)).mapM
      (fun f => (textOf? f.1).map (·, f.2)) = some fields := by
    have hread : fields.mapM (fun f => (textOf? (f.1.toList.map TextPiece.ofChar)).map (·, f.2)) =
        some (fields.map id) :=
      mapM_eq_some fun f _ => by rw [textOf?_map_ofChar]; rfl
    rw [List.map_id] at hread
    rw [List.mapM_map]
    exact hread
  show ((fields.map fun f => (f.1.toList.map TextPiece.ofChar, f.2)).mapM
    (fun f => (textOf? f.1).map (·, f.2))).bind _ = _
  rw [hfields]
  show (fields.map Prod.fst).mapM (field? fields) = _
  rw [List.mapM_map]
  exact mapM_eq_some fun f hf => field?_of_mem hnames hf

end Fields

end JsonTree

end LockingDb
