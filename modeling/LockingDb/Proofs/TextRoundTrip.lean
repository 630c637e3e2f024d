import LockingDb.JsonTree

namespace LockingDb

namespace TextPiece

variable {p : TextPiece} {ps : List TextPiece} {c : Char} {n : Nat}

/-- The pieces that a reader can find in a string. -/
def WellFormed : TextPiece → Prop
  | plain c => c ≠ '"' ∧ c ≠ '\\' ∧ 32 ≤ c.toNat
  | short c => (shortMeaning? c).isSome
  | unit n => n < 65536

/-- The number of a hexadecimal digit is read back. -/
theorem hexDigit?_hexChar (h : n < 16) : hexDigit? (hexChar n) = some n := by
  have hall : ∀ d : Fin 16, hexDigit? (hexChar d) = some d.val := by decide
  exact hall ⟨n, h⟩

theorem hexUnit?_hexChars (h : n < 65536) :
    hexUnit? (hexChar (n / 4096 % 16)) (hexChar (n / 256 % 16)) (hexChar (n / 16 % 16))
      (hexChar (n % 16)) = some n := by
  have hdigit (m : Nat) : hexDigit? (hexChar (m % 16)) = some (m % 16) :=
    hexDigit?_hexChar (Nat.mod_lt m (by decide))
  have hsum : 4096 * (n / 4096 % 16) + 256 * (n / 256 % 16) + 16 * (n / 16 % 16) + n % 16 = n := by
    omega
  simp only [hexUnit?, hdigit, Option.bind_eq_bind, Option.bind_some, hsum]

/-- A hexadecimal digit is no control character. -/
theorem le_hexChar (h : n < 16) : 32 ≤ (hexChar n).toNat := by
  have hall : ∀ d : Fin 16, 32 ≤ (hexChar d).toNat := by decide
  exact hall ⟨n, h⟩

/-- A character that has a meaning after a backslash begins no code unit and is no control
character. -/
theorem of_shortMeaning? (h : (shortMeaning? c).isSome) : c ≠ 'u' ∧ 32 ≤ c.toNat := by
  unfold shortMeaning? at h
  split at h
  all_goals first | decide | cases h

theorem readAll_short (h : c ≠ 'u') {rest : List Char} :
    readAll ('\\' :: c :: rest) = (do
      let _ ← shortMeaning? c
      let (pieces, rest) ← readAll rest
      some (short c :: pieces, rest)) := by
  rw [readAll]
  intro a b c' d rest' heq
  exact absurd heq h

theorem readAll_plain (hquote : c ≠ '"') (hbackslash : c ≠ '\\') {rest : List Char} :
    readAll (c :: rest) = (do
      if c.toNat < 32 then none
      let (pieces, rest) ← readAll rest
      some (plain c :: pieces, rest)) := by
  rw [readAll]
  · exact hquote
  · intro a b c' d rest' heq
    exact absurd heq hbackslash
  · intro a rest' heq
    exact absurd heq hbackslash

/-- The pieces of a string are read back up to the quote that closes it. -/
theorem readAll_render {rest : List Char} (h : ∀ p ∈ ps, p.WellFormed) :
    readAll (ps.flatMap render ++ '"' :: rest) = some (ps, rest) := by
  induction ps with
  | nil => rfl
  | cons p ps ih =>
    have hp : p.WellFormed := h p List.mem_cons_self
    have hrest := ih fun q hq => h q (List.mem_cons_of_mem _ hq)
    rw [List.flatMap_cons, List.append_assoc]
    cases p with
    | plain c =>
      obtain ⟨hquote, hbackslash, hle⟩ := hp
      show readAll (c :: (ps.flatMap render ++ '"' :: rest)) = _
      rw [readAll_plain hquote hbackslash, hrest, if_neg (by omega)]
      rfl
    | short c =>
      obtain ⟨meaning, hmeaning⟩ := Option.isSome_iff_exists.mp hp
      show readAll ('\\' :: c :: (ps.flatMap render ++ '"' :: rest)) = _
      rw [readAll_short (of_shortMeaning? hp).1, hrest, hmeaning]
      rfl
    | unit n =>
      simp only [render, List.cons_append, List.nil_append, readAll, hexUnit?_hexChars hp, hrest,
        Option.bind_eq_bind, Option.bind_some]

/-- No control character stands in a written piece. -/
theorem le_of_mem_render (h : p.WellFormed) (hc : c ∈ p.render) : 32 ≤ c.toNat := by
  cases p with
  | plain c' =>
    rw [List.mem_singleton.mp hc]
    exact h.2.2
  | short c' =>
    rcases List.mem_cons.mp hc with rfl | hc
    · decide
    · rw [List.mem_singleton.mp hc]
      exact (of_shortMeaning? h).2
  | unit n =>
    simp only [render, List.mem_cons, List.not_mem_nil, or_false] at hc
    rcases hc with rfl | rfl | rfl | rfl | rfl | rfl
    · decide
    · decide
    all_goals exact le_hexChar (Nat.mod_lt _ (by decide))

theorem ofChar_wellFormed (c : Char) : (ofChar c).WellFormed := by
  unfold ofChar
  split
  case h_8 hquote hbackslash _ _ _ _ _ =>
    split
    next hlow => exact Nat.lt_trans hlow (by decide)
    next hhigh => exact ⟨hquote, hbackslash, Nat.le_of_not_lt hhigh⟩
  all_goals exact rfl

/-- A code unit below the surrogates stands for its character, whatever follows. -/
theorem meaning?_unit (h : n < 0xD800) :
    meaning? (unit n :: ps) = (meaning? ps).map (Char.ofNat n :: ·) := by
  have hhigh : isHighSurrogate n = false := by
    simp only [isHighSurrogate, Bool.and_eq_false_iff, decide_eq_false_iff_not]
    omega
  have hlow : isLowSurrogate n = false := by
    simp only [isLowSurrogate, Bool.and_eq_false_iff, decide_eq_false_iff_not]
    omega
  cases ps with
  | nil => simp [meaning?, hhigh, hlow]
  | cons p ps => cases p <;> simp [meaning?, hhigh, hlow]

/-- A piece of a character stands for the character. -/
theorem meaning?_ofChar_cons (c : Char) :
    meaning? (ofChar c :: ps) = (meaning? ps).map (c :: ·) := by
  unfold ofChar
  split
  case h_8 =>
    split
    next hlow => rw [meaning?_unit (Nat.lt_trans hlow (by decide)), Char.ofNat_toNat]
    next => rw [meaning?]
  all_goals rfl

/-- Every text is read back from its escaped form. -/
theorem meaning?_map_ofChar (cs : List Char) : meaning? (cs.map ofChar) = some cs := by
  induction cs with
  | nil => rfl
  | cons c cs ih => rw [List.map_cons, meaning?_ofChar_cons, ih, Option.map_some]

end TextPiece

namespace Digit

theorem char_toNat (d : Digit) : d.char.toNat = 48 + d.val := by
  revert d
  decide

end Digit

namespace NumberText

variable {t : NumberText} {rest : List Char}

/-- The numbers that a reader can find in a text. -/
structure WellFormed (t : NumberText) : Prop where
  whole : wholeOk t.whole = true
  exponent : ∀ e ∈ t.exponent, e.2 ≠ []

/-- A text that continues no number. -/
def Ends (rest : List Char) : Prop :=
  ∀ c ∈ rest.head?, Digit.ofChar? c = none ∧ c ≠ '.' ∧ c ≠ 'e' ∧ c ≠ 'E'

theorem Ends.nil : Ends [] := by
  intro c hc
  cases hc

/-- A comma or a bracket ends a number. -/
theorem Ends.cons {c : Char} (h : c = ',' ∨ c = ']' ∨ c = '\x7d') : Ends (c :: rest) := by
  intro c' hc'
  have heq : c = c' := Option.some.inj hc'
  subst heq
  rcases h with rfl | rfl | rfl
  all_goals decide

variable {whole fraction : List Digit} {exponent : Option (Bool × List Digit)}

/-- What is written of a fraction. -/
def fractionText (fraction : List Digit) : List Char :=
  if fraction.isEmpty then [] else '.' :: fraction.map Digit.char

/-- What is written of an exponent. -/
def exponentText : Option (Bool × List Digit) → List Char
  | none => []
  | some (negative, ds) => 'e' :: (if negative then '-' else '+') :: ds.map Digit.char

theorem render_eq : t.render = (if t.negative then ['-'] else []) ++
    (t.whole.map Digit.char ++ (fractionText t.fraction ++ exponentText t.exponent)) := by
  unfold render fractionText
  cases t.exponent <;> simp only [exponentText, List.append_assoc]

theorem readExponent_text (h : Ends rest) (hne : ∀ e ∈ exponent, e.2 ≠ []) :
    readExponent (exponentText exponent ++ rest) = some (exponent, rest) := by
  cases exponent with
  | none =>
    cases rest with
    | nil => rfl
    | cons c rest =>
      have hc := h c rfl
      exact if_neg (by simp only [hc.2.2.1, hc.2.2.2, or_self, not_false_eq_true])
  | some e =>
    obtain ⟨negative, ds⟩ := e
    have hds : takeDigits (ds.map Digit.char ++ rest) = (ds, rest) :=
      takeDigits_append fun c hc => (h c hc).1
    have hread : readExponentDigits negative (ds.map Digit.char ++ rest) =
        some (some (negative, ds), rest) := by
      unfold readExponentDigits
      rw [hds]
      cases ds with
      | nil => exact absurd rfl (hne _ rfl)
      | cons d ds => rfl
    cases negative with
    | false => exact hread
    | true => exact hread

/-- No digit and no point stands where an exponent or the end of a number does. -/
theorem head_exponentText (exponent : Option (Bool × List Digit)) (h : Ends rest) :
    ∀ c ∈ (exponentText exponent ++ rest).head?, Digit.ofChar? c = none ∧ c ≠ '.' := by
  intro c hc
  cases exponent with
  | none => exact ⟨(h c hc).1, (h c hc).2.1⟩
  | some e =>
    have heq : 'e' = c := Option.some.inj hc
    subst heq
    decide

theorem readFraction_text (h : Ends rest) :
    readFraction (fractionText fraction ++ (exponentText exponent ++ rest)) =
      some (fraction, exponentText exponent ++ rest) := by
  have hhead := head_exponentText exponent h
  revert hhead
  generalize exponentText exponent ++ rest = tail
  intro hhead
  cases fraction with
  | nil =>
    show readFraction tail = _
    cases tail with
    | nil => rfl
    | cons c tail =>
      have hpoint := (hhead c rfl).2
      unfold readFraction
      split
      next heq => exact absurd (List.cons.inj heq).1 hpoint
      next => rfl
  | cons d ds =>
    show readFraction ('.' :: ((d :: ds).map Digit.char ++ tail)) = _
    rw [readFraction, takeDigits_append fun c hc => (hhead c hc).1]

/-- No digit stands where a fraction, an exponent or the end of a number does. -/
theorem head_fractionText (h : Ends rest) :
    ∀ c ∈ (fractionText fraction ++ (exponentText exponent ++ rest)).head?,
      Digit.ofChar? c = none := by
  intro c hc
  cases fraction with
  | nil => exact (head_exponentText exponent h c hc).1
  | cons d ds =>
    have heq : '.' = c := Option.some.inj hc
    subst heq
    decide

/-- A digit is no sign. -/
theorem readSign_digits (hne : whole ≠ []) {tail : List Char} :
    readSign (whole.map Digit.char ++ tail) = (false, whole.map Digit.char ++ tail) := by
  cases whole with
  | nil => exact absurd rfl hne
  | cons d ds =>
    rw [List.map_cons, List.cons_append]
    unfold readSign
    split
    next heq =>
      have hval := congrArg Char.toNat (List.cons.inj heq).1
      rw [Digit.char_toNat] at hval
      exact absurd hval (by simp; omega)
    next => rfl

/-- Every number that a reader can find is read back. -/
theorem read_render (ht : t.WellFormed) (h : Ends rest) : read (t.render ++ rest) = some (t, rest) := by
  have hne : t.whole ≠ [] := by
    intro hnil
    have hwhole := ht.whole
    rw [hnil] at hwhole
    cases hwhole
  have hsign : readSign (t.render ++ rest) =
      (t.negative, t.whole.map Digit.char ++
        (fractionText t.fraction ++ (exponentText t.exponent ++ rest))) := by
    rw [render_eq]
    simp only [List.append_assoc]
    cases t.negative with
    | true => rfl
    | false => exact readSign_digits hne
  unfold read
  simp only [hsign, takeDigits_append (head_fractionText h), ht.whole, readFraction_text h,
    readExponent_text h ht.exponent, if_true, Option.bind_eq_bind, Option.bind_some]

/-- No control character stands in a written number. -/
theorem le_of_mem_render {c : Char} (hc : c ∈ t.render) : 32 ≤ c.toNat := by
  have hdigits {ds : List Digit} (hc : c ∈ ds.map Digit.char) : 32 ≤ c.toNat := by
    obtain ⟨d, -, rfl⟩ := List.mem_map.mp hc
    rw [Digit.char_toNat]
    omega
  have hfraction (hc : c ∈ fractionText t.fraction) : 32 ≤ c.toNat := by
    unfold fractionText at hc
    split at hc
    · cases hc
    · rcases List.mem_cons.mp hc with rfl | hc
      · decide
      · exact hdigits hc
  have hexponent (hc : c ∈ exponentText t.exponent) : 32 ≤ c.toNat := by
    unfold exponentText at hc
    split at hc
    · cases hc
    · rcases List.mem_cons.mp hc with rfl | hc
      · decide
      · rcases List.mem_cons.mp hc with rfl | hc
        · split <;> decide
        · exact hdigits hc
  rw [render_eq] at hc
  rcases List.mem_append.mp hc with hc | hc
  · split at hc
    · rw [List.mem_singleton.mp hc]
      decide
    · cases hc
  · rcases List.mem_append.mp hc with hc | hc
    · exact hdigits hc
    · exact (List.mem_append.mp hc).elim hfraction hexponent

end NumberText

/-- The digits of a number end with its highest one, which is not zero unless it stands alone. -/
theorem getLast?_lowDigits {room n : Nat} (h : n < room) (hn : 0 < n) :
    ∃ d, (lowDigits room n).getLast? = some d ∧ d ≠ 0 := by
  induction room generalizing n with
  | zero => omega
  | succ room ih =>
    unfold lowDigits
    split
    next hlt =>
      refine ⟨⟨n, hlt⟩, rfl, fun hzero => ?_⟩
      have hval := congrArg Fin.val hzero
      exact absurd hval (by simp; omega)
    next hle =>
      obtain ⟨d, hd, hne⟩ := ih (show n / 10 < room by omega) (by omega)
      refine ⟨d, ?_, hne⟩
      rw [List.getLast?_cons, hd]
      rfl

theorem wholeOk_digitsOf (n : Nat) : NumberText.wholeOk (digitsOf n) = true := by
  cases Nat.eq_zero_or_pos n with
  | inl hzero =>
    subst hzero
    rfl
  | inr hpos =>
    obtain ⟨d, hd, hne⟩ := getLast?_lowDigits (Nat.lt_succ_self n) hpos
    have hhead : (digitsOf n).head? = some d := by rw [digitsOf, List.head?_reverse, hd]
    obtain ⟨ds, hds⟩ := List.head?_eq_some_iff.mp hhead
    rw [hds]
    cases ds with
    | nil => rfl
    | cons _ _ => simpa [NumberText.wholeOk] using hne

theorem NumberText.ofInt_wellFormed (n : Int) : (ofInt n).WellFormed :=
  ⟨wholeOk_digitsOf _, fun _ he => nomatch he⟩

end LockingDb
