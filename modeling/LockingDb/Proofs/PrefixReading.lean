import LockingDb.Proofs.TreeRoundTrip
import Mathlib.Data.List.DropRight

namespace LockingDb

variable {cs rest more : List Char} {c : Char}

/-- Digits that end before the text does are the same when more follows. -/
theorem takeDigits_append_of_rest {ds : List Digit} (h : takeDigits cs = (ds, rest))
    (hrest : rest ≠ []) : takeDigits (cs ++ more) = (ds, rest ++ more) := by
  induction cs generalizing ds with
  | nil =>
    cases h
    exact absurd rfl hrest
  | cons c cs ih =>
    rw [List.cons_append]
    unfold takeDigits at h ⊢
    cases hc : Digit.ofChar? c with
    | none =>
      rw [hc] at h
      cases h
      rfl
    | some d =>
      rw [hc] at h
      obtain ⟨others, left, hothers⟩ : ∃ others left, takeDigits cs = (others, left) := ⟨_, _, rfl⟩
      rw [hothers] at h
      cases h
      rw [ih hothers]

theorem Digit.char_of_ofChar? {d : Digit} (h : Digit.ofChar? c = some d) : d.char = c := by
  unfold Digit.ofChar? at h
  split at h
  next hc =>
    cases h
    refine Char.toNat_inj.mp ?_
    rw [Digit.char_toNat]
    show 48 + (c.toNat - 48) = c.toNat
    omega
  next => cases h

namespace TextPiece

/-- A string is read up to its closing quote, whatever follows. -/
theorem readAll_append {pieces : List TextPiece} (h : readAll cs = some (pieces, rest)) :
    readAll (cs ++ more) = some (pieces, rest ++ more) := by
  fun_induction readAll cs generalizing pieces with
  | case1 => cases h
  | case2 tail =>
    cases h
    rfl
  | case3 a b c d tail ih =>
    obtain ⟨n, hn, h⟩ := Option.bind_eq_some_iff.mp h
    obtain ⟨⟨others, left⟩, hothers, h⟩ := Option.bind_eq_some_iff.mp h
    cases h
    simp only [List.cons_append, readAll, hn, ih hothers, Option.bind_eq_bind, Option.bind_some]
  | case4 c tail hunit ih =>
    obtain ⟨meaning, hmeaning, h⟩ := Option.bind_eq_some_iff.mp h
    obtain ⟨⟨others, left⟩, hothers, h⟩ := Option.bind_eq_some_iff.mp h
    cases h
    have hc : c ≠ 'u' := by
      rintro rfl
      cases hmeaning
    rw [List.cons_append, List.cons_append, readAll_short hc, hmeaning, ih hothers]
    rfl
  | case5 => cases h
  | case6 c tail hquote hunit hshort _ hhigh =>
    rename_i ih
    obtain ⟨⟨others, left⟩, hothers, h⟩ := Option.bind_eq_some_iff.mp h
    cases h
    have hbackslash : c ≠ '\\' := by
      rintro rfl
      cases tail with
      | nil => cases hothers
      | cons d tail => exact hshort d tail rfl rfl
    rw [List.cons_append, readAll_plain hquote hbackslash, if_neg hhigh, ih hothers]
    rfl

end TextPiece

namespace NumberText

variable {t : NumberText}

theorem readSign_of_ne (hc : c ≠ '-') : readSign (c :: cs) = (false, c :: cs) := by
  unfold readSign
  split
  next heq => exact absurd (List.cons.inj heq).1 hc
  next => rfl

theorem readFraction_append {fraction : List Digit} (h : readFraction cs = some (fraction, rest))
    (hrest : rest ≠ []) : readFraction (cs ++ more) = some (fraction, rest ++ more) := by
  unfold readFraction at h
  split at h
  next tail =>
    rw [List.cons_append, readFraction]
    split at h
    next => cases h
    next hsome htake =>
      cases h
      rw [takeDigits_append_of_rest htake hrest]
      cases fraction with
      | nil => exact absurd rfl hsome
      | cons d ds => rfl
  next hpoint =>
    cases h
    cases cs with
    | nil => exact absurd rfl hrest
    | cons c cs =>
      rw [List.cons_append, readFraction]
      rintro tail ⟨⟩
      exact hpoint cs rfl

theorem readExponentDigits_append {negative : Bool} {e : Option (Bool × List Digit)}
    (h : readExponentDigits negative cs = some (e, rest)) (hrest : rest ≠ []) :
    readExponentDigits negative (cs ++ more) = some (e, rest ++ more) := by
  unfold readExponentDigits at h ⊢
  split at h
  next => cases h
  next ds left hsome htake =>
    cases h
    rw [takeDigits_append_of_rest htake hrest]
    cases ds with
    | nil => exact absurd rfl hsome
    | cons d ds => rfl

/-- The sign of an exponent is optional. -/
theorem readExponent_letter (hc : c = 'e' ∨ c = 'E') : readExponent (c :: cs) =
    match cs with
    | '-' :: cs => readExponentDigits true cs
    | '+' :: cs => readExponentDigits false cs
    | cs => readExponentDigits false cs := if_pos hc

theorem readExponent_append {e : Option (Bool × List Digit)} (h : readExponent cs = some (e, rest))
    (hrest : rest ≠ []) : readExponent (cs ++ more) = some (e, rest ++ more) := by
  cases cs with
  | nil =>
    cases h
    exact absurd rfl hrest
  | cons c cs =>
    rw [List.cons_append]
    by_cases hc : c = 'e' ∨ c = 'E'
    · rw [readExponent_letter hc] at h ⊢
      split at h
      next => exact readExponentDigits_append h hrest
      next => exact readExponentDigits_append h hrest
      next hminus hplus =>
        cases cs with
        | nil => cases h
        | cons d cs =>
          rw [List.cons_append]
          split
          next heq => exact (hminus cs ((List.cons.inj heq).1 ▸ rfl)).elim
          next heq => exact (hplus cs ((List.cons.inj heq).1 ▸ rfl)).elim
          next => exact readExponentDigits_append h hrest
    · have hnone (tail : List Char) : readExponent (c :: tail) = some (none, c :: tail) := if_neg hc
      rw [hnone] at h ⊢
      cases h
      rfl

theorem ne_nil_of_readFraction {fraction : List Digit} (h : readFraction cs = some (fraction, rest))
    (hrest : rest ≠ []) : cs ≠ [] := by
  rintro rfl
  cases h
  exact hrest rfl

theorem ne_nil_of_readExponent {e : Option (Bool × List Digit)} (h : readExponent cs = some (e, rest))
    (hrest : rest ≠ []) : cs ≠ [] := by
  rintro rfl
  cases h
  exact hrest rfl

/-- A number begins with a minus sign or a digit. -/
theorem head_of_read (h : read cs = some (t, rest)) :
    ∃ c cs', cs = c :: cs' ∧ (c = '-' ∨ ∃ d : Digit, c = d.char) := by
  cases cs with
  | nil => cases h
  | cons c cs =>
    refine ⟨c, cs, rfl, ?_⟩
    by_cases hc : c = '-'
    · exact .inl hc
    · refine .inr ?_
      cases hd : Digit.ofChar? c with
      | some d => exact ⟨d, (Digit.char_of_ofChar? hd).symm⟩
      | none =>
        have hdigits : takeDigits (c :: cs) = ([], c :: cs) := by rw [takeDigits, hd]
        unfold read at h
        rw [readSign_of_ne hc] at h
        simp only [hdigits, wholeOk, Bool.false_eq_true, if_false, reduceCtorEq] at h

/-- A number that ends before the text does is read in the same way when more follows. -/
theorem read_append (h : read cs = some (t, rest)) (hrest : rest ≠ []) :
    read (cs ++ more) = some (t, rest ++ more) := by
  have hsign : readSign (cs ++ more) = ((readSign cs).1, (readSign cs).2 ++ more) := by
    obtain ⟨c, cs', rfl, -⟩ := head_of_read h
    by_cases hc : c = '-'
    · subst hc
      rfl
    · rw [List.cons_append, readSign_of_ne hc, readSign_of_ne hc]
      rfl
  unfold read at h ⊢
  simp only [hsign]
  simp only at h
  obtain ⟨whole, afterWhole, hwhole⟩ : ∃ whole left, takeDigits (readSign cs).2 = (whole, left) :=
    ⟨_, _, rfl⟩
  rw [hwhole] at h
  split at h
  next hok =>
    obtain ⟨⟨fraction, afterFraction⟩, hfraction, h⟩ := Option.bind_eq_some_iff.mp h
    obtain ⟨⟨exponent, afterExponent⟩, hexponent, h⟩ := Option.bind_eq_some_iff.mp h
    cases h
    have hfirst := ne_nil_of_readExponent hexponent hrest
    have hsecond := ne_nil_of_readFraction hfraction hfirst
    rw [takeDigits_append_of_rest hwhole hsecond]
    simp only [hok, if_true, readFraction_append hfraction hfirst,
      readExponent_append hexponent hrest, Option.bind_eq_bind, Option.bind_some]
  next => cases h

end NumberText

namespace JsonTree

variable {t : JsonTree} {room wider : Nat}

theorem skipBlanks_append (h : skipBlanks cs ≠ []) : skipBlanks (cs ++ more) = skipBlanks cs ++ more := by
  unfold skipBlanks at h ⊢
  rw [List.dropWhile_append, if_neg (by simpa using h)]

theorem skipBlanks_append_of_nil (h : skipBlanks cs = []) : skipBlanks (cs ++ more) = skipBlanks more := by
  unfold skipBlanks at h ⊢
  rw [List.dropWhile_append, h]
  rfl

/-- A text that goes on with a character after its blanks still does so when more follows. -/
theorem skipBlanks_append_of_cons (h : skipBlanks cs = c :: rest) :
    skipBlanks (cs ++ more) = c :: (rest ++ more) := by
  rw [skipBlanks_append (h ▸ List.cons_ne_nil c rest), h, List.cons_append]

theorem skipBlanks_skipBlanks : skipBlanks (skipBlanks cs) = skipBlanks cs :=
  List.dropWhile_idempotent isBlank cs

theorem readTree_skipBlanks : readTree room (skipBlanks cs) = readTree room cs := by
  cases room with
  | zero => rfl
  | succ room => rw [readTree, readTree, skipBlanks_skipBlanks]

theorem readTree_bracket (h : skipBlanks cs = '[' :: rest) : readTree (room + 1) cs =
    match skipBlanks rest with
    | ']' :: rest => some (array [], rest)
    | rest => (readItems room rest).bind fun (items, rest) => some (array items, rest) := by
  rw [readTree, h]
  rfl

theorem readTree_brace (h : skipBlanks cs = '\x7b' :: rest) : readTree (room + 1) cs =
    match skipBlanks rest with
    | '\x7d' :: rest => some (object [], rest)
    | rest => (readFields room rest).bind fun (fields, rest) => some (object fields, rest) := by
  rw [readTree, h]
  rfl

theorem readItems_nil : readItems room [] = none := by
  cases room with
  | zero => rfl
  | succ room =>
    rw [readItems]
    cases room <;> rfl

theorem readFields_nil : readFields room [] = none := by cases room <;> rfl

/-- A tree with a last character of its own. A number may go on. -/
def isClosed : JsonTree → Bool
  | number _ => false
  | _ => true

/-- What the readers read with some room they also read with more room, and when more follows. -/
structure Stable (room : Nat) : Prop where
  tree : ∀ {wider cs t rest more}, room ≤ wider → readTree room cs = some (t, rest) →
    rest ≠ [] ∨ t.isClosed = true → readTree wider (cs ++ more) = some (t, rest ++ more)
  items : ∀ {wider cs ts rest more}, room ≤ wider → readItems room cs = some (ts, rest) →
    readItems wider (cs ++ more) = some (ts, rest ++ more)
  fields : ∀ {wider cs fs rest more}, room ≤ wider → readFields room cs = some (fs, rest) →
    readFields wider (cs ++ more) = some (fs, rest ++ more)

theorem Stable.readItems_succ {ts : List JsonTree} (h : Stable room) (hroom : room ≤ wider)
    (hread : readItems (room + 1) cs = some (ts, rest)) :
    readItems (wider + 1) (cs ++ more) = some (ts, rest ++ more) := by
  rw [readItems] at hread ⊢
  obtain ⟨⟨item, left⟩, hitem, hread⟩ := Option.bind_eq_some_iff.mp hread
  dsimp only at hread
  split at hread
  next after heq =>
    obtain ⟨⟨others, last⟩, hothers, hread⟩ := Option.bind_eq_some_iff.mp hread
    cases hread
    have hleft : left ≠ [] := by
      rintro rfl
      cases heq
    rw [h.tree hroom hitem (.inl hleft)]
    simp only [Option.bind_eq_bind, Option.bind_some, skipBlanks_append_of_cons heq,
      h.items hroom hothers]
  next after heq =>
    cases hread
    have hleft : left ≠ [] := by
      rintro rfl
      cases heq
    rw [h.tree hroom hitem (.inl hleft)]
    simp only [Option.bind_eq_bind, Option.bind_some, skipBlanks_append_of_cons heq]
  next => cases hread

theorem Stable.readFields_succ {fs : List (List TextPiece × JsonTree)} (h : Stable room)
    (hroom : room ≤ wider) (hread : readFields (room + 1) cs = some (fs, rest)) :
    readFields (wider + 1) (cs ++ more) = some (fs, rest ++ more) := by
  rw [readFields] at hread ⊢
  split at hread
  next afterQuote hquote =>
    obtain ⟨⟨key, afterKey⟩, hkey, hread⟩ := Option.bind_eq_some_iff.mp hread
    dsimp only at hread
    split at hread
    next afterColon hcolon =>
      obtain ⟨⟨tree, left⟩, htree, hread⟩ := Option.bind_eq_some_iff.mp hread
      simp only [skipBlanks_append_of_cons hquote, TextPiece.readAll_append hkey,
        Option.bind_eq_bind, Option.bind_some, skipBlanks_append_of_cons hcolon]
      dsimp only at hread
      split at hread
      next after heq =>
        obtain ⟨⟨others, last⟩, hothers, hread⟩ := Option.bind_eq_some_iff.mp hread
        cases hread
        have hleft : left ≠ [] := by
          rintro rfl
          cases heq
        simp only [h.tree hroom htree (.inl hleft), Option.bind_some, skipBlanks_append_of_cons heq,
          h.fields hroom hothers]
      next after heq =>
        cases hread
        have hleft : left ≠ [] := by
          rintro rfl
          cases heq
        simp only [h.tree hroom htree (.inl hleft), Option.bind_some, skipBlanks_append_of_cons heq]
      next => cases hread
    next => cases hread
  next => cases hread

theorem Stable.readTree_succ (h : Stable room) (hroom : room ≤ wider)
    (hread : readTree (room + 1) cs = some (t, rest)) (hends : rest ≠ [] ∨ t.isClosed = true) :
    readTree (wider + 1) (cs ++ more) = some (t, rest ++ more) := by
  rw [readTree] at hread
  split at hread
  next heq =>
    cases hread
    rw [readTree, skipBlanks_append_of_cons heq]
    rfl
  next heq =>
    cases hread
    rw [readTree, skipBlanks_append_of_cons heq]
    rfl
  next heq =>
    cases hread
    rw [readTree, skipBlanks_append_of_cons heq]
    rfl
  next after heq =>
    obtain ⟨⟨pieces, left⟩, hpieces, hread⟩ := Option.bind_eq_some_iff.mp hread
    cases hread
    rw [readTree, skipBlanks_append_of_cons heq]
    simp only [TextPiece.readAll_append hpieces, Option.bind_eq_bind, Option.bind_some]
  next after heq =>
    rw [readTree_bracket (skipBlanks_append_of_cons heq)]
    -- The bracket that closes is still to come, so the blanks do not reach to the end.
    cases hblanks : skipBlanks after with
    | nil =>
      rw [hblanks] at hread
      dsimp only at hread
      rw [readItems_nil] at hread
      cases hread
    | cons c tail =>
      rw [hblanks] at hread
      rw [skipBlanks_append_of_cons hblanks]
      split at hread
      next hlast =>
        cases hlast
        cases hread
        rfl
      next hother =>
        obtain ⟨⟨items, left⟩, hitems, hread⟩ := Option.bind_eq_some_iff.mp hread
        cases hread
        split
        next hlast => exact (hother tail (by rw [(List.cons.inj hlast).1])).elim
        next =>
          rw [← List.cons_append, h.items hroom hitems]
          rfl
  next after heq =>
    rw [readTree_brace (skipBlanks_append_of_cons heq)]
    cases hblanks : skipBlanks after with
    | nil =>
      rw [hblanks] at hread
      dsimp only at hread
      rw [readFields_nil] at hread
      cases hread
    | cons c tail =>
      rw [hblanks] at hread
      rw [skipBlanks_append_of_cons hblanks]
      split at hread
      next hlast =>
        cases hlast
        cases hread
        rfl
      next hother =>
        obtain ⟨⟨fields, left⟩, hfields, hread⟩ := Option.bind_eq_some_iff.mp hread
        cases hread
        split
        next hlast => exact (hother tail (by rw [(List.cons.inj hlast).1])).elim
        next =>
          rw [← List.cons_append, h.fields hroom hfields]
          rfl
  next =>
    obtain ⟨⟨text, left⟩, htext, hread⟩ := Option.bind_eq_some_iff.mp hread
    cases hread
    have hrest := hends.resolve_right Bool.false_ne_true
    obtain ⟨c, tail, hhead, hc⟩ := NumberText.head_of_read htext
    rw [hhead] at htext
    rw [← readTree_skipBlanks, skipBlanks_append_of_cons hhead, readTree_number hc,
      ← List.cons_append, NumberText.read_append htext hrest]
    rfl

theorem stable (room : Nat) : Stable room := by
  induction room with
  | zero => exact ⟨nofun, nofun, nofun⟩
  | succ room ih =>
    refine ⟨fun hroom hread hends => ?_, fun hroom hread => ?_, fun hroom hread => ?_⟩
    all_goals obtain ⟨wider, rfl⟩ := Nat.exists_eq_add_of_lt hroom
    · exact ih.readTree_succ (Nat.le_add_right room _) hread hends
    · exact ih.readItems_succ (Nat.le_add_right room _) hread
    · exact ih.readFields_succ (Nat.le_add_right room _) hread

/-- Nothing but blanks may follow a tree that is complete. -/
theorem parse?_append (h : parse? cs = some t) (hclosed : t.isClosed = true)
    (hmore : skipBlanks more ≠ []) : parse? (cs ++ more) = none := by
  unfold parse? at h ⊢
  obtain ⟨⟨tree, rest⟩, hread, h⟩ := Option.bind_eq_some_iff.mp h
  dsimp only at h
  split at h
  next hblank =>
    cases h
    have hroom : 2 * cs.length + 2 ≤ 2 * (cs ++ more).length + 2 := by
      rw [List.length_append]
      omega
    rw [(stable _).tree hroom hread (.inr hclosed)]
    show (if (skipBlanks (rest ++ more)).isEmpty then some t else none) = none
    rw [skipBlanks_append_of_nil (List.isEmpty_iff.mp hblank), if_neg (by simpa using hmore)]
  next => cases h

/-- Blanks before a tree are skipped. -/
theorem parse?_blanks_append (h : t.WellFormed) (hblanks : skipBlanks cs = []) :
    parse? (cs ++ t.render) = some t := by
  have hread : readTree (2 * (cs ++ t.render).length + 2) (t.render ++ []) = some (t, []) :=
    readTree_render t h NumberText.Ends.nil (by rw [List.length_append]; omega)
  rw [List.append_nil, ← readTree_skipBlanks, ← skipBlanks_append_of_nil hblanks,
    readTree_skipBlanks] at hread
  unfold parse?
  rw [hread]
  rfl

end JsonTree

end LockingDb
