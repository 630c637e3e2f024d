import LockingDb.DoubleReading
import LockingDb.DoubleWriting
import LockingDb.Proofs.ShortestDigits
import LockingDb.Proofs.TextRoundTrip

namespace LockingDb

variable {ds rest : List Digit} {n : Nat}

theorem ofDigits_append (ds rest : List Digit) :
    ofDigits (ds ++ rest) = ofDigits ds * 10 ^ rest.length + ofDigits rest := by
  induction rest using List.reverseRecOn with
  | nil => simp [ofDigits]
  | append_singleton rest d ih =>
    rw [← List.append_assoc, ofDigits_append_singleton, ofDigits_append_singleton, ih,
      List.length_append, List.length_singleton, Nat.pow_succ]
    ring

theorem ofDigits_lt (ds : List Digit) : ofDigits ds < 10 ^ ds.length := by
  induction ds using List.reverseRecOn with
  | nil => exact Nat.one_pos
  | append_singleton ds d ih =>
    rw [ofDigits_append_singleton, List.length_append, List.length_singleton, Nat.pow_succ]
    have := d.isLt
    omega

theorem ofDigits_replicate_zero (k : Nat) : ofDigits (List.replicate k Digit.zero) = 0 := by
  induction k with
  | zero => rfl
  | succ k ih =>
    rw [List.replicate_succ', ofDigits_append_singleton, ih]
    rfl

/-- Digits with no zero at the head. -/
def Leading (ds : List Digit) : Prop := ∃ d rest, ds = d :: rest ∧ d ≠ Digit.zero

theorem Leading.ne_nil (h : Leading ds) : ds ≠ [] := by
  obtain ⟨d, rest, rfl, -⟩ := h
  exact List.cons_ne_nil d rest

theorem Leading.append (h : Leading ds) (rest : List Digit) : Leading (ds ++ rest) := by
  obtain ⟨d, more, rfl, hne⟩ := h
  exact ⟨d, more ++ rest, rfl, hne⟩

theorem Leading.take (h : Leading ds) (k : Nat) : Leading (ds.take (k + 1)) := by
  obtain ⟨d, rest, rfl, hne⟩ := h
  exact ⟨d, rest.take k, rfl, hne⟩

theorem Leading.wholeOk (h : Leading ds) : NumberText.wholeOk ds = true := by
  obtain ⟨d, rest, rfl, hne⟩ := h
  cases rest with
  | nil => rfl
  | cons _ _ => exact bne_iff_ne.mpr hne

theorem Leading.pow_le (h : Leading ds) : 10 ^ (ds.length - 1) ≤ ofDigits ds := by
  obtain ⟨d, rest, rfl, hne⟩ := h
  have hd : 1 ≤ d.val := Nat.pos_of_ne_zero fun hzero => hne (Fin.ext hzero)
  rw [← List.singleton_append, ofDigits_append, List.length_append, List.length_singleton,
    Nat.add_sub_cancel_left]
  have hfirst : ofDigits [d] = d.val := by simp [ofDigits]
  rw [hfirst]
  exact le_trans (Nat.le_mul_of_pos_left _ hd) (Nat.le_add_right _ _)

theorem Leading.ofDigits_pos (h : Leading ds) : 0 < ofDigits ds :=
  lt_of_lt_of_le (Nat.pow_pos (by decide)) h.pow_le

theorem ofDigits_lt_of_length {k : Nat} (h : ds.length ≤ k) : ofDigits ds < 10 ^ k :=
  (ofDigits_lt ds).trans_le (Nat.pow_le_pow_right (by decide) h)

theorem leading_digitsOf (h : 0 < n) : Leading (digitsOf n) := by
  obtain ⟨d, hd, hne⟩ := getLast?_lowDigits (Nat.lt_succ_self n) h
  have hhead : (digitsOf n).head? = some d := by rw [digitsOf, List.head?_reverse, hd]
  obtain ⟨ds, hds⟩ := List.head?_eq_some_iff.mp hhead
  exact ⟨d, ds, hds, hne⟩

theorem digitsOf_ne_nil (n : Nat) : digitsOf n ≠ [] := by
  intro hnil
  have hok := wholeOk_digitsOf n
  rw [hnil] at hok
  cases hok

theorem length_digitsOf {k : Nat} (hpos : 0 < n) (hless : n < 10 ^ k) :
    (digitsOf n).length ≤ k := by
  have h := (leading_digitsOf hpos).pow_le
  rw [ofDigits_digitsOf] at h
  have := (Nat.pow_lt_pow_iff_right (by decide)).mp (h.trans_lt hless)
  omega

namespace NumberText

/-- The number that all digits make without the point. -/
def significand (t : NumberText) : Nat := ofDigits (t.whole ++ t.fraction)

/-- The power of ten of the last digit. -/
def power (t : NumberText) : Int :=
  (match t.exponent with
    | none => 0
    | some (true, ds) => -(ofDigits ds : Int)
    | some (false, ds) => ofDigits ds) - t.fraction.length

/-- What a written number stands for, without its sign. -/
def decimal (t : NumberText) : ℚ := t.significand * 10 ^ t.power

end NumberText

namespace DoubleReading

theorem gather_eq (h : n * 10 ^ ds.length + ofDigits ds < gatherLimit) :
    gather n ds = (n * 10 ^ ds.length + ofDigits ds, ds.length, 0) := by
  induction ds generalizing n with
  | nil => simp [gather, ofDigits]
  | cons d ds ih =>
    have hsplit : n * 10 ^ (d :: ds).length + ofDigits (d :: ds) =
        (10 * n + d.val) * 10 ^ ds.length + ofDigits ds := by
      rw [← List.singleton_append, ofDigits_append]
      simp [ofDigits, Nat.pow_succ]
      ring
    rw [hsplit] at h ⊢
    have hless : 10 * n + d.val < gatherLimit :=
      lt_of_le_of_lt (le_trans (Nat.le_mul_of_pos_right _ (Nat.pow_pos (by decide)))
        (Nat.le_add_right _ _)) h
    rw [gather, if_pos hless, ih h]
    rfl

/-- A number whose digits and exponent fit is read as its significand and power say. -/
theorem magnitude?_eq {t : NumberText} (h : t.significand < gatherLimit)
    (hexponent : ∀ e ∈ t.exponent, ofDigits e.2 < exponentLimit) :
    magnitude? t = scale t.significand t.power := by
  have hsplit : t.significand =
      ofDigits t.whole * 10 ^ t.fraction.length + ofDigits t.fraction := ofDigits_append _ _
  have hwhole : gather 0 t.whole = (ofDigits t.whole, t.whole.length, 0) := by
    have hless : ofDigits t.whole < gatherLimit :=
      lt_of_le_of_lt (le_trans (Nat.le_mul_of_pos_right _ (Nat.pow_pos (by decide)))
        (hsplit ▸ Nat.le_add_right _ _)) h
    have h := @gather_eq t.whole 0 (by simpa using hless)
    simpa using h
  have hboth : significand t.whole t.fraction = (t.significand, -(t.fraction.length : Int)) := by
    rw [significand, hwhole]
    simp only
    rw [gather_eq (hsplit ▸ h), hsplit]
    simp
  unfold magnitude? NumberText.power
  rw [hboth]
  simp only
  cases hexp : t.exponent with
  | none => simp
  | some e =>
    obtain ⟨negative, ds⟩ := e
    have hless := hexponent (negative, ds) hexp
    simp only at hless ⊢
    rw [if_pos hless]
    cases negative with
    | false =>
      simp only [Bool.false_eq_true, if_false]
      congr 1
      ring
    | true =>
      simp only [if_true]
      congr 1
      ring

end DoubleReading

namespace DoubleWriting

open NumberText

variable {d : Int}

theorem exists_dropTrailingZeros (ds : List Digit) :
    ∃ k, ds = dropTrailingZeros ds ++ List.replicate k Digit.zero := by
  have hsplit := congrArg List.reverse
    (List.takeWhile_append_dropWhile (p := (· = Digit.zero)) (l := ds.reverse))
  rw [List.reverse_append, List.reverse_reverse] at hsplit
  have hzeros : ds.reverse.takeWhile (· = Digit.zero) =
      List.replicate (ds.reverse.takeWhile (· = Digit.zero)).length Digit.zero :=
    List.eq_replicate_iff.mpr ⟨rfl, fun d hd => of_decide_eq_true
      (List.all_eq_true.mp (List.all_takeWhile (p := (· = Digit.zero)) (l := ds.reverse)) d hd)⟩
  rw [hzeros, List.reverse_replicate] at hsplit
  exact ⟨_, hsplit.symm⟩

theorem leading_dropTrailingZeros (h : Leading ds) : Leading (dropTrailingZeros ds) := by
  obtain ⟨k, hk⟩ := exists_dropTrailingZeros ds
  obtain ⟨d, rest, hds, hne⟩ := h
  cases hdrop : dropTrailingZeros ds with
  | nil =>
    rw [hdrop, List.nil_append, hds] at hk
    have hd : d ∈ List.replicate k Digit.zero := hk ▸ List.mem_cons_self
    exact absurd (List.eq_of_mem_replicate hd) hne
  | cons first more =>
    rw [hdrop, hds, List.cons_append] at hk
    exact ⟨d, more, by rw [(List.cons.inj hk).1], hne⟩

/-- What `layOut` writes: a number that is read as a whole, and that stands for the given digits. -/
structure LaysOut (t : NumberText) (negative : Bool) (x : ℚ) : Prop where
  sign : t.negative = negative
  wellFormed : t.WellFormed
  decimal : t.decimal = x
  pos : 0 < t.significand
  less : t.significand < 10 ^ 17
  exponent : ∀ e ∈ t.exponent, ofDigits e.2 < DoubleReading.exponentLimit

theorem laysOut_plain {negative : Bool} {whole fraction : List Digit} {x : ℚ}
    (hwhole : wholeOk whole = true) (hdecimal : decimal ⟨negative, whole, fraction, none⟩ = x)
    (hpos : 0 < significand ⟨negative, whole, fraction, none⟩)
    (hless : significand ⟨negative, whole, fraction, none⟩ < 10 ^ 17) :
    LaysOut ⟨negative, whole, fraction, none⟩ negative x :=
  ⟨rfl, ⟨hwhole, nofun⟩, hdecimal, hpos, hless, nofun⟩

/-- Zeros before the digits do not count. -/
theorem laysOut_small (negative : Bool) (h : Leading ds) (hlength : ds.length ≤ 17) (k : Nat) :
    LaysOut ⟨negative, [.zero], List.replicate k .zero ++ ds, none⟩ negative
      (ofDigits ds * 10 ^ (-(k : Int) - ds.length)) := by
  have hsignificand :
      significand ⟨negative, [.zero], List.replicate k .zero ++ ds, none⟩ = ofDigits ds := by
    unfold significand
    rw [← List.append_assoc, ofDigits_append, ofDigits_append, ofDigits_replicate_zero]
    simp [ofDigits, Digit.zero]
  refine laysOut_plain rfl ?_ (hsignificand ▸ h.ofDigits_pos)
    (hsignificand ▸ ofDigits_lt_of_length hlength)
  rw [NumberText.decimal, hsignificand]
  unfold power
  simp only [List.length_append, List.length_replicate]
  congr 2
  push_cast
  ring

/-- Zeros after the digits make up for places that have none. -/
theorem laysOut_padded (negative : Bool) (h : Leading ds) {k : Nat} (hlength : ds.length + k ≤ 16) :
    LaysOut ⟨negative, ds ++ List.replicate k .zero, [.zero], none⟩ negative
      (ofDigits ds * 10 ^ k) := by
  have hsignificand : significand ⟨negative, ds ++ List.replicate k .zero, [.zero], none⟩ =
      ofDigits ds * 10 ^ k * 10 := by
    unfold significand
    rw [ofDigits_append, ofDigits_append, ofDigits_replicate_zero, List.length_replicate]
    simp [ofDigits, Digit.zero]
  refine laysOut_plain (h.append _).wholeOk ?_ ?_ ?_
  · rw [NumberText.decimal, hsignificand]
    unfold power
    simp
  · rw [hsignificand]
    have := h.ofDigits_pos
    positivity
  · rw [significand]
    refine ofDigits_lt_of_length ?_
    simp only [List.length_append, List.length_replicate, List.length_singleton]
    omega

theorem laysOut_pointed (negative : Bool) (h : Leading ds) (hlength : ds.length ≤ 17) {k : Nat}
    (hk : k + 1 < ds.length) :
    LaysOut ⟨negative, ds.take (k + 1), ds.drop (k + 1), none⟩ negative
      (ofDigits ds * 10 ^ ((k : Int) + 1 - ds.length)) := by
  have hsignificand :
      significand ⟨negative, ds.take (k + 1), ds.drop (k + 1), none⟩ = ofDigits ds := by
    rw [significand, List.take_append_drop]
  refine laysOut_plain (h.take k).wholeOk ?_ (hsignificand ▸ h.ofDigits_pos)
    (hsignificand ▸ ofDigits_lt_of_length hlength)
  rw [NumberText.decimal, hsignificand]
  unfold power
  simp only [List.length_drop]
  congr 2
  omega

theorem laysOut_scientific (negative : Bool) (h : Leading ds) (hlength : ds.length ≤ 17) {d : Int}
    (hd : d.natAbs < DoubleReading.exponentLimit) :
    LaysOut ⟨negative, ds.take 1, ds.drop 1, some (decide (d < 0), digitsOf d.natAbs)⟩ negative
      (ofDigits ds * 10 ^ (d + 1 - ds.length)) := by
  have hsignificand : significand ⟨negative, ds.take 1, ds.drop 1,
      some (decide (d < 0), digitsOf d.natAbs)⟩ = ofDigits ds := by
    rw [significand, List.take_append_drop]
  have hone : 1 ≤ ds.length := List.length_pos_of_ne_nil h.ne_nil
  refine ⟨rfl, ⟨(h.take 0).wholeOk, ?_⟩, ?_, hsignificand ▸ h.ofDigits_pos,
    hsignificand ▸ ofDigits_lt_of_length hlength, ?_⟩
  · intro e he
    obtain rfl := Option.some.inj he
    exact digitsOf_ne_nil _
  · rw [NumberText.decimal, hsignificand]
    unfold power
    congr 2
    by_cases hneg : d < 0
    · simp only [decide_eq_true hneg, ofDigits_digitsOf, List.length_drop]
      omega
    · simp only [decide_eq_false hneg, ofDigits_digitsOf, List.length_drop]
      omega
  · intro e he
    obtain rfl := Option.some.inj he
    rwa [ofDigits_digitsOf]

/-- Digits are laid out so that the first one counts `10 ^ d`. -/
theorem laysOut (negative : Bool) (h : Leading ds) (hlength : ds.length ≤ 17)
    (hd : d.natAbs < DoubleReading.exponentLimit) :
    LaysOut (layOut negative ds d) negative (ofDigits ds * 10 ^ (d + 1 - ds.length)) := by
  unfold layOut
  split
  next hsmall =>
    have hsame := laysOut_small negative h hlength (-d - 1).toNat
    rwa [show -((-d - 1).toNat : Int) - ds.length = d + 1 - ds.length by omega] at hsame
  split
  next hmiddle =>
    obtain ⟨k, rfl⟩ := Int.eq_ofNat_of_zero_le hmiddle.1
    simp only [Int.toNat_natCast]
    split
    next hempty =>
      have hshort : ds.length ≤ k + 1 := List.drop_eq_nil_iff.mp (List.isEmpty_iff.mp hempty)
      rw [List.take_of_length_le hshort]
      have hsame := laysOut_padded negative h (k := k + 1 - ds.length) (by omega)
      rwa [← zpow_natCast,
        show ((k + 1 - ds.length : Nat) : Int) = k + 1 - ds.length by omega] at hsame
    next hfraction =>
      rw [List.isEmpty_iff, List.drop_eq_nil_iff, not_le] at hfraction
      rw [show k + 1 - ds.length = 0 by omega, List.replicate_zero, List.append_nil]
      exact laysOut_pointed negative h hlength hfraction
  next => exact laysOut_scientific negative h hlength hd

/-- A finite double that is not zero is written as its shortest decimal. -/
theorem exists_text {bits : UInt64} (hpos : 0 < Binary64.magnitude bits)
    (hfinite : Binary64.magnitude bits < Binary64.infinityBits) :
    ∃ t x, text? bits = some t ∧ LaysOut t (Binary64.isNegative bits) x ∧
      Binary64.Within (Binary64.parts (Binary64.magnitude bits)).1
        (Binary64.parts (Binary64.magnitude bits)).2 x := by
  obtain ⟨c, e, hdecimal, hwithin, hc, hmost, hlow, hhigh⟩ :=
    ShortestDecimal.ofMagnitude_spec hpos hfinite
  have hleading := leading_digitsOf hc
  obtain ⟨k, hk⟩ := exists_dropTrailingZeros (digitsOf c)
  have hcount := congrArg List.length hk
  rw [List.length_append, List.length_replicate] at hcount
  have hdigits : (digitsOf c).length ≤ 18 := length_digitsOf hc (hmost.trans_lt (by decide))
  have hlength : (dropTrailingZeros (digitsOf c)).length ≤ 17 := by
    rcases hmost.lt_or_eq with hless | rfl
    · have := length_digitsOf hc hless
      omega
    · decide
  have hvalue : (ofDigits (dropTrailingZeros (digitsOf c)) : ℚ) * 10 ^ k = c := by
    have h := ofDigits_digitsOf c
    rw [hk, ofDigits_append, ofDigits_replicate_zero, List.length_replicate, Nat.add_zero] at h
    exact_mod_cast h
  have hlaysOut := laysOut (Binary64.isNegative bits)
    (leading_dropTrailingZeros hleading) hlength (d := e + (digitsOf c).length - 1)
    (show _ < 0x80000000 by omega)
  refine ⟨_, _, ?_, hlaysOut, ?_⟩
  · unfold text?
    simp only [Binary64.isFinite, decide_eq_true hfinite, if_neg hpos.ne', if_true, hdecimal]
  · have hpower : e + ((digitsOf c).length : Int) - 1 + 1 -
        (dropTrailingZeros (digitsOf c)).length = k + e := by omega
    rw [hpower, zpow_add₀ (by norm_num), zpow_natCast, ← mul_assoc, hvalue]
    exact hwithin

/-- Infinities and what is no number have no text. -/
theorem text?_eq_none {bits : UInt64} (h : Binary64.isFinite bits = false) : text? bits = none := by
  have hge := of_decide_eq_false h
  have hne : Binary64.magnitude bits ≠ 0 := by
    unfold Binary64.infinityBits at hge
    omega
  unfold text?
  simp only [if_neg hne, h, Bool.false_eq_true, if_false]

theorem text?_of_zero {bits : UInt64} (h : Binary64.magnitude bits = 0) :
    text? bits = some ⟨Binary64.isNegative bits, [.zero], [.zero], none⟩ := by
  unfold text?
  rw [h]
  rfl

theorem text?_wellFormed {bits : UInt64} {t : NumberText} (h : text? bits = some t) :
    t.WellFormed := by
  rcases Nat.eq_zero_or_pos (Binary64.magnitude bits) with hzero | hpos
  · obtain rfl := Option.some.inj ((text?_of_zero hzero).symm.trans h)
    exact ⟨rfl, nofun⟩
  · by_cases hfinite : Binary64.isFinite bits = true
    · obtain ⟨t', x, htext, hlays, -⟩ := exists_text hpos (of_decide_eq_true hfinite)
      obtain rfl := Option.some.inj (htext.symm.trans h)
      exact hlays.wellFormed
    · rw [text?_eq_none (Bool.eq_false_of_not_eq_true hfinite)] at h
      cases h

end DoubleWriting

end LockingDb
