import LockingDb.Proofs.ReadingError

namespace LockingDb

namespace Binary64

variable {bits : UInt64} {negative : Bool} {r : Nat}

theorem withSign_self (bits : UInt64) : withSign (isNegative bits) (magnitude bits) = bits := by
  have hless : bits.toNat < 2 * signBit := bits.toNat_lt
  unfold withSign isNegative magnitude
  rw [← UInt64.toNat_inj, UInt64.toNat_ofNat']
  split
  next h =>
    have := of_decide_eq_true h
    unfold signBit at *
    omega
  next h =>
    have := of_decide_eq_false (Bool.eq_false_of_not_eq_true h)
    unfold signBit at *
    omega

theorem toNat_withSign (h : r < signBit) :
    (withSign negative r).toNat = if negative then signBit + r else r := by
  unfold withSign
  rw [UInt64.toNat_ofNat']
  unfold signBit at *
  split <;> omega

theorem isNegative_withSign (h : r < signBit) : isNegative (withSign negative r) = negative := by
  unfold isNegative
  rw [toNat_withSign h]
  cases negative with
  | false => exact decide_eq_false (not_le.mpr h)
  | true => exact decide_eq_true (Nat.le_add_right _ _)

theorem magnitude_withSign (h : r < signBit) : magnitude (withSign negative r) = r := by
  unfold magnitude
  rw [toNat_withSign h]
  cases negative with
  | false => exact Nat.mod_eq_of_lt h
  | true => exact (Nat.add_mod_left _ _).trans (Nat.mod_eq_of_lt h)

/-- The next magnitude is one unit away. -/
theorem toRat_succ (x : Nat) : toRat (x + 1) = toRat x + unit x := by
  obtain ⟨hleast, hfull, hless⟩ := formed_parts x
  have hnext : pack ((parts x).1 + 1) (parts x).2 = x + 1 :=
    (Nat.add_assoc _ _ 1).symm.trans (congrArg (· + 1) (pack_parts x))
  rw [← hnext, toRat_pack hleast (fun h => (hfull h).trans (Nat.le_succ _)) hless, toRat, unit]
  push_cast
  ring

end Binary64

namespace DoubleReading

open Binary64

variable {bits : UInt64} {t : NumberText}

/-- The five greatest magnitudes are read without an overflow. -/
theorem greatest_reread : ∀ (negative : Bool) (k : Fin 5),
    (DoubleWriting.text? (withSign negative (infinityBits - 5 + k))).bind magnitude? =
      some (infinityBits - 5 + k + k % 2) := by
  decide +kernel

/-- What is read for a double: a finite magnitude, at most six units away. -/
structure Found (bits : UInt64) (r : Nat) : Prop where
  less : r < infinityBits
  close : |toRat r - toRat (magnitude bits)| ≤ 6 * unit (magnitude bits)

theorem found_greatest (hfinite : magnitude bits < infinityBits)
    (hgreat : infinityBits < magnitude bits + 6) (htext : DoubleWriting.text? bits = some t) :
    ∃ r, magnitude? t = some r ∧ Found bits r := by
  obtain ⟨k, hk⟩ : ∃ k : Fin 5, magnitude bits = infinityBits - 5 + k := by
    unfold infinityBits at *
    exact ⟨⟨magnitude bits - (0x7ff0000000000000 - 5), by omega⟩, by simp only; omega⟩
  have hread := greatest_reread (isNegative bits) k
  rw [← hk, withSign_self, htext, Option.bind_some] at hread
  refine ⟨_, hread, ?_, ?_⟩
  · have hparity : ∀ k : Fin 5, infinityBits - 5 + k + k % 2 < infinityBits := by decide
    rw [hk]
    exact hparity k
  · have hunit := unit_pos (magnitude bits)
    rcases Nat.mod_two_eq_zero_or_one k with hmod | hmod
    · rw [hmod, Nat.add_zero, sub_self, abs_zero]
      linarith
    · rw [hmod, toRat_succ, add_sub_cancel_left, abs_of_pos hunit]
      linarith

/-- The text of a finite double is read as a finite double. -/
theorem exists_found (hfinite : magnitude bits < infinityBits) :
    ∃ t r, DoubleWriting.text? bits = some t ∧ t.negative = isNegative bits ∧
      magnitude? t = some r ∧ Found bits r ∧
      (t.significand < 2 * leadingBit → t.power.natAbs ≤ 22 → r = magnitude bits) := by
  rcases Nat.eq_zero_or_pos (magnitude bits) with hzero | hpos
  · refine ⟨_, 0, DoubleWriting.text?_of_zero hzero, rfl, ?_, ⟨by decide, ?_⟩,
      fun _ _ => hzero.symm⟩
    · show scale 0 (-(1 : Nat)) = some 0
      rw [scale_neg (le_refl 1), divideByPower_eq (by decide)]
      decide +kernel
    · rw [hzero, sub_self, abs_zero]
      have := unit_pos 0
      linarith
  · obtain ⟨t, x, htext, hlays, hwithin⟩ := DoubleWriting.exists_text hpos hfinite
    have hmagnitude := magnitude?_eq (hlays.less.trans (by decide)) hlays.exponent
    rw [← hlays.decimal] at hwithin
    have hshort (hm : t.significand < 2 * leadingBit) (hk : t.power.natAbs ≤ 22) :
        magnitude? t = some (magnitude bits) :=
      hmagnitude.trans (scale_short hpos hfinite hm hk hwithin)
    have hfound : ∃ r, magnitude? t = some r ∧ Found bits r := by
      -- For the greatest magnitudes the bound on the error does not exclude an overflow.
      by_cases hgreat : infinityBits < magnitude bits + 6
      · exact found_greatest hfinite hgreat htext
      · obtain ⟨hlow, hhigh⟩ := power_bounds hpos hfinite hlays.pos hlays.less hwithin
        obtain ⟨num, den, hden, hscale, hclose⟩ := exists_reads hlays.pos hlays.less hlow hhigh
        have hnear := reads_close hwithin hclose
        obtain ⟨hless, hround⟩ :=
          nearest_spec hden (reads_less hwithin (Nat.le_of_not_lt hgreat) hnear)
        rw [if_pos hless] at hscale
        exact ⟨_, hmagnitude.trans hscale, hless, found_close hwithin hnear hround⟩
    obtain ⟨r, hr, hfound⟩ := hfound
    exact ⟨t, r, htext, hlays.sign, hr, hfound, fun hm hk =>
      Option.some.inj (hr.symm.trans (hshort hm hk))⟩

/-- Two adjacent doubles, the greatest ones, have different texts that are read as one. -/
example : [0x7feffffffffffffe, 0x7fefffffffffffff].map (fun bits =>
    (DoubleWriting.text? bits).bind bits?) = List.replicate 2 (some 0x7fefffffffffffff) := by
  decide +kernel

end DoubleReading

namespace Binary64

/-- The text of a double has a significand of 53 bits, and its power of ten is a double as well. -/
def isShort (bits : UInt64) : Bool := (DoubleWriting.text? bits).any fun t =>
  t.significand < 2 * leadingBit && t.power.natAbs ≤ 22

/-- What has become of a double that was written as a text and read again: a finite double of the
same sign, at most six units in the last place away, and the same double if its text is short. -/
structure Recovers (written found : UInt64) : Prop where
  read : (DoubleWriting.text? written).bind DoubleReading.bits? = some found
  finite : isFinite found = true
  sign : isNegative found = isNegative written
  close : |toRat (magnitude found) - toRat (magnitude written)| ≤ 6 * unit (magnitude written)
  short : isShort written = true → found = written

/-- The text of a finite double can be read. -/
theorem exists_recovers {bits : UInt64} (h : isFinite bits = true) :
    ∃ found, Recovers bits found := by
  obtain ⟨t, r, htext, hsign, hread, ⟨hless, hclose⟩, hshort⟩ :=
    DoubleReading.exists_found (of_decide_eq_true h)
  have hbelow : r < signBit := hless.trans (by decide)
  refine ⟨withSign t.negative r, ?_, ?_, ?_, ?_, ?_⟩
  · rw [htext, Option.bind_some, DoubleReading.bits?, hread, Option.map_some]
  · rw [isFinite, magnitude_withSign hbelow]
    exact decide_eq_true hless
  · rw [isNegative_withSign hbelow, hsign]
  · rwa [magnitude_withSign hbelow]
  · intro h
    rw [isShort, htext, Option.any_some, Bool.and_eq_true] at h
    rw [hshort (of_decide_eq_true h.1) (of_decide_eq_true h.2), hsign, withSign_self]

end Binary64

end LockingDb
