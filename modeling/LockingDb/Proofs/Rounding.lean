import LockingDb.Binary64
import Mathlib.Algebra.Order.Field.Power
import Mathlib.Algebra.Order.Ring.Rat
import Mathlib.Tactic.FieldSimp
import Mathlib.Tactic.Linarith
import Mathlib.Tactic.NormNum
import Mathlib.Tactic.Positivity
import Mathlib.Tactic.Ring

namespace LockingDb

namespace Binary64

variable {m num den : Nat} {q : Int}

/-- The number that a finite magnitude stands for. -/
def toRat (x : Nat) : ℚ := (parts x).1 * 2 ^ (parts x).2

/-- What the last place of a finite magnitude counts. -/
def unit (x : Nat) : ℚ := 2 ^ (parts x).2

theorem cast_leadingBit : (leadingBit : ℚ) = 2 ^ 52 := by norm_num [leadingBit]

theorem leadingBit_mul (q : Int) : (leadingBit : ℚ) * 2 ^ q = 2 ^ (q + 52) := by
  rw [cast_leadingBit, zpow_add₀ two_ne_zero, mul_comm]
  rfl

theorem twice_leadingBit_mul (q : Int) : 2 * (leadingBit : ℚ) * 2 ^ q = 2 ^ (q + 53) := by
  rw [mul_assoc, leadingBit_mul, ← zpow_one_add₀ two_ne_zero]
  congr 1
  ring

theorem le_of_cast_lt_add_one {a b : Nat} (h : (a : ℚ) < b + 1) : a ≤ b :=
  Nat.lt_succ_iff.mp (by exact_mod_cast h)

theorem quotient_pos : 0 < (quotient m q).2 := by
  cases q with
  | ofNat k => exact Nat.one_pos
  | negSucc k => exact Nat.two_pow_pos (k + 1)

theorem quotient_fst_pos (h : 0 < m) : 0 < (quotient m q).1 := by
  cases q with
  | ofNat k => exact Nat.mul_pos h (Nat.two_pow_pos k)
  | negSucc k => exact h

theorem quotient_eq (m : Nat) (q : Int) :
    ((quotient m q).1 : ℚ) / (quotient m q).2 = m * 2 ^ q := by
  cases q with
  | ofNat k => simp [quotient]
  | negSucc k => simp [quotient, zpow_negSucc, div_eq_mul_inv]

/-- Two cross products compare as the number does with a power of two. -/
theorem cross_lt_iff (hden : 0 < den) :
    num * (quotient 1 q).2 < den * (quotient 1 q).1 ↔ (num : ℚ) / den < 2 ^ q := by
  have hpos : (0 : ℚ) < (quotient 1 q).2 := by exact_mod_cast quotient_pos
  have hden' : (0 : ℚ) < den := by exact_mod_cast hden
  have hpower := quotient_eq 1 q
  rw [Nat.cast_one, one_mul] at hpower
  rw [← hpower, div_lt_div_iff₀ hden' hpos, mul_comm den]
  exact_mod_cast Iff.rfl

theorem floorLog2_spec (hnum : 0 < num) (hden : 0 < den) :
    (2 : ℚ) ^ floorLog2 num den ≤ num / den ∧ (num : ℚ) / den < 2 ^ (floorLog2 num den + 1) := by
  have hden' : (0 : ℚ) < den := by exact_mod_cast hden
  have hnumLow : (2 : ℚ) ^ (num.log2 : Int) ≤ num := by
    exact_mod_cast Nat.log2_self_le hnum.ne'
  have hnumHigh : (num : ℚ) < 2 ^ ((num.log2 : Int) + 1) := by
    exact_mod_cast Nat.lt_log2_self (n := num)
  have hdenLow : (2 : ℚ) ^ (den.log2 : Int) ≤ den := by
    exact_mod_cast Nat.log2_self_le hden.ne'
  have hdenHigh : (den : ℚ) < 2 ^ ((den.log2 : Int) + 1) := by
    exact_mod_cast Nat.lt_log2_self (n := den)
  generalize he : (num.log2 : Int) - den.log2 = e
  have hlow : (2 : ℚ) ^ (e - 1) ≤ num / den := by
    rw [le_div_iff₀ hden']
    calc (2 : ℚ) ^ (e - 1) * den ≤ 2 ^ (e - 1) * 2 ^ ((den.log2 : Int) + 1) := by gcongr
      _ = 2 ^ (num.log2 : Int) := by
        rw [← zpow_add₀ (by norm_num)]
        congr 1
        omega
      _ ≤ num := hnumLow
  have hhigh : (num : ℚ) / den < 2 ^ (e + 1) := by
    rw [div_lt_iff₀ hden']
    calc (num : ℚ) < 2 ^ ((num.log2 : Int) + 1) := hnumHigh
      _ = 2 ^ (e + 1) * 2 ^ (den.log2 : Int) := by
        rw [← zpow_add₀ (by norm_num)]
        congr 1
        omega
      _ ≤ 2 ^ (e + 1) * den := by gcongr
  unfold floorLog2
  rw [he]
  simp only [cross_lt_iff hden]
  split
  next h => exact ⟨hlow, by rwa [sub_add_cancel]⟩
  next h => exact ⟨not_lt.mp h, hhigh⟩

/-- A rounded quotient is at most a half away. -/
theorem roundHalfEven_close (num : Nat) (hden : 0 < den) :
    |(roundHalfEven num den : ℚ) - num / den| ≤ 1 / 2 := by
  have hden' : (0 : ℚ) < den := by exact_mod_cast hden
  have hsplit : den * (num / den) + num % den = num := Nat.div_add_mod num den
  have hrest : num % den < den := Nat.mod_lt num hden
  have hbounds : 2 * num ≤ 2 * (den * roundHalfEven num den) + den ∧
      2 * (den * roundHalfEven num den) ≤ 2 * num + den := by
    unfold roundHalfEven
    simp only
    split
    next => omega
    split
    next => rw [Nat.mul_add]; omega
    next =>
      have hbit := Nat.mod_two_eq_zero_or_one (num / den)
      rcases hbit with hbit | hbit
      all_goals rw [hbit, Nat.mul_add]; omega
  obtain ⟨hle, hge⟩ := hbounds
  have hle' : (2 : ℚ) * num ≤ 2 * (den * roundHalfEven num den) + den := by exact_mod_cast hle
  have hge' : (2 : ℚ) * (den * roundHalfEven num den) ≤ 2 * num + den := by exact_mod_cast hge
  rw [abs_le]
  constructor
  · rw [le_sub_iff_add_le, neg_add_eq_sub, sub_le_iff_le_add, div_le_iff₀ hden']
    linarith
  · rw [sub_le_iff_le_add, ← sub_le_iff_le_add', le_div_iff₀ hden']
    linarith

/-- A whole number that is at most a half away is the rounded quotient, if it is even or nearer
than that. -/
theorem roundHalfEven_eq (hden : 0 < den) {k : Nat} (hclose : |(num : ℚ) / den - k| ≤ 1 / 2)
    (htie : |(num : ℚ) / den - k| = 1 / 2 → k % 2 = 0) : roundHalfEven num den = k := by
  have hden' : (0 : ℚ) < den := by exact_mod_cast hden
  have hsplit : den * (num / den) + num % den = num := Nat.div_add_mod num den
  have hrest : num % den < den := Nat.mod_lt num hden
  have hscale : (num : ℚ) = den * (num / den) := by field_simp
  obtain ⟨hlow, hhigh⟩ := abs_le.mp hclose
  have hle : 2 * num ≤ 2 * (den * k) + den := by
    have h : (2 : ℚ) * num ≤ 2 * (den * k) + den := by rw [hscale]; nlinarith
    exact_mod_cast h
  have hge : 2 * (den * k) ≤ 2 * num + den := by
    have h : (2 : ℚ) * (den * k) ≤ 2 * num + den := by rw [hscale]; nlinarith
    exact_mod_cast h
  have heven (h : 2 * num = 2 * (den * k) + den ∨ 2 * (den * k) = 2 * num + den) : k % 2 = 0 := by
    apply htie
    rcases h with h | h
    · have h' : (2 : ℚ) * num = 2 * (den * k) + den := by exact_mod_cast h
      rw [show (num : ℚ) / den - k = 1 / 2 by field_simp; linarith, abs_of_pos (by norm_num)]
    · have h' : (2 : ℚ) * (den * k) = 2 * num + den := by exact_mod_cast h
      rw [show (num : ℚ) / den - k = -(1 / 2) by field_simp; linarith, abs_neg,
        abs_of_pos (by norm_num)]
  -- Rounding goes down or up by one, so only these two quotients are near enough.
  have hnear : num / den = k ∨ num / den + 1 = k := by
    by_contra hfar
    rcases not_or.mp hfar with ⟨hne, hne'⟩
    rcases lt_or_gt_of_ne hne with h | h
    · have := Nat.mul_le_mul_left den (show num / den + 2 ≤ k by omega)
      rw [Nat.mul_add] at this
      omega
    · have := Nat.mul_le_mul_left den (show k + 1 ≤ num / den by omega)
      rw [Nat.mul_add] at this
      omega
  unfold roundHalfEven
  simp only
  rcases hnear with hk | hk
  · rw [hk] at hsplit ⊢
    split
    next => rfl
    split
    next => omega
    next => rw [heven (by omega), Nat.add_zero]
  · rw [← hk, Nat.mul_add] at hle hge heven
    split
    next => omega
    split
    next => exact hk
    next => have := heven (by omega); omega

/-- The significand and the power of two of a finite magnitude. A significand is full unless the
power is the least one. -/
structure Formed (m : Nat) (q : Int) : Prop where
  least : -1074 ≤ q
  full : -1074 < q → leadingBit ≤ m
  less : m < 2 * leadingBit

/-- The magnitude with the given parts. -/
def pack (m : Nat) (q : Int) : Nat := (q + 1074).toNat * leadingBit + m

theorem formed_parts (x : Nat) : Formed (parts x).1 (parts x).2 := by
  unfold parts
  split
  next h =>
    unfold leadingBit at h
    exact ⟨le_refl _, fun hless => absurd hless (lt_irrefl _), by simp only [leadingBit]; omega⟩
  next h =>
    unfold leadingBit at *
    exact ⟨by simp only; omega, fun _ => Nat.le_add_left _ _,
      by simp only [leadingBit]; omega⟩

theorem pack_parts (x : Nat) : pack (parts x).1 (parts x).2 = x := by
  unfold parts pack leadingBit
  split
  next h => simp only; omega
  next h => simp only; omega

theorem Formed.parts_pack (h : Formed m q) : parts (pack m q) = (m, q) := by
  obtain ⟨hleast, hfull, hless⟩ := h
  unfold parts pack leadingBit at *
  split
  next => rw [Prod.mk.injEq]; omega
  next => rw [Prod.mk.injEq]; omega

theorem parts_fst_pos {x : Nat} (h : 0 < x) : 0 < (parts x).1 := by
  unfold parts leadingBit
  split
  · exact h
  · exact Nat.add_pos_right _ (by decide)

theorem parts_snd_le {x : Nat} (h : x < infinityBits) : (parts x).2 ≤ 971 := by
  unfold parts leadingBit infinityBits at *
  split
  · exact show (-1074 : Int) ≤ 971 by decide
  · simp only
    omega

theorem unit_pos (x : Nat) : 0 < unit x := by
  unfold unit
  positivity

theorem unit_le_toRat {x : Nat} (h : 0 < x) : unit x ≤ toRat x := by
  have hm : (1 : ℚ) ≤ (parts x).1 := by exact_mod_cast parts_fst_pos h
  exact le_mul_of_one_le_left (unit_pos x).le hm

/-- All finite magnitudes are below `2 ^ 1024`. -/
theorem unit_le {x : Nat} (h : x < infinityBits) : 2 ^ 53 * unit x ≤ 2 ^ (1024 : ℤ) := by
  have hunit : unit x ≤ 2 ^ (971 : ℤ) := zpow_le_zpow_right₀ one_le_two (parts_snd_le h)
  calc 2 ^ 53 * unit x ≤ 2 * leadingBit * 2 ^ (971 : ℤ) := by
        rw [cast_leadingBit, ← pow_succ']
        gcongr
    _ = 2 ^ (1024 : ℤ) := twice_leadingBit_mul 971

theorem least_le_unit (x : Nat) : (2 : ℚ) ^ (-1074 : ℤ) ≤ unit x :=
  zpow_le_zpow_right₀ one_le_two (formed_parts x).least

theorem least_part_le (x k : Nat) : (2 : ℚ) ^ (-1074 - k : ℤ) ≤ unit x / 2 ^ k := by
  rw [zpow_sub₀ two_ne_zero, zpow_natCast]
  exact div_le_div_of_nonneg_right (least_le_unit x) (by positivity)

/-- A significand has at most 53 bits. -/
theorem toRat_le (x : Nat) : toRat x ≤ (2 ^ 53 - 1) * unit x := by
  have hless : ((parts x).1 : ℚ) + 1 ≤ 2 * leadingBit := by exact_mod_cast (formed_parts x).less
  rw [cast_leadingBit] at hless
  exact mul_le_mul_of_nonneg_right (by linarith) (unit_pos x).le

/-- A significand that rounding carried out of its range moves on to the next power. -/
theorem pack_carry (h : -1074 ≤ q) : pack (2 * leadingBit) q = pack leadingBit (q + 1) := by
  unfold pack leadingBit
  omega

theorem toRat_pack (hleast : -1074 ≤ q) (hfull : -1074 < q → leadingBit ≤ m)
    (hle : m ≤ 2 * leadingBit) : toRat (pack m q) = m * 2 ^ q := by
  rcases Nat.lt_or_eq_of_le hle with hless | rfl
  · rw [toRat, Formed.parts_pack ⟨hleast, hfull, hless⟩]
  · have hnext : Formed leadingBit (q + 1) := ⟨by omega, fun _ => le_refl _, by decide⟩
    rw [pack_carry hleast, toRat, hnext.parts_pack, zpow_add_one₀ two_ne_zero]
    push_cast
    ring

theorem scaled_eq (num : Nat) (hden : 0 < den) (q : Int) : 0 < den * (quotient 1 q).1 ∧
    ((num * (quotient 1 q).2 : Nat) : ℚ) / (den * (quotient 1 q).1 : Nat) = num / den / 2 ^ q := by
  have hpower := quotient_eq 1 q
  rw [Nat.cast_one, one_mul] at hpower
  have hbelow : (0 : ℚ) < (quotient 1 q).2 := by exact_mod_cast quotient_pos
  have habove : 0 < (quotient 1 q).1 := quotient_fst_pos Nat.one_pos
  refine ⟨Nat.mul_pos hden habove, ?_⟩
  rw [← hpower]
  push_cast
  field_simp

/-- How a number is rounded: a significand for a power of two, at most half a unit away. -/
structure Rounds (x : ℚ) (m : Nat) (q : Int) : Prop where
  least : -1074 ≤ q
  full : -1074 < q → leadingBit ≤ m
  le : m ≤ 2 * leadingBit
  above : -1074 < q → 2 ^ (q + 52) ≤ x
  close : |m * 2 ^ q - x| ≤ 2 ^ q / 2

/-- The power of two that the last place counts after rounding. -/
def roundingPower (num den : Nat) : Int := max (floorLog2 num den - 52) (-1074)

theorem nearest_eq_min (hnum : 0 < num) (hq : roundingPower num den = q) :
    nearest num den =
      min (pack (roundHalfEven (num * (quotient 1 q).2) (den * (quotient 1 q).1)) q)
        infinityBits := by
  subst hq
  exact if_neg hnum.ne'

theorem roundingPower_spec (hnum : 0 < num) (hden : 0 < den) :
    -1074 ≤ roundingPower num den ∧
      (-1074 < roundingPower num den → (2 : ℚ) ^ (roundingPower num den + 52) ≤ num / den) ∧
      (num : ℚ) / den < 2 ^ (roundingPower num den + 53) := by
  obtain ⟨hlow, hhigh⟩ := floorLog2_spec hnum hden
  unfold roundingPower
  refine ⟨le_max_right _ _, fun hless => ?_, hhigh.trans_le ?_⟩
  · rwa [max_eq_left (by omega), sub_add_cancel]
  · exact zpow_le_zpow_right₀ one_le_two (by omega)

theorem roundingPower_eq (hnum : 0 < num) (hden : 0 < den) (hleast : -1074 ≤ q)
    (hlow : -1074 < q → (2 : ℚ) ^ (q + 52) ≤ num / den) (hhigh : (num : ℚ) / den < 2 ^ (q + 53)) :
    roundingPower num den = q := by
  obtain ⟨hlog, hlog'⟩ := floorLog2_spec hnum hden
  have hle : floorLog2 num den < q + 53 :=
    (zpow_lt_zpow_iff_right₀ one_lt_two).mp (hlog.trans_lt hhigh)
  unfold roundingPower
  rcases hleast.eq_or_lt with rfl | hless
  · exact max_eq_right (by omega)
  · have hge : q + 52 < floorLog2 num den + 1 :=
      (zpow_lt_zpow_iff_right₀ one_lt_two).mp ((hlow hless).trans_lt hlog')
    rw [max_eq_left (by omega)]
    omega

/-- A number is rounded to the nearest significand, and to infinity beyond the greatest one. -/
theorem exists_nearest (hnum : 0 < num) (hden : 0 < den) :
    ∃ m q, Rounds (num / den) m q ∧ nearest num den = min (pack m q) infinityBits := by
  obtain ⟨hleast, hlow, hhigh⟩ := roundingPower_spec hnum hden
  have hnearest := nearest_eq_min hnum (rfl : roundingPower num den = _)
  generalize roundingPower num den = q at *
  obtain ⟨hpos, hscaled⟩ := scaled_eq num hden q
  have hround := roundHalfEven_close (num * (quotient 1 q).2) hpos
  generalize roundHalfEven (num * (quotient 1 q).2) (den * (quotient 1 q).1) = m at *
  rw [hscaled] at hround
  have hunit : (0 : ℚ) < 2 ^ q := by positivity
  have hx : (num : ℚ) / den = num / den / 2 ^ q * 2 ^ q := by field_simp
  generalize (num : ℚ) / den / 2 ^ q = y at *
  obtain ⟨hbelow, habove⟩ := abs_le.mp hround
  refine ⟨m, q, ⟨hleast, fun hless => ?_, ?_, hlow, ?_⟩, hnearest⟩
  · have hy := hlow hless
    rw [hx, ← leadingBit_mul, mul_le_mul_iff_left₀ hunit] at hy
    exact le_of_cast_lt_add_one (by linarith)
  · rw [hx, ← twice_leadingBit_mul, mul_lt_mul_iff_left₀ hunit] at hhigh
    refine le_of_cast_lt_add_one ?_
    push_cast
    linarith
  · rw [hx, ← sub_mul, abs_mul, abs_of_pos hunit]
    nlinarith

theorem Rounds.toRat_pack {x : ℚ} (h : Rounds x m q) : toRat (pack m q) = m * 2 ^ q :=
  Binary64.toRat_pack h.least h.full h.le

/-- What rounding may add or take away: half a unit, which is small beside the number unless the
unit is the least one. -/
theorem Rounds.close_max {x : ℚ} (h : Rounds x m q) :
    |toRat (pack m q) - x| ≤ max (x * 2 ^ (-53 : ℤ)) (2 ^ (-1075 : ℤ)) := by
  rw [h.toRat_pack]
  refine h.close.trans ?_
  rcases h.least.eq_or_lt with rfl | hless
  · refine le_max_of_le_right (le_of_eq ?_)
    rw [show (-1074 : ℤ) = -1075 + 1 by norm_num, zpow_add_one₀ two_ne_zero]
    ring
  · refine le_max_of_le_left ?_
    have habove := h.above hless
    calc (2 : ℚ) ^ q / 2 = 2 ^ (q + 52) * 2 ^ (-53 : ℤ) := by
          rw [← zpow_add₀ two_ne_zero, div_eq_mul_inv, ← zpow_sub_one₀ two_ne_zero]
          congr 1
          omega
      _ ≤ x * 2 ^ (-53 : ℤ) := by gcongr

/-- The least number that rounds to infinity lies half a unit above the greatest magnitude. -/
def overflow : ℚ := (2 ^ 54 - 1) * 2 ^ (970 : ℤ)

theorem overflow_eq : overflow = (2 * leadingBit - 1 / 2) * 2 ^ (971 : ℤ) := by
  rw [overflow, show (971 : ℤ) = 970 + 1 by rfl, zpow_add_one₀ two_ne_zero, cast_leadingBit]
  ring

theorem Rounds.pack_lt {x : ℚ} (h : Rounds x m q) (hx : x < overflow) :
    pack m q < infinityBits := by
  have hleast := h.least
  have hle := h.le
  rw [overflow_eq] at hx
  have hgreat : (0 : ℚ) < 2 ^ (971 : ℤ) := by positivity
  have hpower : q ≤ 971 := by
    by_contra hmore
    have habove := h.above (by omega)
    have hfull : 2 * (leadingBit : ℚ) * 2 ^ (971 : ℤ) ≤ 2 ^ (q + 52) := by
      rw [twice_leadingBit_mul]
      exact zpow_le_zpow_right₀ one_le_two (by omega)
    generalize (2 : ℚ) ^ (971 : ℤ) = u at *
    linarith
  rcases hpower.eq_or_lt with rfl | hless
  · have hclose := (abs_le.mp h.close).2
    have hm : (m : ℚ) < 2 * leadingBit := by
      refine lt_of_mul_lt_mul_right ?_ hgreat.le
      linarith
    have hm' : m < 2 * leadingBit := by exact_mod_cast hm
    unfold pack infinityBits leadingBit at *
    omega
  · unfold pack infinityBits leadingBit at *
    omega

theorem nearest_eq_of_close (hnum : 0 < num) (hden : 0 < den) (hpower : roundingPower num den = q)
    (hclose : |(num : ℚ) / den - m * 2 ^ q| ≤ 2 ^ q / 2)
    (htie : |(num : ℚ) / den - m * 2 ^ q| = 2 ^ q / 2 → m % 2 = 0) :
    nearest num den = min (pack m q) infinityBits := by
  have hunit : (0 : ℚ) < 2 ^ q := by positivity
  obtain ⟨hpos, hscaled⟩ := scaled_eq num hden q
  have hdistance : |(num : ℚ) / den / 2 ^ q - m| = |(num : ℚ) / den - m * 2 ^ q| / 2 ^ q := by
    rw [← abs_of_pos hunit, ← abs_div, abs_of_pos hunit, sub_div, mul_div_cancel_right₀ _ hunit.ne']
  have hround : roundHalfEven (num * (quotient 1 q).2) (den * (quotient 1 q).1) = m := by
    refine roundHalfEven_eq hpos ?_ fun h => htie ?_
    · rw [hscaled, hdistance, div_le_iff₀ hunit]
      linarith
    · rw [hscaled, hdistance, div_eq_iff hunit.ne'] at h
      linarith
  rw [nearest_eq_min hnum hpower, hround]

/-- The numbers that round to a magnitude. They reach half a unit to both sides, and a quarter
below a power of two; the ends belong to an even significand. -/
structure Within (m : Nat) (q : Int) (x : ℚ) : Prop where
  close : |x - m * 2 ^ q| ≤ 2 ^ q / 2
  tie : |x - m * 2 ^ q| = 2 ^ q / 2 → m % 2 = 0
  edge : m = leadingBit → -1074 < q → m * 2 ^ q - 2 ^ q / 4 ≤ x

theorem Within.of_above {x : ℚ} (hge : m * 2 ^ q ≤ x) (hless : x - m * 2 ^ q < 2 ^ q / 2) :
    Within m q x := by
  have hunit : (0 : ℚ) < 2 ^ q := by positivity
  have hdistance : |x - m * 2 ^ q| < 2 ^ q / 2 := by rwa [abs_of_nonneg (sub_nonneg.mpr hge)]
  exact ⟨hdistance.le, fun heq => absurd heq hdistance.ne, fun _ _ => by linarith⟩

theorem Within.of_below {x : ℚ} (hle : x ≤ m * 2 ^ q) (hless : m * 2 ^ q - x < 2 ^ q / 2)
    (hedge : m ≠ leadingBit) : Within m q x := by
  have hdistance : |x - m * 2 ^ q| < 2 ^ q / 2 := by
    rwa [abs_sub_comm, abs_of_nonneg (sub_nonneg.mpr hle)]
  exact ⟨hdistance.le, fun heq => absurd heq hdistance.ne, fun heq => absurd heq hedge⟩

theorem Within.pos {x : ℚ} (h : Within m q x) (hm : 0 < m) : 2 ^ q / 2 ≤ x := by
  have hm' : (1 : ℚ) ≤ m := by exact_mod_cast hm
  have hunit : (0 : ℚ) < 2 ^ q := by positivity
  have hleast := le_mul_of_one_le_left hunit.le hm'
  have hlow := (abs_le.mp h.close).1
  linarith

theorem Within.below {x : ℚ} (h : Within m q x) (hm : m < 2 * leadingBit) : x < 2 ^ (q + 53) := by
  have hm' : (m : ℚ) + 1 ≤ 2 * leadingBit := by exact_mod_cast hm
  have hunit : (0 : ℚ) < 2 ^ q := by positivity
  have hmost := mul_le_mul_of_nonneg_right hm' hunit.le
  have hhigh := (abs_le.mp h.close).2
  rw [← twice_leadingBit_mul]
  linarith

/-- Just below a power of two the unit is half as large, and the significand is rounded up. -/
theorem nearest_eq_edge (hnum : 0 < num) (hden : 0 < den) (hpower : -1074 < q)
    (hlow : leadingBit * 2 ^ q - 2 ^ q / 4 ≤ (num : ℚ) / den)
    (hhigh : (num : ℚ) / den < leadingBit * 2 ^ q) :
    nearest num den = min (pack leadingBit q) infinityBits := by
  have hhalf : (2 : ℚ) ^ q = 2 ^ (q - 1) * 2 := by rw [← zpow_add_one₀ two_ne_zero, sub_add_cancel]
  rw [hhalf] at hlow hhigh
  have hunit : (0 : ℚ) < 2 ^ (q - 1) := by positivity
  have hpower' : roundingPower num den = q - 1 := by
    refine roundingPower_eq hnum hden (by omega) (fun _ => ?_) ?_
    · have hone : (1 : ℚ) ≤ leadingBit := by rw [cast_leadingBit]; norm_num
      have hmore := mul_le_mul_of_nonneg_right hone hunit.le
      rw [← leadingBit_mul]
      linarith
    · rw [← twice_leadingBit_mul]
      linarith
  have hclose : |(num : ℚ) / den - (2 * leadingBit : Nat) * 2 ^ (q - 1)| ≤ 2 ^ (q - 1) / 2 := by
    rw [abs_le]
    push_cast
    constructor <;> linarith
  rw [nearest_eq_of_close hnum hden hpower' hclose fun _ => Nat.mul_mod_right 2 leadingBit,
    pack_carry (by omega), sub_add_cancel]

theorem Within.nearest_eq (h : Within m q (num / den)) (hden : 0 < den) (hm : 0 < m)
    (hformed : Formed m q) (hfinite : pack m q < infinityBits) : nearest num den = pack m q := by
  have hunit : (0 : ℚ) < 2 ^ q := by positivity
  have hnum : 0 < num := by
    have hpos : (0 : ℚ) < num / den := lt_of_lt_of_le (by positivity) (h.pos hm)
    rw [div_pos_iff_of_pos_right (by exact_mod_cast hden)] at hpos
    exact_mod_cast hpos
  by_cases habove : -1074 < q → (2 : ℚ) ^ (q + 52) ≤ num / den
  · have hpower := roundingPower_eq hnum hden hformed.least habove (h.below hformed.less)
    rw [nearest_eq_of_close hnum hden hpower h.close h.tie, min_eq_left hfinite.le]
  · obtain ⟨hmore, hunder⟩ := Classical.not_imp.mp habove
    rw [not_le, ← leadingBit_mul] at hunder
    have hlead : m = leadingBit := by
      refine Nat.le_antisymm (le_of_cast_lt_add_one ?_) (hformed.full hmore)
      have hlow := (abs_le.mp h.close).1
      refine lt_of_mul_lt_mul_right ?_ hunit.le
      linarith
    have hedge := h.edge hlead hmore
    subst hlead
    rw [nearest_eq_edge hnum hden hmore hedge hunder, min_eq_left hfinite.le]

theorem toRat_zero : toRat 0 = 0 := by
  rw [toRat, show parts 0 = (0, -1074) from rfl, Nat.cast_zero, zero_mul]

theorem toRat_pos {x : Nat} (h : 0 < x) : 0 < toRat x := (unit_pos x).trans_le (unit_le_toRat h)

theorem nearest_zero : nearest 0 den = 0 := if_pos rfl

/-- A number below the overflow is rounded to a finite magnitude near it. -/
theorem nearest_spec (hden : 0 < den) (hless : (num : ℚ) / den < overflow) :
    nearest num den < infinityBits ∧ |toRat (nearest num den) - num / den| ≤
      max ((num : ℚ) / den * 2 ^ (-53 : ℤ)) (2 ^ (-1075 : ℤ)) := by
  rcases Nat.eq_zero_or_pos num with rfl | hnum
  · rw [nearest_zero, toRat_zero, Nat.cast_zero, zero_div, sub_zero, abs_zero]
    exact ⟨by decide, le_max_of_le_right (by positivity)⟩
  · obtain ⟨m, q, hrounds, hnearest⟩ := exists_nearest hnum hden
    have hfinite := hrounds.pack_lt hless
    rw [hnearest, min_eq_left hfinite.le]
    exact ⟨hfinite, hrounds.close_max⟩

/-- A number with a significand of 53 bits is not changed by rounding. -/
theorem Rounds.exact {x : ℚ} {r : Nat} {p : Int} (h : Rounds x r p) (hleast : -1074 ≤ q)
    (hm : m < 2 * leadingBit) (hx : x = m * 2 ^ q) : r * 2 ^ p = x := by
  have hpower : p ≤ q := by
    rcases h.least.eq_or_lt with rfl | hmore
    · exact hleast
    · have hm' : (m : ℚ) < 2 * leadingBit := by exact_mod_cast hm
      have hbelow : x < 2 ^ (q + 53) := by
        rw [hx, ← twice_leadingBit_mul]
        exact mul_lt_mul_of_pos_right hm' (by positivity)
      have := (zpow_lt_zpow_iff_right₀ one_lt_two).mp ((h.above hmore).trans_lt hbelow)
      omega
  obtain ⟨k, rfl⟩ : ∃ k : Nat, q = p + k := ⟨(q - p).toNat, by omega⟩
  have hunit : (0 : ℚ) < 2 ^ p := by positivity
  have hx' : x = (m * 2 ^ k : Nat) * 2 ^ p := by
    rw [hx, zpow_add₀ two_ne_zero, zpow_natCast]
    push_cast
    ring
  obtain ⟨hlow, hhigh⟩ := abs_le.mp h.close
  rw [hx'] at hlow hhigh
  have hr : r = m * 2 ^ k := by
    refine Nat.le_antisymm (le_of_cast_lt_add_one ?_) (le_of_cast_lt_add_one ?_)
    · exact lt_of_mul_lt_mul_right (by linarith) hunit.le
    · exact lt_of_mul_lt_mul_right (by linarith) hunit.le
  rw [hx', hr]

theorem toRat_nearest (hden : 0 < den) (hless : (num : ℚ) / den < overflow)
    (hleast : -1074 ≤ q) (hm : m < 2 * leadingBit) (hx : (num : ℚ) / den = m * 2 ^ q) :
    toRat (nearest num den) = num / den := by
  rcases Nat.eq_zero_or_pos num with rfl | hnum
  · rw [nearest_zero, toRat_zero, Nat.cast_zero, zero_div]
  · obtain ⟨r, p, hrounds, hnearest⟩ := exists_nearest hnum hden
    rw [hnearest, min_eq_left (hrounds.pack_lt hless).le, hrounds.toRat_pack,
      hrounds.exact hleast hm hx]

theorem multiply_eq (x y : Nat) : ∃ num den, 0 < den ∧ multiply x y = nearest num den ∧
    (num : ℚ) / den = toRat x * toRat y := by
  refine ⟨(quotient ((parts x).1 * (parts y).1) ((parts x).2 + (parts y).2)).1,
    (quotient ((parts x).1 * (parts y).1) ((parts x).2 + (parts y).2)).2, quotient_pos, rfl, ?_⟩
  rw [quotient_eq, zpow_add₀ two_ne_zero]
  unfold toRat
  push_cast
  ring

theorem divide_eq (x : Nat) {y : Nat} (hy : 0 < y) : ∃ num den, 0 < den ∧
    divide x y = nearest num den ∧ (num : ℚ) / den = toRat x / toRat y := by
  refine ⟨(quotient (parts x).1 ((parts x).2 - (parts y).2)).1,
    (quotient (parts x).1 ((parts x).2 - (parts y).2)).2 * (parts y).1,
    Nat.mul_pos quotient_pos (parts_fst_pos hy), rfl, ?_⟩
  rw [Nat.cast_mul, ← div_div, quotient_eq, zpow_sub₀ two_ne_zero]
  unfold toRat
  field_simp

end Binary64

end LockingDb
