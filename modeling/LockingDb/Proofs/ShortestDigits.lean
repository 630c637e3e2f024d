import LockingDb.ShortestDecimal
import LockingDb.Proofs.Rounding

namespace LockingDb

namespace ShortestDecimal

open Binary64

variable {m num den c steps : Nat} {q e d : Int}

/-- Both sides of a comparison are scaled alike. -/
theorem common_scaled (c : Nat) (e : Int) (num den : Nat) :
    ∃ s : ℚ, 0 < s ∧ ((common c e num den).1 : ℚ) = c * 10 ^ e * den * s ∧
      ((common c e num den).2 : ℚ) = num * s := by
  cases e with
  | ofNat k =>
    refine ⟨1, one_pos, ?_, (mul_one _).symm⟩
    simp [common]
  | negSucc k =>
    refine ⟨10 ^ (k + 1), by positivity, ?_, by simp [common]⟩
    rw [zpow_negSucc]
    simp only [common]
    push_cast
    field_simp

theorem common_le_iff (hden : 0 < den) :
    (common c e num den).1 ≤ (common c e num den).2 ↔ c * (10 : ℚ) ^ e ≤ num / den := by
  obtain ⟨s, hs, hleft, hright⟩ := common_scaled c e num den
  have hden' : (0 : ℚ) < den := by exact_mod_cast hden
  rw [le_div_iff₀ hden', ← mul_le_mul_iff_left₀ hs, ← hleft, ← hright, Nat.cast_le]

theorem common_ge_iff (hden : 0 < den) :
    (common c e num den).2 ≤ (common c e num den).1 ↔ (num : ℚ) / den ≤ c * 10 ^ e := by
  obtain ⟨s, hs, hleft, hright⟩ := common_scaled c e num den
  have hden' : (0 : ℚ) < den := by exact_mod_cast hden
  rw [div_le_iff₀ hden', ← mul_le_mul_iff_left₀ hs, ← hleft, ← hright, Nat.cast_le]

theorem common_div (num : Nat) (hden : 0 < den) (e : Int) :
    ((common 1 e num den).2 : ℚ) / (common 1 e num den).1 = num / den / 10 ^ e := by
  obtain ⟨s, hs, hleft, hright⟩ := common_scaled 1 e num den
  have hden' : (0 : ℚ) < den := by exact_mod_cast hden
  have hpower : (0 : ℚ) < 10 ^ e := by positivity
  rw [hleft, hright]
  push_cast
  field_simp

theorem common_fst_pos (num : Nat) (hden : 0 < den) (e : Int) : 0 < (common 1 e num den).1 := by
  obtain ⟨s, hs, hleft, -⟩ := common_scaled 1 e num den
  have hden' : (0 : ℚ) < den := by exact_mod_cast hden
  have hpos : (0 : ℚ) < (common 1 e num den).1 := by
    rw [hleft]
    push_cast
    positivity
  exact_mod_cast hpos

/-- The ends of the interval in which all numbers round to `m * 2 ^ q`. -/
theorem interval_eq (hm : 0 < m) (q : Int) :
    ((interval m q).1 : ℚ) * 2 ^ (q - 2) =
        m * 2 ^ q - (if m = leadingBit ∧ -1074 < q then 2 ^ q / 4 else 2 ^ q / 2) ∧
      ((interval m q).2 : ℚ) * 2 ^ (q - 2) = m * 2 ^ q + 2 ^ q / 2 := by
  have hquarter : (2 : ℚ) ^ q = 2 ^ (q - 2) * 4 := by
    rw [show (4 : ℚ) = 2 ^ (2 : ℤ) by norm_num, ← zpow_add₀ two_ne_zero, sub_add_cancel]
  rw [hquarter]
  constructor
  · unfold interval
    simp only
    split
    · rw [Nat.cast_sub (by omega)]
      push_cast
      ring
    · rw [Nat.cast_sub (by omega)]
      push_cast
      ring
  · unfold interval
    push_cast
    ring

theorem readsBack_iff (hm : 0 < m) : readsBack m q c e = true ↔ Within m q (c * 10 ^ e) := by
  obtain ⟨hlow, hhigh⟩ := interval_eq hm q
  have hunit : (0 : ℚ) < 2 ^ q := by positivity
  unfold readsBack
  simp only
  have hlowDen : 0 < (quotient (interval m q).1 (q - 2)).2 := quotient_pos
  have hhighDen : 0 < (quotient (interval m q).2 (q - 2)).2 := quotient_pos
  have hlow' := quotient_eq (interval m q).1 (q - 2)
  have hhigh' := quotient_eq (interval m q).2 (q - 2)
  rw [hlow] at hlow'
  rw [hhigh] at hhigh'
  split
  next heven =>
    rw [Bool.and_eq_true, decide_eq_true_eq, decide_eq_true_eq, common_ge_iff hlowDen,
      common_le_iff hhighDen, hlow', hhigh']
    constructor
    · rintro ⟨hbelow, habove⟩
      refine ⟨?_, fun _ => heven, fun hlead hmore => ?_⟩
      · rw [abs_le]
        constructor
        · split at hbelow <;> linarith
        · linarith
      · rwa [if_pos ⟨hlead, hmore⟩] at hbelow
    · rintro ⟨hclose, -, hedge⟩
      obtain ⟨hbelow, habove⟩ := abs_le.mp hclose
      refine ⟨?_, by linarith⟩
      split
      next hlead => exact hedge hlead.1 hlead.2
      next => linarith
  next hodd =>
    rw [Bool.and_eq_true, decide_eq_true_eq, decide_eq_true_eq, ← not_le, ← not_le,
      common_le_iff hlowDen, common_ge_iff hhighDen, hlow', hhigh', not_le, not_le]
    -- The least full significand is even: the interval that is narrower below is not this one.
    have hne : m ≠ leadingBit := fun hlead => hodd (hlead ▸ rfl)
    rw [if_neg fun hlead => hne hlead.1]
    constructor
    · rintro ⟨hbelow, habove⟩
      have hclose : |(c : ℚ) * 10 ^ e - m * 2 ^ q| < 2 ^ q / 2 := by
        rw [abs_lt]
        constructor <;> linarith
      exact ⟨hclose.le, fun htie => absurd htie hclose.ne, fun hlead => absurd hlead hne⟩
    · rintro ⟨hclose, htie, -⟩
      have hstrict := lt_of_le_of_ne hclose fun heq => hodd (htie heq)
      obtain ⟨hbelow, habove⟩ := abs_lt.mp hstrict
      exact ⟨by linarith, by linarith⟩

/-- Climbing stops at the power of ten just below the number, if it starts near enough. -/
theorem climb_spec (hden : 0 < den) (hlow : (10 : ℚ) ^ d ≤ num / den)
    (hhigh : (num : ℚ) / den < 10 ^ (d + steps + 1)) :
    (10 : ℚ) ^ climb num den steps d ≤ num / den ∧
      (num : ℚ) / den < 10 ^ (climb num den steps d + 1) := by
  induction steps generalizing d with
  | zero =>
    rw [Nat.cast_zero, add_zero] at hhigh
    exact ⟨hlow, hhigh⟩
  | succ steps ih =>
    unfold climb
    simp only
    split
    next h =>
      rw [common_le_iff hden, Nat.cast_one, one_mul] at h
      refine ih h (hhigh.trans_eq ?_)
      push_cast
      congr 1
      ring
    next h =>
      rw [common_le_iff hden, Nat.cast_one, one_mul, not_le] at h
      exact ⟨hlow, h⟩

/-- The logarithm of two to the base ten lies between `59 / 196` and `28 / 93`. -/
theorem ten_zpow_le_two_zpow {a b : Int} (hlow : 196 * a ≤ 59 * b) (hhigh : 93 * a ≤ 28 * b) :
    (10 : ℚ) ^ a ≤ 2 ^ b := by
  have hten : (0 : ℚ) < 10 ^ a := by positivity
  have htwo : (0 : ℚ) < 2 ^ b := by positivity
  rcases le_or_gt 0 b with hb | hb
  · refine le_of_pow_le_pow_left₀ (n := 196) (by norm_num) htwo.le ?_
    calc ((10 : ℚ) ^ a) ^ 196 = 10 ^ (196 * a) := by rw [← zpow_natCast, ← zpow_mul, mul_comm]; rfl
      _ ≤ 10 ^ (59 * b) := zpow_le_zpow_right₀ (by norm_num) hlow
      _ = (10 ^ 59) ^ b := by rw [zpow_mul]; rfl
      _ ≤ (2 ^ 196) ^ b := zpow_le_zpow_left₀ hb (by norm_num) (by norm_num)
      _ = (2 ^ b) ^ 196 := by rw [← zpow_natCast, ← zpow_natCast, ← zpow_mul, ← zpow_mul, mul_comm]
  · refine le_of_pow_le_pow_left₀ (n := 93) (by norm_num) htwo.le ?_
    calc ((10 : ℚ) ^ a) ^ 93 = 10 ^ (93 * a) := by rw [← zpow_natCast, ← zpow_mul, mul_comm]; rfl
      _ ≤ 10 ^ (28 * b) := zpow_le_zpow_right₀ (by norm_num) hhigh
      _ = (10 ^ 28) ^ b := by rw [zpow_mul]; rfl
      _ ≤ (2 ^ 93) ^ b := by
        have hbase : (2 : ℚ) ^ 93 ≤ 10 ^ 28 := by norm_num
        have h := zpow_le_zpow_left₀ (show 0 ≤ -b by omega) (by norm_num) hbase
        rwa [zpow_neg, zpow_neg, inv_le_inv₀ (by positivity) (by positivity)] at h
      _ = (2 ^ b) ^ 93 := by rw [← zpow_natCast, ← zpow_natCast, ← zpow_mul, ← zpow_mul, mul_comm]

theorem two_zpow_le_ten_zpow {a b : Int} (hlow : 59 * b ≤ 196 * a) (hhigh : 28 * b ≤ 93 * a) :
    (2 : ℚ) ^ b ≤ 10 ^ a := by
  have h : (10 : ℚ) ^ (-a) ≤ 2 ^ (-b) := ten_zpow_le_two_zpow (by omega) (by omega)
  rwa [zpow_neg, zpow_neg, inv_le_inv₀ (by positivity) (by positivity)] at h

/-- The guess for the power of ten is not too high, and three steps too low at most. -/
theorem power_guess {l : Int} (hlow : -1075 ≤ l) (hhigh : l < 1024) :
    (10 : ℚ) ^ (l * 30103 / 100000 - 1) ≤ 2 ^ l ∧
      (2 : ℚ) ^ (l + 1) ≤ 10 ^ (l * 30103 / 100000 - 1 + 3 + 1) :=
  ⟨ten_zpow_le_two_zpow (by omega) (by omega), two_zpow_le_ten_zpow (by omega) (by omega)⟩

/-- The power of ten of the first digit. -/
theorem floorLog10_spec (hnum : 0 < num) (hden : 0 < den)
    (hleast : (2 : ℚ) ^ (-1074 : ℤ) ≤ num / den) (hmost : (num : ℚ) / den < 2 ^ (1024 : ℤ)) :
    (10 : ℚ) ^ floorLog10 num den ≤ num / den ∧
      (num : ℚ) / den < 10 ^ (floorLog10 num den + 1) := by
  obtain ⟨hlow, hhigh⟩ := floorLog2_spec hnum hden
  have hfrom : -1074 < floorLog2 num den + 1 :=
    (zpow_lt_zpow_iff_right₀ one_lt_two).mp (hleast.trans_lt hhigh)
  have hto : floorLog2 num den < 1024 :=
    (zpow_lt_zpow_iff_right₀ one_lt_two).mp (hlow.trans_lt hmost)
  obtain ⟨hguess, hguess'⟩ := power_guess (by omega) hto
  exact climb_spec hden (hguess.trans hlow) (hhigh.trans_le hguess')

/-- The two neighbours of a number on a grid. -/
theorem grid_bounds (num : Nat) (hden : 0 < den) (e : Int) :
    ((common 1 e num den).2 / (common 1 e num den).1 : Nat) * (10 : ℚ) ^ e ≤ num / den ∧
      (num : ℚ) / den <
        ((common 1 e num den).2 / (common 1 e num den).1 + 1 : Nat) * (10 : ℚ) ^ e := by
  have hstep := common_fst_pos num hden e
  have hstep' : (0 : ℚ) < (common 1 e num den).1 := by exact_mod_cast hstep
  have hpower : (0 : ℚ) < 10 ^ e := by positivity
  have hquotient := common_div num hden e
  generalize (common 1 e num den).1 = step at *
  generalize (common 1 e num den).2 = value at *
  have hlow : ((value / step : Nat) : ℚ) ≤ value / step := by
    rw [le_div_iff₀ hstep']
    exact_mod_cast Nat.div_mul_le_self value step
  have hhigh : (value : ℚ) / step < (value / step + 1 : Nat) := by
    rw [div_lt_iff₀ hstep']
    exact_mod_cast Nat.lt_mul_of_div_lt (Nat.lt_succ_self _) hstep
  rw [hquotient] at hlow hhigh
  exact ⟨(le_div_iff₀ hpower).mp hlow, (div_lt_iff₀ hpower).mp hhigh⟩

theorem roundHalfEven_neighbour (num den : Nat) :
    roundHalfEven num den = num / den ∨ roundHalfEven num den = num / den + 1 := by
  unfold roundHalfEven
  simp only
  split
  · exact .inl rfl
  split
  · exact .inr rfl
  · omega

/-- A decimal that is found reads back, and it is one of the two neighbours on its grid. -/
theorem onGrid?_some (hm : 0 < m) (hden : 0 < den) (h : onGrid? m q num den e = some c) :
    Within m q (c * 10 ^ e) ∧ (c : ℚ) * 10 ^ e ≤ num / den + 10 ^ e := by
  obtain ⟨hlow, hhigh⟩ := grid_bounds num hden e
  have hnext := roundHalfEven_neighbour (common 1 e num den).2 (common 1 e num den).1
  have hpower : (0 : ℚ) < 10 ^ e := by positivity
  unfold onGrid? at h
  simp only at h
  have hneighbour : readsBack m q c e = true ∧
      (c = (common 1 e num den).2 / (common 1 e num den).1 ∨
        c = (common 1 e num den).2 / (common 1 e num den).1 + 1) := by
    split at h
    next hbelow habove => exact Option.some.inj h ▸ ⟨hbelow, .inl rfl⟩
    next hbelow habove => exact Option.some.inj h ▸ ⟨habove, .inr rfl⟩
    next hbelow habove =>
      obtain rfl := Option.some.inj h
      refine ⟨?_, hnext⟩
      rcases hnext with heq | heq
      · rwa [heq]
      · rwa [heq]
    next => cases h
  obtain ⟨hreads, hc⟩ := hneighbour
  refine ⟨(readsBack_iff hm).mp hreads, ?_⟩
  rcases hc with rfl | rfl
  · linarith
  · push_cast
    linarith

theorem onGrid?_none (hm : 0 < m) (h : onGrid? m q num den e = none) :
    ¬Within m q (((common 1 e num den).2 / (common 1 e num den).1 : Nat) * 10 ^ e) ∧
      ¬Within m q (((common 1 e num den).2 / (common 1 e num den).1 + 1 : Nat) * 10 ^ e) := by
  unfold onGrid? at h
  simp only at h
  rw [← readsBack_iff hm, ← readsBack_iff hm]
  split at h
  next => cases h
  next => cases h
  next => cases h
  next hbelow habove => exact ⟨ne_true_of_eq_false hbelow, ne_true_of_eq_false habove⟩

/-- A grid that is fine beside the number has a decimal that reads back: seventeen digits are
enough. -/
theorem onGrid?_ne_none (hm : 0 < m) (hless : m < 2 * leadingBit) (hden : 0 < den)
    (hx : (num : ℚ) / den = m * 2 ^ q) (hfine : (10 : ℚ) ^ (e + 16) ≤ num / den) :
    onGrid? m q num den e ≠ none := by
  intro hnone
  obtain ⟨hbelow, habove⟩ := onGrid?_none hm hnone
  obtain ⟨hlow, hhigh⟩ := grid_bounds num hden e
  generalize (common 1 e num den).2 / (common 1 e num den).1 = n at *
  rw [hx] at hlow hhigh hfine
  rw [zpow_add₀ (by norm_num)] at hfine
  have hunit : (0 : ℚ) < 2 ^ q := by positivity
  have hless' : (m : ℚ) ≤ 2 * leadingBit := by exact_mod_cast hless.le
  have hnext : ((n + 1 : Nat) : ℚ) * 10 ^ e = n * 10 ^ e + 10 ^ e := by push_cast; ring
  rw [hnext] at hhigh habove
  by_cases hnear : (n : ℚ) * 10 ^ e + 10 ^ e - m * 2 ^ q < 2 ^ q / 2
  · exact habove (.of_above hhigh.le hnear)
  have hfar := not_lt.mp hnear
  -- A step is shorter than a unit, and shorter than half a unit at a power of two.
  have hstep : (10 : ℚ) ^ e < 2 ^ q := by
    have hmost := mul_le_mul_of_nonneg_right hless' hunit.le
    rw [cast_leadingBit] at hmost
    norm_num only at hfine hmost
    linarith
  refine hbelow (.of_below hlow (by linarith) fun hm_eq => hnear ?_)
  rw [hm_eq, cast_leadingBit] at hfine hlow ⊢
  norm_num only at hfine
  linarith

/-- The search ends on the first grid with a decimal that reads back, and there is one. -/
theorem search_spec (hm : 0 < m) (hless : m < 2 * leadingBit) (hden : 0 < den)
    (hx : (num : ℚ) / den = m * 2 ^ q) (hsteps : 0 < steps)
    (hfine : (10 : ℚ) ^ (e - steps + 17) ≤ num / den) :
    ∃ c e', search m q num den steps e = (c, e') ∧ Within m q (c * 10 ^ e') ∧
      (c : ℚ) * 10 ^ e' ≤ num / den + 10 ^ e' ∧ e - steps < e' ∧ e' ≤ e := by
  induction steps generalizing e with
  | zero => exact absurd hsteps (Nat.lt_irrefl 0)
  | succ steps ih =>
    unfold search
    split
    next c hc =>
      obtain ⟨hwithin, hle⟩ := onGrid?_some hm hden hc
      exact ⟨c, e, rfl, hwithin, hle, by push_cast; omega, le_refl e⟩
    next hnone =>
      have hmore : 0 < steps := by
        refine Nat.pos_of_ne_zero fun hzero => ?_
        subst hzero
        refine onGrid?_ne_none hm hless hden hx (le_of_eq_of_le ?_ hfine) hnone
        congr 1
        push_cast
        ring
      obtain ⟨c, e', hsearch, hwithin, hle, hlow, hhigh⟩ := ih hmore (e := e - 1)
        (le_of_eq_of_le (by congr 1; push_cast; ring) hfine)
      exact ⟨c, e', hsearch, hwithin, hle, by push_cast; omega, by omega⟩

/-- The decimal of a positive finite magnitude reads back, and it has at most seventeen digits. -/
theorem ofMagnitude_spec {bits : Nat} (hpos : 0 < bits) (hfinite : bits < infinityBits) :
    ∃ c e, ofMagnitude bits = (c, e) ∧ Within (parts bits).1 (parts bits).2 (c * 10 ^ e) ∧
      0 < c ∧ c ≤ 10 ^ 17 ∧ -341 < e ∧ e < 309 := by
  have hformed := formed_parts bits
  have hm := parts_fst_pos hpos
  have hnum : 0 < (quotient (parts bits).1 (parts bits).2).1 := quotient_fst_pos hm
  have hden : 0 < (quotient (parts bits).1 (parts bits).2).2 := quotient_pos
  have hx : ((quotient (parts bits).1 (parts bits).2).1 : ℚ) /
      (quotient (parts bits).1 (parts bits).2).2 = toRat bits := quotient_eq _ _
  have hleast : (2 : ℚ) ^ (-1074 : ℤ) ≤ toRat bits :=
    (least_le_unit bits).trans (unit_le_toRat hpos)
  have hmost : toRat bits < 2 ^ (1024 : ℤ) := by
    have hunit := unit_pos bits
    exact (toRat_le bits).trans_lt (lt_of_lt_of_le (by linarith) (unit_le hfinite))
  obtain ⟨hlow, hhigh⟩ := floorLog10_spec hnum hden (hx ▸ hleast) (hx ▸ hmost)
  obtain ⟨c, e, hsearch, hwithin, hle, hfrom, hto⟩ := search_spec hm hformed.less hden hx
    (show 0 < 17 by decide) (e := floorLog10 _ _)
    (by rw [Nat.cast_ofNat, sub_add_cancel]; exact hlow)
  replace hsearch : ofMagnitude bits = (c, e) := hsearch
  rw [hx] at hlow hhigh hle
  rw [Nat.cast_ofNat] at hfrom
  generalize floorLog10 _ _ = d at *
  have hd : -325 < d := by
    have hten : (10 : ℚ) ^ (-324 : ℤ) ≤ 2 ^ (-1074 : ℤ) :=
      ten_zpow_le_two_zpow (by decide) (by decide)
    have := (zpow_lt_zpow_iff_right₀ (by norm_num)).mp ((hten.trans hleast).trans_lt hhigh)
    omega
  have hd' : d < 309 := by
    have hten : (2 : ℚ) ^ (1024 : ℤ) ≤ 10 ^ (309 : ℤ) :=
      two_zpow_le_ten_zpow (by decide) (by decide)
    exact (zpow_lt_zpow_iff_right₀ (by norm_num)).mp ((hlow.trans_lt hmost).trans_le hten)
  have hpower : (0 : ℚ) < 10 ^ e := by positivity
  refine ⟨c, e, hsearch, hwithin, ?_, ?_, by omega, by omega⟩
  · refine Nat.pos_of_ne_zero fun hzero => ?_
    have hclose := hwithin.close
    rw [hzero, Nat.cast_zero, zero_mul, zero_sub, abs_neg, abs_of_nonneg] at hclose
    · have := unit_le_toRat hpos
      have := unit_pos bits
      unfold toRat unit at *
      linarith
    · positivity
  · have hdigits : (c : ℚ) * 10 ^ e < (10 ^ 17 + 1 : Nat) * 10 ^ e := by
      calc (c : ℚ) * 10 ^ e ≤ toRat bits + 10 ^ e := hle
        _ < 10 ^ (d + 1) + 10 ^ e := by gcongr
        _ ≤ 10 ^ (17 + e) + 10 ^ e :=
          add_le_add_left (zpow_le_zpow_right₀ (by norm_num) (by omega)) _
        _ = (10 ^ 17 + 1 : Nat) * 10 ^ e := by
          rw [zpow_add₀ (by norm_num)]
          push_cast
          ring
    exact Nat.lt_succ_iff.mp (by exact_mod_cast lt_of_mul_lt_mul_right hdigits hpower.le)

end ShortestDecimal

end LockingDb
