import LockingDb.Proofs.DoubleText

namespace LockingDb

namespace DoubleReading

open Binary64

variable {n k j num den : Nat} {x y z w : ℚ}

/-- How far a rounding takes a number at most, as a factor. -/
def growth : ℚ := 1 + 2 ^ (-53 : ℤ) + 2 ^ (-105 : ℤ)

theorem one_le_growth : 1 ≤ growth := by norm_num [growth]

/-- Equal up to a number of roundings. -/
structure Near (k : Nat) (x y : ℚ) : Prop where
  le : x ≤ y * growth ^ k
  ge : y ≤ x * growth ^ k

theorem Near.trans (h : Near k x y) (h' : Near j y z) : Near (k + j) x z := by
  have hpos : 0 ≤ growth ^ k := pow_nonneg (zero_le_one.trans one_le_growth) k
  have hpos' : 0 ≤ growth ^ j := pow_nonneg (zero_le_one.trans one_le_growth) j
  constructor
  · calc x ≤ y * growth ^ k := h.le
      _ ≤ z * growth ^ j * growth ^ k := mul_le_mul_of_nonneg_right h'.le hpos
      _ = z * growth ^ (k + j) := by ring
  · calc z ≤ y * growth ^ j := h'.ge
      _ ≤ x * growth ^ k * growth ^ j := mul_le_mul_of_nonneg_right h.ge hpos'
      _ = x * growth ^ (k + j) := by ring

theorem Near.mul (h : Near k x y) (h' : Near j z w) (hx : 0 ≤ x) (hy : 0 ≤ y) (hz : 0 ≤ z)
    (hw : 0 ≤ w) : Near (k + j) (x * z) (y * w) := by
  have hpos : 0 ≤ growth ^ k := pow_nonneg (zero_le_one.trans one_le_growth) k
  constructor
  · calc x * z ≤ y * growth ^ k * (w * growth ^ j) := mul_le_mul h.le h'.le hz (by positivity)
      _ = y * w * growth ^ (k + j) := by ring
  · calc y * w ≤ x * growth ^ k * (z * growth ^ j) := mul_le_mul h.ge h'.ge hw (by positivity)
      _ = x * z * growth ^ (k + j) := by ring

theorem Near.inv (h : Near k x y) (hx : 0 < x) (hy : 0 < y) : Near k x⁻¹ y⁻¹ := by
  have hpos : 0 < growth ^ k := pow_pos (zero_lt_one.trans_le one_le_growth) k
  constructor
  · rw [inv_eq_one_div, div_le_iff₀ hx]
    have := h.ge
    field_simp
    linarith
  · rw [inv_eq_one_div, div_le_iff₀ hy]
    have := h.le
    field_simp
    linarith

theorem Near.div (h : Near k x y) (h' : Near j z w) (hx : 0 ≤ x) (hy : 0 ≤ y) (hz : 0 < z)
    (hw : 0 < w) : Near (k + j) (x / z) (y / w) := by
  rw [div_eq_mul_inv, div_eq_mul_inv]
  exact h.mul (h'.inv hz hw) hx hy (inv_nonneg.mpr hz.le) (inv_nonneg.mpr hw.le)

theorem Near.mono (h : Near k x y) (hk : k ≤ j) (hx : 0 ≤ x) (hy : 0 ≤ y) : Near j x y := by
  have hpow : growth ^ k ≤ growth ^ j := pow_le_pow_right₀ one_le_growth hk
  exact ⟨h.le.trans (mul_le_mul_of_nonneg_left hpow hy),
    h.ge.trans (mul_le_mul_of_nonneg_left hpow hx)⟩

theorem Near.close (h : Near k x y) : |x - y| ≤ y * (growth ^ k - 1) := by
  have hone : 1 ≤ growth ^ k := one_le_pow₀ one_le_growth
  obtain ⟨hle, hge⟩ := h
  rcases le_total x y with hxy | hxy
  · rw [abs_of_nonpos (by linarith)]
    have := mul_le_mul_of_nonneg_right hxy (show 0 ≤ growth ^ k - 1 by linarith)
    linarith
  · rw [abs_of_nonneg (by linarith)]
    linarith

theorem near_of_close (hx : 0 < x) (hclose : |y - x| ≤ x * 2 ^ (-53 : ℤ)) : Near 1 y x := by
  obtain ⟨hlow, hhigh⟩ := abs_le.mp hclose
  norm_num at hlow hhigh
  constructor
  · rw [pow_one, growth]
    norm_num
    linarith
  · rw [pow_one, growth]
    norm_num
    linarith

/-- A number that is not small is near to what it is rounded to. -/
theorem nearest_near (hden : 0 < den) (hmin : (2 : ℚ) ^ (-1022 : ℤ) ≤ num / den)
    (hless : (num : ℚ) / den < overflow) :
    nearest num den < infinityBits ∧ Near 1 (toRat (nearest num den)) (num / den) := by
  obtain ⟨hfinite, hclose⟩ := nearest_spec hden hless
  have hnormal : (2 : ℚ) ^ (-1075 : ℤ) ≤ num / den * 2 ^ (-53 : ℤ) := by
    rw [show (-1075 : ℤ) = -1022 + -53 by norm_num, zpow_add₀ two_ne_zero]
    gcongr
  rw [max_eq_left hnormal] at hclose
  exact ⟨hfinite, near_of_close (lt_of_lt_of_le (by positivity) hmin) hclose⟩

theorem ten_pow_lt_overflow (hk : k ≤ 308) : (10 : ℚ) ^ k < overflow := by
  have hten : (10 : ℚ) ^ (307 : ℤ) ≤ 2 ^ (1020 : ℤ) :=
    ShortestDecimal.ten_zpow_le_two_zpow (by decide) (by decide)
  have hunit : (0 : ℚ) < 2 ^ (970 : ℤ) := by positivity
  calc (10 : ℚ) ^ k ≤ 10 ^ 308 := pow_le_pow_right₀ (by norm_num) hk
    _ = 10 ^ (307 : ℤ) * 10 := by rw [zpow_ofNat, ← pow_succ]
    _ ≤ 2 ^ (50 + 970 : ℤ) * 10 := mul_le_mul_of_nonneg_right hten (by norm_num)
    _ = 2 ^ (50 : ℤ) * 10 * 2 ^ (970 : ℤ) := by
      rw [zpow_add₀ two_ne_zero]
      ring
    _ < overflow := mul_lt_mul_of_pos_right (by norm_num) hunit

theorem less_overflow (h : n < 10 ^ 17) : (n : ℚ) < overflow :=
  lt_trans (by exact_mod_cast h) (ten_pow_lt_overflow (k := 17) (by decide))

theorem pos_of_near (h : Near k (toRat n) y) (hy : 0 < y) : 0 < n := by
  refine Nat.pos_of_ne_zero fun hzero => ?_
  have hge := h.ge
  rw [hzero, toRat_zero, zero_mul] at hge
  linarith

/-- A whole number that is read gets near to itself. -/
theorem whole_near (hpos : 0 < n) (hless : (n : ℚ) < overflow) :
    nearest n 1 < infinityBits ∧ 0 < nearest n 1 ∧ Near 1 (toRat (nearest n 1)) n := by
  have hone : (1 : ℚ) ≤ n := by exact_mod_cast hpos
  have hquotient : (n : ℚ) / (1 : Nat) = n := by rw [Nat.cast_one, div_one]
  have hmin : (2 : ℚ) ^ (-1022 : ℤ) ≤ n :=
    (zpow_le_one_of_nonpos₀ one_le_two (by decide)).trans hone
  rw [← hquotient] at hmin hless
  obtain ⟨hfinite, hnear⟩ := nearest_near Nat.one_pos hmin hless
  rw [hquotient] at hnear
  exact ⟨hfinite, pos_of_near hnear (by linarith), hnear⟩

theorem powerOfTen_near (hk : k ≤ 308) :
    powerOfTen k < infinityBits ∧ 0 < powerOfTen k ∧ Near 1 (toRat (powerOfTen k)) (10 ^ k) := by
  have hcast : ((Nat.pow 10 k : Nat) : ℚ) = 10 ^ k := by
    rw [Nat.pow_eq, Nat.cast_pow, Nat.cast_ofNat]
  have hless := ten_pow_lt_overflow hk
  rw [← hcast] at hless ⊢
  exact whole_near (Nat.pow_pos (by decide)) hless

/-- What reading has in hand before it rounds for the last time: near to the number that is written,
or off by a small part of the least unit. -/
structure Reads (n : Nat) (e : Int) (num den : Nat) : Prop where
  pos : 0 < den
  scaled : scale n e = if nearest num den < infinityBits then some (nearest num den) else none
  close : |(num : ℚ) / den - n * 10 ^ e| ≤ n * 10 ^ e * (growth ^ 4 - 1) + 2 ^ (-1078 : ℤ)

theorem divideByPower_eq {f : Nat} (hk : k ≤ 308) :
    divideByPower f k = divide f (powerOfTen k) := by
  unfold divideByPower
  exact if_pos hk

theorem divideByPower_of_lt {f : Nat} (hf : 0 < f) (hk : 308 < k) (hk' : k ≤ 616) :
    divideByPower f k = divide (divide f (powerOfTen 308)) (powerOfTen (k - 308)) := by
  rw [divideByPower, if_neg (by omega), if_neg hf.ne', divideByPower_eq (by omega)]

theorem scale_ofNat (hk : k ≤ 308) : scale n k =
    if multiply (nearest n 1) (powerOfTen k) < infinityBits then
      some (multiply (nearest n 1) (powerOfTen k)) else none :=
  if_pos hk

theorem scale_neg (hk : 1 ≤ k) : scale n (-k) = some (divideByPower (nearest n 1) k) := by
  obtain ⟨k, rfl⟩ := Nat.exists_eq_succ_of_ne_zero (Nat.ne_of_gt hk)
  rfl

/-- Multiplying by a power of ten. -/
theorem reads_ofNat (hpos : 0 < n) (hless : n < 10 ^ 17) (hk : k ≤ 308) :
    ∃ num den, Reads n k num den := by
  obtain ⟨-, hf, hnear⟩ := whole_near hpos (less_overflow hless)
  obtain ⟨-, hp, hnear'⟩ := powerOfTen_near hk
  obtain ⟨num, den, hden, hmultiply, hx⟩ := multiply_eq (nearest n 1) (powerOfTen k)
  have hboth := hnear.mul hnear' (toRat_pos hf).le (Nat.cast_nonneg n) (toRat_pos hp).le
    (by positivity)
  refine ⟨num, den, hden, ?_, ?_⟩
  · rw [← hmultiply, scale_ofNat hk]
  · rw [hx, zpow_natCast]
    refine (hboth.mono (show 1 + 1 ≤ 4 by decide) ?_ (by positivity)).close.trans ?_
    · exact mul_nonneg (toRat_pos hf).le (toRat_pos hp).le
    · exact le_add_of_nonneg_right (by positivity)

theorem growth_le : growth ^ 4 ≤ 1 + 2 ^ (-51 : ℤ) + 2 ^ (-100 : ℤ) := by norm_num [growth]

/-- Numbers with a power of ten below zero are far from the overflow. -/
theorem less_of_close (hless : n < 10 ^ 17)
    (hclose : |x - n * 10 ^ (-(k : Int))| ≤
      n * 10 ^ (-(k : Int)) * (growth ^ 4 - 1) + 2 ^ (-1078 : ℤ)) : x < overflow := by
  have hn : (n : ℚ) ≤ 10 ^ 17 := by exact_mod_cast hless.le
  have hpower : (10 : ℚ) ^ (-(k : Int)) ≤ 1 := zpow_le_one_of_nonpos₀ (by norm_num) (by omega)
  have hvalue : (n : ℚ) * 10 ^ (-(k : Int)) ≤ 10 ^ 17 :=
    (mul_le_of_le_one_right (Nat.cast_nonneg n) hpower).trans hn
  have hgrowth : growth ^ 4 - 1 ≤ 1 := by
    have := growth_le
    norm_num at this ⊢
    linarith
  have hleast : (2 : ℚ) ^ (-1078 : ℤ) ≤ 1 := zpow_le_one_of_nonpos₀ one_le_two (by decide)
  have hover : (10 : ℚ) ^ 18 < overflow := ten_pow_lt_overflow (by decide)
  have hnonneg : 0 ≤ (n : ℚ) * 10 ^ (-(k : Int)) := by positivity
  have hmore := mul_le_of_le_one_right hnonneg hgrowth
  have := (abs_le.mp hclose).2
  linarith

/-- Dividing by a power of ten that has a double of its own. -/
theorem divided (hpos : 0 < n) (hless : n < 10 ^ 17) (hk : k ≤ 308) :
    ∃ num den, 0 < den ∧ divide (nearest n 1) (powerOfTen k) = nearest num den ∧
      (0 : ℚ) < num / den ∧ Near 2 ((num : ℚ) / den) (n * 10 ^ (-(k : Int))) := by
  obtain ⟨-, hf, hnear⟩ := whole_near hpos (less_overflow hless)
  obtain ⟨-, hp, hnear'⟩ := powerOfTen_near hk
  obtain ⟨num, den, hden, hdivide, hx⟩ := divide_eq (nearest n 1) hp
  have hboth := hnear.div hnear' (toRat_pos hf).le (Nat.cast_nonneg n) (toRat_pos hp)
    (by positivity)
  refine ⟨num, den, hden, hdivide, ?_, ?_⟩
  · rw [hx]
    exact div_pos (toRat_pos hf) (toRat_pos hp)
  · rwa [hx, zpow_neg, zpow_natCast, ← div_eq_mul_inv]

theorem Near.close_more (h : Near 2 x y) (hx : 0 < x) (hy : 0 ≤ y) :
    |x - y| ≤ y * (growth ^ 4 - 1) + 2 ^ (-1078 : ℤ) :=
  (h.mono (by decide) hx.le hy).close.trans (le_add_of_nonneg_right (by positivity))

theorem reads_neg (hpos : 0 < n) (hless : n < 10 ^ 17) (hone : 1 ≤ k) (hk : k ≤ 308) :
    ∃ num den, Reads n (-k) num den := by
  obtain ⟨num, den, hden, hdivide, hx, hnear⟩ := divided hpos hless hk
  have hclose := hnear.close_more hx (by positivity)
  refine ⟨num, den, hden, ?_, hclose⟩
  rw [if_pos (nearest_spec hden (less_of_close hless hclose)).1, ← hdivide, scale_neg hone,
    divideByPower_eq hk]

/-- A small number is divided by at least ten once more, and so is what rounding took away. -/
theorem divided_close {r p : ℚ} (hround : |y - x| ≤ max (x * 2 ^ (-53 : ℤ)) (2 ^ (-1075 : ℤ)))
    (hx : Near 2 x z) (hr : Near 1 r p) (hx0 : 0 < x) (hz : 0 < z) (hr0 : 0 < r) (hp : 10 ≤ p) :
    |y / r - z / p| ≤ z / p * (growth ^ 4 - 1) + 2 ^ (-1078 : ℤ) := by
  -- What the first division rounds away is relative to `x`, or at most half of the least unit.
  rcases le_total (2 ^ (-1075 : ℤ)) (x * 2 ^ (-53 : ℤ)) with hnormal | hsmall
  · rw [max_eq_left hnormal] at hround
    have hy := near_of_close hx0 hround
    have hy0 : 0 ≤ y := nonneg_of_mul_nonneg_left (hx0.le.trans hy.ge)
      (pow_pos (zero_lt_one.trans_le one_le_growth) 1)
    have hnear : Near (1 + 2 + 1) (y / r) (z / p) :=
      (hy.trans hx).div hr hy0 hz.le hr0 (by linarith)
    exact hnear.close.trans (le_add_of_nonneg_right (by positivity))
  · rw [max_eq_right hsmall] at hround
    have hnear : Near (2 + 1) (x / r) (z / p) := hx.div hr hx0.le hz.le hr0 (by linarith)
    have hnear' := (hnear.mono (show 2 + 1 ≤ 4 by decide) (by positivity)
      (div_nonneg hz.le (by linarith))).close
    have height : 8 ≤ r := by
      have hge := hr.ge
      have hgrowth : growth ^ 1 ≤ 10 / 8 := by norm_num [growth]
      have := mul_le_mul_of_nonneg_left hgrowth hr0.le
      linarith
    have hpart : |y / r - x / r| ≤ 2 ^ (-1078 : ℤ) := by
      rw [← sub_div, abs_div, abs_of_pos hr0, div_le_iff₀ hr0]
      calc |y - x| ≤ 2 ^ (-1075 : ℤ) := hround
        _ = 2 ^ (-1078 : ℤ) * 8 := by
          rw [show (8 : ℚ) = 2 ^ (3 : ℤ) by norm_num, ← zpow_add₀ two_ne_zero]
          rfl
        _ ≤ 2 ^ (-1078 : ℤ) * r := by gcongr
    calc |y / r - z / p| ≤ |y / r - x / r| + |x / r - z / p| := abs_sub_le _ _ _
      _ ≤ 2 ^ (-1078 : ℤ) + z / p * (growth ^ 4 - 1) := add_le_add hpart hnear'
      _ = z / p * (growth ^ 4 - 1) + 2 ^ (-1078 : ℤ) := add_comm _ _

/-- Dividing in two steps. The first one may reach the least unit, which the second one makes
smaller. -/
theorem reads_neg_far (hpos : 0 < n) (hless : n < 10 ^ 17) (hfar : 308 < k) (hk : k ≤ 616) :
    ∃ num den, Reads n (-k) num den := by
  have hpos' : (0 : ℚ) < n := by exact_mod_cast hpos
  obtain ⟨num, den, hden, hdivide, hx, hnear⟩ := divided hpos hless (le_refl 308)
  obtain ⟨-, hr, hnear'⟩ := powerOfTen_near (show k - 308 ≤ 308 by omega)
  obtain ⟨num', den', hden', hdivide', hx'⟩ := divide_eq (divide (nearest n 1) (powerOfTen 308)) hr
  have hfirst := nearest_spec hden (less_of_close hless (hnear.close_more hx (by positivity)))
  have hten : (10 : ℚ) ≤ 10 ^ (k - 308) := by
    calc (10 : ℚ) = 10 ^ 1 := (pow_one _).symm
      _ ≤ 10 ^ (k - 308) := pow_le_pow_right₀ (by norm_num) (by omega)
  have hclose := divided_close hfirst.2 hnear hnear' hx (by positivity) (toRat_pos hr) hten
  have hvalue : (n : ℚ) * 10 ^ (-((308 : Nat) : Int)) / 10 ^ (k - 308) = n * 10 ^ (-(k : Int)) := by
    rw [← zpow_natCast, mul_div_assoc, ← zpow_sub₀ (by norm_num),
      show -((308 : Nat) : Int) - (k - 308 : Nat) = -(k : Int) by omega]
  rw [hvalue, ← hdivide, ← hx'] at hclose
  refine ⟨num', den', hden', ?_, hclose⟩
  rw [if_pos (nearest_spec hden' (less_of_close hless hclose)).1, ← hdivide', scale_neg (by omega),
    divideByPower_of_lt (whole_near hpos (less_overflow hless)).2.1 hfar hk]

theorem exists_reads {e : Int} (hpos : 0 < n) (hless : n < 10 ^ 17) (hlow : -616 ≤ e)
    (hhigh : e ≤ 308) : ∃ num den, Reads n e num den := by
  rcases le_or_gt 0 e with he | he
  · obtain ⟨k, rfl⟩ := Int.eq_ofNat_of_zero_le he
    exact reads_ofNat hpos hless (by omega)
  · obtain ⟨k, rfl⟩ : ∃ k : Nat, e = -k := ⟨(-e).toNat, by omega⟩
    by_cases hk : k ≤ 308
    · exact reads_neg hpos hless (by omega) hk
    · exact reads_neg_far hpos hless (not_le.mp hk) (by omega)

section Magnitude

variable {bits : Nat} {e : Int} {v : ℚ}

theorem within_le (h : Within (parts bits).1 (parts bits).2 v) :
    v ≤ (2 ^ 53 - 1 / 2) * unit bits := by
  have hclose := (abs_le.mp h.close).2
  have hmost := toRat_le bits
  unfold toRat unit at *
  linarith

theorem within_ge (hbits : 0 < bits) (h : Within (parts bits).1 (parts bits).2 v) :
    unit bits / 2 ≤ v :=
  h.pos (parts_fst_pos hbits)

/-- The power of ten of a decimal that stands for a magnitude. -/
theorem power_bounds (hbits : 0 < bits) (hfinite : bits < infinityBits) (hpos : 0 < n)
    (hless : n < 10 ^ 17) (h : Within (parts bits).1 (parts bits).2 (n * 10 ^ e)) :
    -616 ≤ e ∧ e ≤ 308 := by
  have hpower : (0 : ℚ) < 10 ^ e := by positivity
  have hone : (1 : ℚ) ≤ n := by exact_mod_cast hpos
  have hmost : (n : ℚ) ≤ 10 ^ (17 : ℤ) := by exact_mod_cast hless.le
  have hlow : (10 : ℚ) ^ (-325 : ℤ) ≤ 10 ^ (17 + e) := by
    calc (10 : ℚ) ^ (-325 : ℤ) ≤ 2 ^ (-1075 : ℤ) :=
          ShortestDecimal.ten_zpow_le_two_zpow (by decide) (by decide)
      _ ≤ unit bits / 2 ^ 1 := least_part_le bits 1
      _ ≤ n * 10 ^ e := by
          rw [pow_one]
          exact within_ge hbits h
      _ ≤ 10 ^ (17 : ℤ) * 10 ^ e := mul_le_mul_of_nonneg_right hmost hpower.le
      _ = 10 ^ (17 + e) := (zpow_add₀ (by norm_num) _ _).symm
  have hhigh : (10 : ℚ) ^ e < 10 ^ (309 : ℤ) := by
    have hunit := unit_pos bits
    calc (10 : ℚ) ^ e ≤ n * 10 ^ e := le_mul_of_one_le_left hpower.le hone
      _ ≤ (2 ^ 53 - 1 / 2) * unit bits := within_le h
      _ < 2 ^ 53 * unit bits := mul_lt_mul_of_pos_right (by norm_num) hunit
      _ ≤ 2 ^ (1024 : ℤ) := unit_le hfinite
      _ ≤ 10 ^ (309 : ℤ) := ShortestDecimal.two_zpow_le_ten_zpow (by decide) (by decide)
  have hlow' := (zpow_le_zpow_iff_right₀ (by norm_num)).mp hlow
  have hhigh' := (zpow_lt_zpow_iff_right₀ (by norm_num)).mp hhigh
  omega

/-- What reading has in hand is little more than four units away. -/
theorem reads_close (h : Within (parts bits).1 (parts bits).2 v)
    (hclose : |x - v| ≤ v * (growth ^ 4 - 1) + 2 ^ (-1078 : ℤ)) :
    |x - v| ≤ 33 / 8 * unit bits := by
  have hunit := unit_pos bits
  have hleast : (2 : ℚ) ^ (-1078 : ℤ) ≤ unit bits / 2 ^ 4 := least_part_le bits 4
  have hgrowth : growth ^ 4 - 1 ≤ 2 ^ (-51 : ℤ) + 2 ^ (-100 : ℤ) := by
    have := growth_le
    linarith
  have hv := within_le h
  have hpart : v * (growth ^ 4 - 1) ≤ 2 ^ 53 * unit bits * (2 ^ (-51 : ℤ) + 2 ^ (-100 : ℤ)) := by
    refine mul_le_mul (by linarith) hgrowth ?_ (by positivity)
    exact sub_nonneg.mpr (one_le_pow₀ one_le_growth)
  norm_num only at hpart
  linarith

/-- Below the five greatest magnitudes nothing is read as infinity. -/
theorem reads_less (h : Within (parts bits).1 (parts bits).2 v) (hbits : bits + 6 ≤ infinityBits)
    (hclose : |x - v| ≤ 33 / 8 * unit bits) : x < overflow := by
  have hx := (abs_le.mp hclose).2
  have hv := (abs_le.mp h.close).2
  have hgreat : (0 : ℚ) < 2 ^ (971 : ℤ) := by positivity
  rw [overflow_eq]
  rcases (parts_snd_le (show bits < infinityBits by omega)).eq_or_lt with hpower | hless
  · have hm : ((parts bits).1 : ℚ) + 6 ≤ 2 * leadingBit := by
      have hpack := pack_parts bits
      have hm : (parts bits).1 + 6 ≤ 2 * leadingBit := by
        rw [hpower] at hpack
        unfold pack infinityBits leadingBit at *
        omega
      exact_mod_cast hm
    unfold unit at hx
    rw [hpower] at hx hv
    have hmost := mul_le_mul_of_nonneg_right hm hgreat.le
    generalize (2 : ℚ) ^ (971 : ℤ) = u at *
    linarith
  · have hhalf : unit bits ≤ 2 ^ (971 - 1 : ℤ) := zpow_le_zpow_right₀ one_le_two (by omega)
    have hmost := within_le h
    rw [zpow_sub_one₀ two_ne_zero] at hhalf
    rw [cast_leadingBit]
    generalize (2 : ℚ) ^ (971 : ℤ) = u at *
    linarith

/-- The magnitude that is found is at most six units away. -/
theorem found_close (h : Within (parts bits).1 (parts bits).2 v)
    (hclose : |x - v| ≤ 33 / 8 * unit bits)
    (hround : |y - x| ≤ max (x * 2 ^ (-53 : ℤ)) (2 ^ (-1075 : ℤ))) :
    |y - toRat bits| ≤ 6 * unit bits := by
  have hunit := unit_pos bits
  have hv : |v - toRat bits| ≤ unit bits / 2 := h.close
  have hmost := within_le h
  have hx := (abs_le.mp hclose).2
  have hlast : max (x * 2 ^ (-53 : ℤ)) (2 ^ (-1075 : ℤ)) ≤ 9 / 8 * unit bits := by
    refine max_le ?_ ?_
    · norm_num only
      linarith
    · have hleast : (2 : ℚ) ^ (-1075 : ℤ) ≤ unit bits / 2 ^ 1 := least_part_le bits 1
      linarith
  calc |y - toRat bits| ≤ |y - x| + (|x - v| + |v - toRat bits|) :=
        (abs_sub_le y x (toRat bits)).trans (add_le_add_right (abs_sub_le x v (toRat bits)) _)
    _ ≤ 9 / 8 * unit bits + (33 / 8 * unit bits + unit bits / 2) :=
        add_le_add (hround.trans hlast) (add_le_add hclose hv)
    _ ≤ 6 * unit bits := by linarith

/-- The first powers of ten have a double of their own. -/
theorem toRat_powerOfTen (hk : k ≤ 22) : toRat (powerOfTen k) = 10 ^ k := by
  have hcast : ((Nat.pow 10 k : Nat) : ℚ) / (1 : Nat) = 10 ^ k := by
    rw [Nat.pow_eq, Nat.cast_pow, Nat.cast_ofNat, Nat.cast_one, div_one]
  have hm : 5 ^ k < 2 * leadingBit :=
    lt_of_le_of_lt (Nat.pow_le_pow_right (by decide) hk) (by decide)
  have hpower : ((Nat.pow 10 k : Nat) : ℚ) / (1 : Nat) = (5 ^ k : Nat) * 2 ^ (k : Int) := by
    rw [hcast, zpow_natCast, Nat.cast_pow, ← mul_pow]
    norm_num
  rw [powerOfTen, toRat_nearest Nat.one_pos (hcast ▸ ten_pow_lt_overflow (by omega)) (by omega) hm
    hpower, hcast]

/-- A short decimal is read exactly. -/
theorem scale_short (hbits : 0 < bits) (hfinite : bits < infinityBits) (hshort : n < 2 * leadingBit)
    (he : e.natAbs ≤ 22) (h : Within (parts bits).1 (parts bits).2 (n * 10 ^ e)) :
    scale n e = some bits := by
  have hformed := formed_parts bits
  have hm := parts_fst_pos hbits
  have hfinite' : pack (parts bits).1 (parts bits).2 < infinityBits := by rwa [pack_parts]
  have hn : toRat (nearest n 1) = n := by
    have hone : (n : ℚ) / (1 : Nat) = n := by rw [Nat.cast_one, div_one]
    have hless : (n : ℚ) / (1 : Nat) < overflow := by
      rw [hone]
      exact less_overflow (hshort.trans (by decide))
    rw [toRat_nearest Nat.one_pos hless (show -1074 ≤ 0 by decide) hshort
      (by rw [hone, zpow_zero, mul_one]), hone]
  rcases le_or_gt 0 e with hsign | hsign
  · obtain ⟨k, rfl⟩ := Int.eq_ofNat_of_zero_le hsign
    have hk : k ≤ 22 := by omega
    obtain ⟨num, den, hden, hmultiply, hx⟩ := multiply_eq (nearest n 1) (powerOfTen k)
    rw [hn, toRat_powerOfTen hk, ← zpow_natCast] at hx
    rw [← hx] at h
    rw [scale_ofNat (by omega), hmultiply, h.nearest_eq hden hm hformed hfinite', pack_parts,
      if_pos hfinite]
  · obtain ⟨k, rfl⟩ : ∃ k : Nat, e = -k := ⟨(-e).toNat, by omega⟩
    have hk : k ≤ 22 := by omega
    obtain ⟨-, hp, -⟩ := powerOfTen_near (show k ≤ 308 by omega)
    obtain ⟨num, den, hden, hdivide, hx⟩ := divide_eq (nearest n 1) hp
    rw [hn, toRat_powerOfTen hk] at hx
    rw [zpow_neg, zpow_natCast, ← div_eq_mul_inv, ← hx] at h
    rw [scale_neg (by omega), divideByPower_eq (by omega), hdivide,
      h.nearest_eq hden hm hformed hfinite', pack_parts]

end Magnitude

end DoubleReading

end LockingDb
