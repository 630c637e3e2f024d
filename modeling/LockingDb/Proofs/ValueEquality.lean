import LockingDb.Proofs.DoubleRoundTrip
import LockingDb.Value
import Mathlib.Order.Monotone.Basic

namespace LockingDb

namespace Binary64

variable {a b bits : UInt64} {x y : Nat}

/-- What a double stands for. -/
inductive Number where
  | finite (x : ℚ)
  | infinite (negative : Bool)

/-- The number of a double, or that it is no number. -/
def number? (bits : UInt64) : Option Number :=
  if magnitude bits < infinityBits then
    some (.finite (if isNegative bits then -toRat (magnitude bits) else toRat (magnitude bits)))
  else if magnitude bits = infinityBits then some (.infinite (isNegative bits))
  else none

/-- Two doubles are one number. What is no number is not equal to anything. -/
def Equals (a b : UInt64) : Prop := ∃ n, number? a = some n ∧ number? b = some n

theorem toRat_injective : Function.Injective toRat := by
  refine (strictMono_nat_of_lt_succ fun x => ?_).injective
  rw [toRat_succ]
  exact lt_add_of_pos_right _ (unit_pos x)

theorem toRat_eq_zero : toRat x = 0 ↔ x = 0 := by
  rw [← toRat_zero]
  exact toRat_injective.eq_iff

theorem toRat_nonneg : 0 ≤ toRat x := by
  rcases Nat.eq_zero_or_pos x with rfl | hpos
  · exact toRat_zero.ge
  · exact (toRat_pos hpos).le

theorem eq_of_sign_magnitude (hsign : isNegative a = isNegative b)
    (hmagnitude : magnitude a = magnitude b) : a = b := by
  rw [← withSign_self a, hsign, hmagnitude, withSign_self]

theorem number?_of_zero (h : magnitude bits = 0) : number? bits = some (.finite 0) := by
  unfold number?
  rw [h, toRat_zero, neg_zero, ite_self]
  rfl

theorem signed_toRat_eq {m n : Bool} : (if m then -toRat x else toRat x) =
    (if n then -toRat y else toRat y) ↔ x = y ∧ (m = n ∨ x = 0) := by
  have hopposite (x y : Nat) : -toRat x = toRat y ↔ x = y ∧ x = 0 := by
    constructor
    · intro h
      have hx : toRat x = 0 := by
        have := toRat_nonneg (x := x)
        have := toRat_nonneg (x := y)
        linarith
      have hy : toRat y = 0 := by rw [← h, hx, neg_zero]
      rw [toRat_eq_zero] at hx hy
      exact ⟨hx.trans hy.symm, hx⟩
    · rintro ⟨rfl, rfl⟩
      rw [toRat_zero, neg_zero]
  cases m <;> cases n
  · simp [toRat_injective.eq_iff]
  · rw [eq_comm]
    simp only [if_true, Bool.false_eq_true, if_false, hopposite, false_or]
    constructor
    · rintro ⟨rfl, hzero⟩
      exact ⟨rfl, hzero⟩
    · rintro ⟨rfl, hzero⟩
      exact ⟨rfl, hzero⟩
  · simp [hopposite]
  · simp [toRat_injective.eq_iff]

/-- Doubles of different bits are one number only if they are the two zeros. -/
theorem equals_iff : Equals a b ↔
    (a = b ∧ magnitude a ≤ infinityBits) ∨ (magnitude a = 0 ∧ magnitude b = 0) := by
  constructor
  · rintro ⟨n, ha, hb⟩
    unfold number? at ha hb
    split at ha
    next hfinite =>
      cases ha
      split at hb
      next =>
        have hsame := signed_toRat_eq.mp (Number.finite.inj (Option.some.inj hb))
        obtain ⟨hmagnitude, hsign | hzero⟩ := hsame
        · exact Or.inl ⟨(eq_of_sign_magnitude hsign hmagnitude).symm, hfinite.le⟩
        · exact Or.inr ⟨hmagnitude ▸ hzero, hzero⟩
      next => split at hb <;> cases hb
    next =>
      split at ha
      next hinfinite =>
        cases ha
        split at hb
        next => cases hb
        next =>
          split at hb
          next hother =>
            have hsign := Number.infinite.inj (Option.some.inj hb)
            exact Or.inl ⟨eq_of_sign_magnitude hsign.symm (hinfinite.trans hother.symm), hinfinite.le⟩
          next => cases hb
      next => cases ha
  · rintro (⟨rfl, hnumber⟩ | ⟨ha, hb⟩)
    · obtain ⟨n, hn⟩ : ∃ n, number? a = some n := by
        unfold number?
        rcases hnumber.lt_or_eq with hfinite | hinfinite
        · exact ⟨_, if_pos hfinite⟩
        · exact ⟨_, (if_neg (Nat.not_lt.mpr hinfinite.ge)).trans (if_pos hinfinite)⟩
      exact ⟨n, hn, hn⟩
    · exact ⟨.finite 0, number?_of_zero ha, number?_of_zero hb⟩

end Binary64

namespace Value

open Binary64

variable {a b c : Value} {x y : UInt64} {n : Int}

theorem isZeroBits_iff {bits : UInt64} : isZeroBits bits = true ↔ magnitude bits = 0 := by
  have hless : bits.toNat < 2 * signBit := bits.toNat_lt
  unfold isZeroBits magnitude
  rw [beq_iff_eq, ← UInt64.toNat_inj, UInt64.toNat_shiftLeft]
  show (bits.toNat <<< 1) % 2 ^ 64 = 0 ↔ _
  rw [Nat.shiftLeft_eq]
  unfold signBit at *
  omega

/-- Doubles are the same if their bits are, or if they are one number. -/
theorem sameAs_double : (double x).sameAs (double y) = true ↔ x = y ∨ Equals x y := by
  simp only [sameAs, Bool.or_eq_true, beq_iff_eq, Bool.and_eq_true, isZeroBits_iff, equals_iff]
  tauto

/-- One value for all that are the same: integers are widened, and a zero has no sign. -/
def canonical : Value → Value
  | integer n => bigInt n.toInt64
  | double bits => double (if isZeroBits bits then 0 else bits)
  | v => v

theorem canonical_double : (double x).canonical = (double y).canonical ↔
    x = y ∨ (isZeroBits x = true ∧ isZeroBits y = true) := by
  have hzero : isZeroBits 0 = true := by decide
  simp only [canonical, double.injEq]
  split <;> split
  next hx hy => simp [hx, hy]
  next hx hy =>
    have hne : x ≠ y := fun h => hy (h ▸ hx)
    have hne' : 0 ≠ y := fun h => hy (h ▸ hzero)
    simp [hne, hne', hy]
  next hx hy =>
    have hne : x ≠ y := fun h => hx (h ▸ hy)
    have hne' : x ≠ 0 := fun h => hx (h ▸ hzero)
    simp [hne, hne', hx]
  next hx hy => simp [hx]

theorem sameAs_iff_canonical : a.sameAs b = true ↔ a.canonical = b.canonical := by
  cases a <;> cases b
  case double.double x y => rw [canonical_double, sameAs, Bool.or_eq_true, beq_iff_eq, Bool.and_eq_true]
  all_goals simp [sameAs, canonical, ← Int64.toInt_inj]

theorem asInt?_canonical : a.canonical.asInt? = a.asInt? := by
  cases a with
  | integer n => exact congrArg some (Int32.toInt_toInt64 n)
  | _ => rfl

theorem canonical_of_asInt? (h : a.asInt? = some n) : a.canonical = bigInt (.ofInt n) := by
  cases a with
  | integer m =>
    cases h
    exact congrArg bigInt (Int64.toInt_inj.mp (by simp))
  | bigInt m =>
    cases h
    simp [canonical]
  | _ => cases h

/-- To be the same is an equivalence of values. Same values hold the same integer or none, and values
that hold the same integer are the same. Doubles are compared by their bits and as numbers. -/
theorem sameAs_equivalence : Equivalence (fun a b : Value => a.sameAs b = true) ∧
    (∀ a b : Value, a.sameAs b = true → a.asInt? = b.asInt?) ∧
    (∀ (a b : Value) (n : Int), a.asInt? = some n → b.asInt? = some n → a.sameAs b = true) ∧
    ∀ x y : UInt64, (double x).sameAs (double y) = true ↔ x = y ∨ Equals x y := by
  have hcanonical : Equivalence fun a b : Value => a.canonical = b.canonical :=
    ⟨fun _ => rfl, Eq.symm, Eq.trans⟩
  simp only [sameAs_iff_canonical]
  refine ⟨hcanonical, fun a b h => ?_, fun a b n ha hb => ?_, fun x y => ?_⟩
  · rw [← asInt?_canonical, h, asInt?_canonical]
  · rw [canonical_of_asInt? ha, canonical_of_asInt? hb]
  · exact sameAs_iff_canonical.symm.trans sameAs_double

/-- A double that is no number is the same as itself, though it equals nothing; the two zeros are
the same, though their bits are not. -/
example : (double 0x7ff8000000000001).sameAs (double 0x7ff8000000000001) = true ∧
    (double 0x7ff8000000000001).sameAs (double 0x7ff8000000000000) = false ∧
    (double 0).sameAs (double 0x8000000000000000) = true := by
  decide

end Value

end LockingDb
