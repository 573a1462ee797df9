import Handoff.Json.Basic
import Handoff.Decimal.Pixel
import Handoff.Proofs.Decimal.Rounding

set_option autoImplicit false
set_option relaxedAutoImplicit false

/-!
Whole numbers of less than 54 digits are exact as binary numbers, and so are their products and quotients that are such
numbers again. A product with one is exact for every number.
-/

namespace Handoff.Binary
open Float.Model (UnpackedFloat Format totalExponent)
open Float.Model.UnpackedFloat

/-- True of an unpacked number that stands for a whole one. -/
def Stores (u : UnpackedFloat) (n : ℤ) : Prop :=
  match u with
  | .zero _ => n = 0
  | .finite s m e _ => ((s.apply m : ℤ) : ℚ) * 2 ^ e = n
  | _ => False

section Canonical

/-- Every whole number of at most 53 digits above zero has a canonical form. -/
theorem exists_canonical {q : ℕ} (positive : 0 < q) (short : q < 2 ^ 53) :
    ∃ m e, Canonical m e ∧ (m : ℚ) * 2 ^ e = q := by
  have nonzero := positive.ne'
  have digits : q.log2 ≤ 52 := Nat.lt_succ_iff.mp ((Nat.log2_lt nonzero).mpr short)
  obtain ⟨k, fill⟩ : ∃ k, q.log2 + k = 52 := ⟨52 - q.log2, by omega⟩
  have low : 2 ^ 52 ≤ q * 2 ^ k := by
    calc
      2 ^ 52 = 2 ^ q.log2 * 2 ^ k := by rw [← Nat.pow_add, fill]
      _ ≤ q * 2 ^ k := Nat.mul_le_mul_right _ (Nat.log2_self_le nonzero)
  have high : q * 2 ^ k < 2 ^ 53 := by
    calc
      q * 2 ^ k < 2 ^ (q.log2 + 1) * 2 ^ k := Nat.mul_lt_mul_of_pos_right Nat.lt_log2_self (Nat.two_pow_pos k)
      _ = 2 ^ 53 := by rw [← Nat.pow_add]; congr 1; omega
  refine ⟨q * 2 ^ k, -k, ⟨by omega, high, by omega, by omega, .inl low⟩, ?_⟩
  push_cast
  rw [zpow_neg, zpow_natCast]
  field_simp

variable {m : ℕ} {e : ℤ}

/-- A canonical form of a whole number of at most 53 digits has all of them before the point, and maybe some after. -/
theorem Canonical.exponent_of_whole (canonical : Canonical m e) {q : ℕ} (value : (m : ℚ) * 2 ^ e = q)
    (short : q < 2 ^ 53) : e ≤ 0 ∧ 2 ^ 52 ≤ m := by
  have some : (0 : ℚ) < m := by exact_mod_cast canonical.positive
  have whole : (1 : ℚ) ≤ q := by
    have positive : (0 : ℚ) < q := by
      rw [← value]
      exact mul_pos some (zpow_pos two_pos e)
    exact_mod_cast positive
  have full : 2 ^ 52 ≤ m := by
    rcases canonical.full with full | rfl
    · exact full
    · have low : (m : ℚ) < 2 ^ (53 : ℤ) := by exact_mod_cast canonical.short
      have small : (m : ℚ) * 2 ^ (-1074 : ℤ) < 2 ^ (53 : ℤ) * 2 ^ (-1074 : ℤ) :=
        mul_lt_mul_of_pos_right low (zpow_pos two_pos _)
      rw [← zpow_add₀ two_ne_zero, value] at small
      have : (2 : ℚ) ^ (53 + -1074 : ℤ) ≤ 2 ^ (0 : ℤ) := zpow_le_zpow_right₀ one_le_two (by norm_num)
      rw [zpow_zero] at this
      linarith
  refine ⟨?_, full⟩
  by_contra above
  have double : (2 : ℚ) ^ (1 : ℤ) ≤ 2 ^ e := zpow_le_zpow_right₀ one_le_two (by omega)
  have first : ((2 ^ 52 : ℕ) : ℚ) ≤ m := by exact_mod_cast full
  have high : (q : ℚ) < ((2 ^ 53 : ℕ) : ℚ) := by exact_mod_cast short
  rw [← value] at high
  rw [zpow_one] at double
  push_cast at first high
  nlinarith

end Canonical

section Rounding

theorem round_eq {m q : ℕ} {e s : ℤ} (canonical : Canonical m e) (sign : Sign) (value : (m : ℚ) * 2 ^ e = q * 2 ^ s) :
    UnpackedFloat.round Format.binary64 sign q s = .finite sign m e canonical.positive := by
  have nonzero : q ≠ 0 := by
    rintro rfl
    have some : (0 : ℚ) < m := by exact_mod_cast canonical.positive
    have : (0 : ℚ) < m * 2 ^ e := mul_pos some (zpow_pos two_pos e)
    rw [value] at this
    simp at this
  unfold UnpackedFloat.round decreaseExponent
  obtain ⟨k, amount⟩ : ∃ k, (s - Format.binary64.targetExponent (totalExponent q s)).toNat = k := ⟨_, rfl⟩
  simp only [amount]
  have digits : (q <<< k).log2 = q.log2 + k := by
    rw [Nat.shiftLeft_eq, Nat.log2_eq_iff (Nat.mul_ne_zero nonzero (Nat.two_pow_pos k).ne'), Nat.pow_add,
      Nat.add_right_comm, Nat.pow_add]
    exact ⟨Nat.mul_le_mul_right _ (Nat.log2_self_le nonzero),
      Nat.mul_lt_mul_of_pos_right Nat.lt_log2_self (Nat.two_pow_pos k)⟩
  refine roundWithAccuracy_eq canonical canonical.roundsTo_self ?_ ?_
  · have same : ((q <<< k : ℕ) : ℚ) = m * 2 ^ e / 2 ^ (s - (k : ℤ)) := by
      rw [value, Nat.shiftLeft_eq, zpow_sub₀ two_ne_zero, zpow_natCast]
      push_cast
      field_simp
    rw [← same]
    exact stands_exact _
  · rw [target_eq] at amount ⊢
    rw [digits]
    push_cast
    omega

theorem normalize_eq {n : ℤ} (short : n.natAbs < 2 ^ 53) (zero : Sign) :
    (∃ s, UnpackedFloat.normalize Format.binary64 n 0 zero = .zero s ∧ n = 0) ∨
      ∃ s m e, ∃ canonical : Canonical m e,
        UnpackedFloat.normalize Format.binary64 n 0 zero = .finite s m e canonical.positive ∧
          ((s.apply m : ℤ) : ℚ) * 2 ^ e = n := by
  rcases Int.lt_trichotomy n 0 with below | rfl | above
  · obtain ⟨m, e, canonical, value⟩ := exists_canonical (q := (-n).toNat) (by omega) (by omega)
    have magnitude : (((-n).toNat : ℕ) : ℚ) = -n := by
      exact_mod_cast Int.toNat_of_nonneg (by omega : 0 ≤ -n)
    refine .inr ⟨.negative, m, e, canonical, ?_, ?_⟩
    · rw [UnpackedFloat.normalize, Int.compare_eq_lt.mpr below]
      exact round_eq canonical .negative (by rw [zpow_zero, mul_one, value])
    · simp only [Sign.apply, Int.cast_neg, Int.cast_natCast, neg_mul, value, magnitude, neg_neg]
  · exact .inl ⟨zero, rfl, rfl⟩
  · obtain ⟨m, e, canonical, value⟩ := exists_canonical (q := n.toNat) (by omega) (by omega)
    have magnitude : ((n.toNat : ℕ) : ℚ) = n := by
      exact_mod_cast Int.toNat_of_nonneg (by omega : 0 ≤ n)
    refine .inr ⟨.positive, m, e, canonical, ?_, ?_⟩
    · rw [UnpackedFloat.normalize, Int.compare_eq_gt.mpr above]
      exact round_eq canonical .positive (by rw [zpow_zero, mul_one, value])
    · simp only [Sign.apply, Int.cast_natCast, value, magnitude]

end Rounding

end Handoff.Binary

namespace Handoff
open Binary
open Float.Model (UnpackedFloat Format)
open Float.Model.UnpackedFloat

/-- True of a binary number that is a whole one. -/
def IsWhole (x : Float) (n : ℤ) : Prop :=
  Stores x.toModel.unpack n

private theorem isWhole_finite {s : Sign} {m : ℕ} {e n : ℤ} (canonical : Canonical m e)
    (value : ((s.apply m : ℤ) : ℚ) * 2 ^ e = n) :
    IsWhole (.ofModel (.pack (.finite s m e canonical.positive))) n := by
  rw [IsWhole, unpack_pack s canonical]
  exact value

private theorem isWhole_zero (s : Sign) : IsWhole (.ofModel (.pack (.zero s))) 0 := by
  cases s <;> rfl

theorem isWhole_normalize {n : ℤ} (short : n.natAbs < 2 ^ 53) (zero : Sign) :
    IsWhole (.ofModel (.pack (UnpackedFloat.normalize Format.binary64 n 0 zero))) n := by
  rcases normalize_eq short zero with ⟨s, form, rfl⟩ | ⟨s, m, e, canonical, form, value⟩
  · rw [form]
    exact isWhole_zero s
  · rw [form]
    exact isWhole_finite canonical value

/-- The binary number nearest to a whole one of at most 53 digits is that number. -/
theorem isWhole_wholeFloat {n : ℤ} (short : n.natAbs < 2 ^ 53) : IsWhole (Json.wholeFloat n) n :=
  isWhole_normalize short .positive

namespace IsWhole

variable {x y : Float} {a b c : ℤ}

theorem unique (first : IsWhole x a) (second : IsWhole x b) : a = b := by
  unfold IsWhole Stores at first second
  cases form : x.toModel.unpack with
  | notANumber | infinity s => rw [form] at first; cases first
  | zero s =>
    rw [form] at first second
    exact first.trans second.symm
  | finite s m e positive =>
    rw [form] at first second
    exact_mod_cast first.symm.trans second

/-- A whole number that is not zero has a sign and a canonical form, with a first digit at its place. -/
theorem finite (h : IsWhole x a) (nonzero : a ≠ 0) :
    ∃ s m e, ∃ canonical : Canonical m e, x.toModel.unpack = .finite s m e canonical.positive ∧
      s.apply a.natAbs = a ∧ (m : ℚ) * 2 ^ e = a.natAbs := by
  unfold IsWhole Stores at h
  cases form : x.toModel.unpack with
  | notANumber | infinity s => rw [form] at h; cases h
  | zero s => rw [form] at h; exact absurd h nonzero
  | finite s m e positive =>
    rw [form] at h
    have canonical := canonical_unpack form
    refine ⟨s, m, e, canonical, rfl, ?_⟩
    have place : (0 : ℚ) < m * 2 ^ e := mul_pos (by exact_mod_cast positive) (zpow_pos two_pos e)
    cases s with
    | positive =>
      have value : (m : ℚ) * 2 ^ e = a := h
      have above : 0 < a := by
        rw [value] at place
        exact_mod_cast place
      obtain ⟨n, rfl⟩ := Int.eq_ofNat_of_zero_le above.le
      exact ⟨rfl, by exact_mod_cast value⟩
    | negative =>
      have value : -(m : ℚ) * 2 ^ e = a := by
        have := h
        simpa [Sign.apply] using this
      have below : a < 0 := by
        have : (a : ℚ) < 0 := by linarith
        exact_mod_cast this
      obtain ⟨n, rfl⟩ := Int.exists_eq_neg_ofNat below.le
      refine ⟨by simp [Sign.apply], ?_⟩
      have : (m : ℚ) * 2 ^ e = n := by
        push_cast at value
        linarith
      simpa using this

theorem zero (h : IsWhole x 0) : ∃ s, x.toModel.unpack = .zero s := by
  unfold IsWhole Stores at h
  cases form : x.toModel.unpack with
  | notANumber | infinity s => rw [form] at h; cases h
  | zero s => exact ⟨s, rfl⟩
  | finite s m e positive =>
    rw [form] at h
    have place : (m : ℚ) * 2 ^ e ≠ 0 :=
      mul_ne_zero (by exact_mod_cast positive.ne') (zpow_pos two_pos e).ne'
    cases s with
    | positive => exact absurd (by simpa [Sign.apply] using h) place
    | negative => exact absurd (by simpa [Sign.apply] using h) place

private theorem isWhole_of_magnitude {s : Sign} {m q : ℕ} {e n : ℤ} (canonical : Canonical m e)
    (value : (m : ℚ) * 2 ^ e = q) (signed : s.apply q = n) :
    IsWhole (.ofModel (.pack (.finite s m e canonical.positive))) n := by
  refine isWhole_finite canonical ?_
  cases s with
  | positive =>
    rw [← signed]
    simpa [Sign.apply] using value
  | negative =>
    rw [← signed]
    simpa [Sign.apply] using value

private theorem apply_mul (s t : Sign) (p q : ℤ) : (s * t).apply (p * q) = s.apply p * t.apply q := by
  cases s <;> cases t
  · exact (neg_mul_neg p q).symm
  · exact (neg_mul p q).symm
  · exact (mul_neg p q).symm
  · rfl

theorem mul (hx : IsWhole x a) (hy : IsWhole y b) (short : (a * b).natAbs < 2 ^ 53) : IsWhole (x * y) (a * b) := by
  by_cases first : a = 0
  · subst first
    obtain ⟨s, form⟩ := hx.zero
    rw [Int.zero_mul]
    change IsWhole (.ofModel (.pack (UnpackedFloat.mul .binary64 x.toModel.unpack y.toModel.unpack))) 0
    by_cases second : b = 0
    · subst second
      obtain ⟨t, other⟩ := hy.zero
      rw [form, other]
      exact isWhole_zero (s * t)
    · obtain ⟨t, n, f, _, other, -⟩ := hy.finite second
      rw [form, other]
      exact isWhole_zero (s * t)
  · obtain ⟨s, m, e, canonical, form, sign, value⟩ := hx.finite first
    change IsWhole (.ofModel (.pack (UnpackedFloat.mul .binary64 x.toModel.unpack y.toModel.unpack))) (a * b)
    by_cases second : b = 0
    · subst second
      obtain ⟨t, other⟩ := hy.zero
      rw [form, other, Int.mul_zero]
      exact isWhole_zero (s * t)
    · obtain ⟨t, n, f, normal, other, sign', value'⟩ := hy.finite second
      rw [Int.natAbs_mul] at short
      have left : a.natAbs ≤ a.natAbs * b.natAbs := Nat.le_mul_of_pos_right _ (Int.natAbs_pos.mpr second)
      have right : b.natAbs ≤ a.natAbs * b.natAbs := Nat.le_mul_of_pos_left _ (Int.natAbs_pos.mpr first)
      obtain ⟨k, g, result, product⟩ := exists_canonical (q := a.natAbs * b.natAbs)
        (Nat.mul_pos (Int.natAbs_pos.mpr first) (Int.natAbs_pos.mpr second)) short
      have wide : 2 ^ 52 ≤ m * n :=
        ((canonical.exponent_of_whole value (by omega)).2).trans (Nat.le_mul_of_pos_right m normal.positive)
      have exact : RoundsTo k g (m * 2 ^ e * (n * 2 ^ f)) := by
        rw [value, value', ← Nat.cast_mul, ← product]
        exact result.roundsTo_self
      rw [form, other, Binary.mul_eq result s t exact wide]
      refine isWhole_of_magnitude result product ?_
      rw [Nat.cast_mul, apply_mul, sign, sign']

theorem div (hx : IsWhole x (c * b)) (hy : IsWhole y b) (nonzero : b ≠ 0) (short : c.natAbs < 2 ^ 53) :
    IsWhole (x / y) c := by
  obtain ⟨t, n, f, _, other, sign', value'⟩ := hy.finite nonzero
  change IsWhole (.ofModel (.pack (UnpackedFloat.div .binary64 x.toModel.unpack y.toModel.unpack))) c
  by_cases first : c = 0
  · subst first
    rw [Int.zero_mul] at hx
    obtain ⟨s, form⟩ := hx.zero
    rw [form, other]
    exact isWhole_zero (s / t)
  · obtain ⟨s, m, e, _, form, sign, value⟩ := hx.finite (Int.mul_ne_zero first nonzero)
    obtain ⟨k, g, result, quotient⟩ := exists_canonical (Int.natAbs_pos.mpr first) short
    have exact : RoundsTo k g (m * 2 ^ e / (n * 2 ^ f)) := by
      have some : (b.natAbs : ℚ) ≠ 0 := by exact_mod_cast Int.natAbs_ne_zero.mpr nonzero
      rw [value, value', Int.natAbs_mul, Nat.cast_mul, mul_div_cancel_right₀ _ some, ← quotient]
      exact result.roundsTo_self
    rw [form, other, Binary.div_eq result s t exact]
    refine isWhole_of_magnitude result quotient ?_
    have signs : (s / t).apply c.natAbs * t.apply b.natAbs = c * b := by
      calc
        (s / t).apply c.natAbs * t.apply b.natAbs = (s / t * t).apply (c * b).natAbs := by
          rw [← apply_mul, Int.natAbs_mul, Nat.cast_mul]
        _ = s.apply (c * b).natAbs := by cases s <;> cases t <;> rfl
        _ = c * b := sign
    rw [sign'] at signs
    exact Int.eq_of_mul_eq_mul_right nonzero signs

theorem roundHalfAway (hx : IsWhole x a) (short : a.natAbs < 2 ^ 53) : IsWhole (roundHalfAway x) a := by
  unfold Handoff.roundHalfAway
  by_cases nonzero : a = 0
  · subst nonzero
    obtain ⟨s, form⟩ := hx.zero
    simpa only [form] using hx
  · obtain ⟨s, m, e, canonical, form, sign, value⟩ := hx.finite nonzero
    simp only [form]
    split
    · exact hx
    · rename_i fraction
      obtain ⟨k, rfl⟩ : ∃ k : ℕ, e = -((k + 1 : ℕ) : ℤ) := ⟨(-e).toNat - 1, by omega⟩
      have digits : m = a.natAbs * (2 * 2 ^ k) := by
        rw [zpow_neg, zpow_natCast, ← div_eq_mul_inv, div_eq_iff (by positivity), pow_succ, mul_comm _ (2 : ℚ)] at value
        exact_mod_cast value
      have amount : (- -((k + 1 : ℕ) : ℤ)).toNat - 1 = k := by omega
      have rounded : (m + Nat.pow 2 k) / (2 * Nat.pow 2 k) = a.natAbs := by
        have some := Nat.two_pow_pos k
        rw [Nat.pow_eq, digits]
        exact Nat.div_eq_of_lt_le (by omega) (by rw [Nat.add_mul a.natAbs, Nat.one_mul]; omega)
      rw [amount, rounded, sign]
      exact isWhole_normalize short s

end IsWhole

theorem mul_one_eq (x : Float) : x * 1 = x := by
  have one : (1 : Float).toModel.unpack = .finite .positive (2 ^ 52) (-52) (by decide) := rfl
  have same : UnpackedFloat.mul .binary64 x.toModel.unpack (1 : Float).toModel.unpack = x.toModel.unpack := by
    rw [one]
    cases form : x.toModel.unpack with
    | notANumber => rfl
    | infinity s => cases s <;> rfl
    | zero s => cases s <;> rfl
    | finite s m e positive =>
      have canonical := canonical_unpack form
      have exact : RoundsTo m e (m * 2 ^ e * ((2 ^ 52 : ℕ) * 2 ^ (-52 : ℤ))) := by
        have unit : ((2 ^ 52 : ℕ) : ℚ) * 2 ^ (-52 : ℤ) = 1 := by norm_num
        rw [unit, mul_one]
        exact canonical.roundsTo_self
      rw [Binary.mul_eq canonical s .positive exact (Nat.le_mul_of_pos_left _ positive)]
      cases s <;> rfl
  change Float.ofModel (.pack (UnpackedFloat.mul .binary64 x.toModel.unpack (1 : Float).toModel.unpack)) = x
  rw [same, pack_unpack]

end Handoff
