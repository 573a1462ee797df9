import Handoff.Proofs.Decimal.WholeText
import Mathlib.Algebra.Order.Floor.Ring
import Mathlib.Data.Rat.Floor

set_option autoImplicit false
set_option relaxedAutoImplicit false

/-!
The rational numbers that finite binary numbers are.

Finite numbers are ordered as their values are, and rounding, holding between bounds and taking the byte are what they
are called for those values.
-/

namespace Handoff
open Binary
open Float.Model (UnpackedFloat Format)
open Float.Model.UnpackedFloat

/-- The value of an unpacked number; those that are not finite have none and stand at zero. -/
def worth : UnpackedFloat → ℚ
  | .finite s m e _ => ((s.apply m : ℤ) : ℚ) * 2 ^ e
  | _ => 0

/-- The rational number that a finite binary number is. -/
def rational (x : Float) : ℚ :=
  worth x.toModel.unpack

section Order

variable {m n : ℕ} {e f : ℤ}

private theorem magnitude_lt_of_exponent_lt (first : Canonical m e) (second : Canonical n f) (less : e < f) :
    (m : ℚ) * 2 ^ e < n * 2 ^ f := by
  have full : 2 ^ 52 ≤ n := second.full.resolve_right (by have := first.least; omega)
  have low : (2 : ℚ) ^ 52 ≤ n := by exact_mod_cast full
  have high : (m : ℚ) < 2 ^ 53 := by exact_mod_cast first.short
  calc
    (m : ℚ) * 2 ^ e < 2 ^ 53 * 2 ^ e := mul_lt_mul_of_pos_right high (zpow_pos two_pos e)
    _ = 2 ^ 52 * 2 ^ (e + 1) := by rw [zpow_add_one₀ two_ne_zero]; ring
    _ ≤ 2 ^ 52 * 2 ^ f := by gcongr <;> [norm_num; omega]
    _ ≤ n * 2 ^ f := by gcongr

private theorem magnitude_lt_of_place_lt (first : Canonical m e) (second : Canonical n f)
    (less : (e + 1074) * 2 ^ 53 + (m : ℤ) < (f + 1074) * 2 ^ 53 + (n : ℤ)) : (m : ℚ) * 2 ^ e < n * 2 ^ f := by
  have short := first.short
  have short' := second.short
  rcases Int.lt_trichotomy e f with below | rfl | above
  · exact magnitude_lt_of_exponent_lt first second below
  · have digits : (m : ℚ) < n := by exact_mod_cast (by omega : m < n)
    exact mul_lt_mul_of_pos_right digits (zpow_pos two_pos e)
  · omega

private theorem magnitude_pos (canonical : Canonical m e) : (0 : ℚ) < m * 2 ^ e :=
  mul_pos (by exact_mod_cast canonical.positive) (zpow_pos two_pos e)

private theorem magnitude_lt_iff (first : Canonical m e) (second : Canonical n f) :
    (e + 1074) * 2 ^ 53 + (m : ℤ) < (f + 1074) * 2 ^ 53 + (n : ℤ) ↔ (m : ℚ) * 2 ^ e < n * 2 ^ f := by
  have short := first.short
  have short' := second.short
  refine ⟨magnitude_lt_of_place_lt first second, fun less => ?_⟩
  rcases Int.lt_trichotomy ((e + 1074) * 2 ^ 53 + (m : ℤ)) ((f + 1074) * 2 ^ 53 + (n : ℤ)) with below | same | above
  · exact below
  · obtain ⟨rfl, rfl⟩ : m = n ∧ e = f := by omega
    exact absurd less (lt_irrefl _)
  · exact absurd (magnitude_lt_of_place_lt second first above) less.asymm

private theorem finite_cases {x : Float} (finite : x.isFinite = true) :
    (placeOf x = 0 ∧ rational x = 0) ∨
      ∃ m e, Canonical m e ∧
        ((placeOf x = (e + 1074) * 2 ^ 53 + (m : ℤ) ∧ rational x = m * 2 ^ e) ∨
          (placeOf x = -((e + 1074) * 2 ^ 53 + (m : ℤ)) ∧ rational x = -(m * 2 ^ e))) := by
  unfold placeOf rational
  rcases unpack_of_isFinite (x := x.toModel) finite with ⟨s, form⟩ | ⟨s, m, e, canonical, form⟩
  · rw [form]
    exact .inl ⟨rfl, rfl⟩
  · rw [form]
    refine .inr ⟨m, e, canonical, ?_⟩
    cases s with
    | positive => exact .inl ⟨rfl, by simp [worth, Sign.apply]⟩
    | negative => exact .inr ⟨rfl, by simp [worth, Sign.apply]⟩

variable {x y : Float}

theorem lt_iff_rational (hx : x.isFinite = true) (hy : y.isFinite = true) : x < y ↔ rational x < rational y := by
  rw [lt_iff_placeOf hx hy]
  rcases finite_cases hx with ⟨place, value⟩ | ⟨m, e, first, signed⟩
  · rcases finite_cases hy with ⟨place', value'⟩ | ⟨n, f, second, signed'⟩
    · rw [place, place', value, value', lt_self_iff_false, lt_self_iff_false]
    · have some := second.place_pos
      have some' := magnitude_pos second
      rcases signed' with ⟨place', value'⟩ | ⟨place', value'⟩ <;> rw [place, place', value, value']
      · exact iff_of_true some some'
      · exact iff_of_false (by omega) (by linarith)
  · have some := first.place_pos
    have some' := magnitude_pos first
    rcases finite_cases hy with ⟨place', value'⟩ | ⟨n, f, second, signed'⟩
    · rcases signed with ⟨place, value⟩ | ⟨place, value⟩ <;> rw [place, place', value, value']
      · exact iff_of_false (by omega) (by linarith)
      · exact iff_of_true (by omega) (by linarith)
    · have more := second.place_pos
      have more' := magnitude_pos second
      rcases signed with ⟨place, value⟩ | ⟨place, value⟩ <;> rcases signed' with ⟨place', value'⟩ | ⟨place', value'⟩ <;>
        rw [place, place', value, value']
      · exact magnitude_lt_iff first second
      · exact iff_of_false (by omega) (by linarith)
      · exact iff_of_true (by omega) (by linarith)
      · rw [neg_lt_neg_iff, neg_lt_neg_iff]
        exact magnitude_lt_iff second first

theorem le_iff_rational (hx : x.isFinite = true) (hy : y.isFinite = true) : x ≤ y ↔ rational x ≤ rational y := by
  rw [← not_lt, ← lt_iff_rational hy hx, le_iff_placeOf hx hy, lt_iff_placeOf hy hx, not_lt]

end Order

section Rounding

/-- The whole number nearest to a rational one, a half going away from zero. -/
def roundAway (q : ℚ) : ℤ :=
  if 0 ≤ q then ⌊q + 1 / 2⌋ else ⌈q - 1 / 2⌉

private theorem roundAway_neg (q : ℚ) : roundAway (-q) = -roundAway q := by
  have positive (q : ℚ) (h : 0 < q) : roundAway (-q) = -roundAway q := by
    have shift : -q - 1 / 2 = -(q + 1 / 2) := by ring
    rw [roundAway, if_neg (by linarith), roundAway, if_pos h.le, shift, Int.ceil_neg]
  rcases lt_trichotomy q 0 with below | rfl | above
  · have mirrored := positive (-q) (by linarith)
    rw [neg_neg] at mirrored
    omega
  · norm_num [roundAway]
  · exact positive q above

private theorem roundAway_intCast (n : ℤ) : roundAway n = n := by
  have floor : ⌊(n : ℚ) + 1 / 2⌋ = n := Int.floor_eq_iff.mpr ⟨by linarith, by linarith⟩
  have ceil : ⌈(n : ℚ) - 1 / 2⌉ = n := Int.ceil_eq_iff.mpr ⟨by linarith, by linarith⟩
  rw [roundAway, floor, ceil, ite_self]

private theorem roundAway_div (m half : ℕ) (some : 0 < half) :
    roundAway (m / (2 * half)) = ((m + half) / (2 * half) : ℕ) := by
  have wide : (0 : ℚ) < half := by exact_mod_cast some
  have shift : (m : ℚ) / (2 * half) + 1 / 2 = ((m + half : ℕ) : ℚ) / ((2 * half : ℕ) : ℚ) := by
    push_cast
    field_simp
  rw [roundAway, if_pos (by positivity), shift]
  exact Rat.floor_natCast_div_natCast _ _

private theorem roundAway_halved (s : Sign) (m k : ℕ) :
    roundAway (((s.apply m : ℤ) : ℚ) * 2 ^ (-((k + 1 : ℕ) : ℤ))) = s.apply ((m + 2 ^ k) / (2 * 2 ^ k) : ℕ) := by
  have magnitude : (m : ℚ) * 2 ^ (-((k + 1 : ℕ) : ℤ)) = m / (2 * (2 ^ k : ℕ)) := by
    rw [zpow_neg, zpow_natCast, pow_succ']
    push_cast
    rw [div_eq_mul_inv]
  have rounded := roundAway_div m (2 ^ k) (Nat.two_pow_pos k)
  rw [← magnitude] at rounded
  cases s with
  | positive => exact rounded
  | negative =>
    rw [Sign.apply, Int.cast_neg, neg_mul, roundAway_neg, Int.cast_natCast, rounded]
    rfl

private theorem halved_le {m : ℕ} (some : 0 < m) (k : ℕ) : (m + 2 ^ k) / (2 * 2 ^ k) ≤ m := by
  have half := Nat.two_pow_pos k
  refine Nat.div_le_of_le_mul ?_
  nlinarith

theorem IsWhole.rational {x : Float} {n : ℤ} (whole : IsWhole x n) : rational x = n := by
  unfold IsWhole Stores at whole
  unfold Handoff.rational
  cases form : x.toModel.unpack with
  | notANumber | infinity s =>
    rw [form] at whole
    cases whole
  | zero s =>
    rw [form] at whole
    rw [whole]
    rfl
  | finite s m e positive =>
    rw [form] at whole
    exact whole

theorem isWhole_of_rational {x : Float} {n : ℤ} (finite : x.isFinite = true) (value : rational x = n) :
    IsWhole x n := by
  unfold Handoff.rational at value
  unfold IsWhole
  rcases unpack_of_isFinite (x := x.toModel) finite with ⟨s, form⟩ | ⟨s, m, e, canonical, form⟩
  · rw [form] at value ⊢
    have zero : (0 : ℚ) = n := value
    exact_mod_cast zero.symm
  · rw [form] at value ⊢
    exact value

theorem roundAway_nonneg {q : ℚ} (low : 0 ≤ q) : 0 ≤ roundAway q := by
  rw [roundAway, if_pos low]
  exact Int.floor_nonneg.mpr (by linarith)

/-- A whole number is reached when the rational one is no more than a half below it. -/
theorem le_roundAway_iff {q : ℚ} (low : 0 ≤ q) (n : ℤ) : n ≤ roundAway q ↔ n - 1 / 2 ≤ q := by
  rw [roundAway, if_pos low, Int.le_floor, sub_le_iff_le_add]

theorem isWhole_roundHalfAway {x : Float} (finite : x.isFinite = true) :
    IsWhole (roundHalfAway x) (roundAway (rational x)) := by
  rcases unpack_of_isFinite (x := x.toModel) finite with ⟨s, form⟩ | ⟨s, m, e, canonical, form⟩
  · have zero : IsWhole x 0 := by
      rw [IsWhole, form]
      rfl
    rw [zero.rational, roundAway_intCast]
    unfold roundHalfAway
    rw [form]
    exact zero
  · unfold roundHalfAway
    rw [form]
    have value : rational x = ((s.apply m : ℤ) : ℚ) * 2 ^ e := by
      rw [rational, form]
      rfl
    simp only
    split
    · rename_i whole
      obtain ⟨k, rfl⟩ := Int.eq_ofNat_of_zero_le whole
      have whole : rational x = ((s.apply m * 2 ^ k : ℤ) : ℚ) := by
        rw [value]
        push_cast
        rfl
      rw [whole, roundAway_intCast, IsWhole, form]
      exact value.symm.trans whole
    · rename_i fraction
      -- There are k + 1 digits behind the point, so 2 ^ k is half a unit.
      obtain ⟨k, rfl⟩ : ∃ k : ℕ, e = -((k + 1 : ℕ) : ℤ) := ⟨(-e).toNat - 1, by omega⟩
      have amount : (- -((k + 1 : ℕ) : ℤ)).toNat - 1 = k := by omega
      have nearest : roundAway (rational x) = s.apply ((m + 2 ^ k) / (2 * 2 ^ k) : ℕ) := by
        rw [value, roundAway_halved]
      have below : (m + 2 ^ k) / (2 * 2 ^ k) < 2 ^ 53 := (halved_le canonical.positive k).trans_lt canonical.short
      rw [amount, nearest, Nat.pow_eq]
      refine isWhole_normalize ?_ s
      cases s with
      | positive => exact below
      | negative =>
        rw [Sign.apply, Int.natAbs_neg]
        exact below

end Rounding

section Bounds

variable {x : Float}

theorem lt_zero_iff_rational (finite : x.isFinite = true) : x < 0 ↔ rational x < 0 := by
  have zero : IsWhole 0 0 := rfl
  rw [lt_iff_rational finite (isFinite_whole zero), zero.rational, Int.cast_zero]

theorem one_lt_iff_rational (finite : x.isFinite = true) : 1 < x ↔ 1 < rational x := by
  rw [lt_iff_rational (isFinite_whole isWhole_one) finite, isWhole_one.rational, Int.cast_one]

end Bounds

section Byte

variable {x low high : Float} {a b n : ℤ}

theorem clamp_of_lt (order : ¬ high < low) (below : x < low) : clamp low high x = low := by
  rw [clamp, if_pos below]
  exact if_neg order

theorem clamp_of_gt (inside : ¬ x < low) (above : high < x) : clamp low high x = high := by
  rw [clamp, if_neg inside]
  exact if_pos above

theorem clamp_eq_self (inside : ¬ x < low) (inside' : ¬ high < x) : clamp low high x = x := by
  rw [clamp, if_neg inside]
  exact if_neg inside'

theorem isWhole_clamp (hx : IsWhole x n) (hl : IsWhole low a) (hh : IsWhole high b) (order : a ≤ b) :
    IsWhole (clamp low high x) (min b (max a n)) := by
  have less {x y : Float} {n k : ℤ} (hx : IsWhole x n) (hy : IsWhole y k) : x < y ↔ n < k := by
    rw [lt_iff_rational (isFinite_whole hx) (isFinite_whole hy), hx.rational, hy.rational, Int.cast_lt]
  by_cases below : n < a
  · rw [clamp_of_lt (not_lt.mpr order ∘ (less hh hl).mp) ((less hx hl).mpr below), max_eq_left below.le,
      min_eq_right order]
    exact hl
  · rw [max_eq_right (not_lt.mp below)]
    by_cases above : b < n
    · rw [clamp_of_gt (below ∘ (less hx hl).mp) ((less hh hx).mpr above), min_eq_left above.le]
      exact hh
    · rw [clamp_eq_self (below ∘ (less hx hl).mp) (above ∘ (less hh hx).mp), min_eq_right (not_lt.mp above)]
      exact hx

private theorem toInt_whole (whole : IsWhole x n) (least most : ℤ) (first : 0 ≤ n) (short : n < 2 ^ 53) :
    x.toModel.unpack.toInt least most = n := by
  by_cases nonzero : n = 0
  · subst nonzero
    obtain ⟨s, form⟩ := whole.zero
    rw [form]
    rfl
  · obtain ⟨s, m, e, canonical, form, sign, value⟩ := whole.finite nonzero
    obtain ⟨low, -⟩ := canonical.exponent_of_whole value (by omega)
    obtain ⟨k, rfl⟩ : ∃ k : ℕ, e = -(k : ℤ) := ⟨(-e).toNat, by omega⟩
    have none : (-(k : ℤ) - 0).toNat = 0 := by omega
    have amount : (0 - (-(k : ℤ) - (0 : ℕ))).toNat = k := by omega
    obtain ⟨em, shifted⟩ : ∃ em, ExtendedMantissa.ofMantissaAndAccuracy m .exact >>> k = em := ⟨_, rfl⟩
    have cut : x.toModel.unpack.toInt least most = s.apply em.mantissa := by
      rw [form, ← shifted]
      simp only [toInt, roundToInt, decreaseExponent, none, Nat.shiftLeft_zero, shiftToExponent, amount]
    -- No digit is lost, so that the rest of the mantissa is the number.
    have stands : Stands em n.natAbs := by
      rw [← value, ← shifted, zpow_neg, zpow_natCast, ← div_eq_mul_inv]
      exact (stands_exact m).shiftRight k
    obtain ⟨below, above⟩ := stands.floor
    have mantissa : em.mantissa = n.natAbs := by
      have : em.mantissa ≤ n.natAbs := by exact_mod_cast below
      have : n.natAbs < em.mantissa + 1 := by exact_mod_cast above
      omega
    rw [cut, mantissa, sign]

theorem toUInt8_whole (whole : IsWhole x n) (first : 0 ≤ n) (last : n ≤ 255) : x.toUInt8 = UInt8.ofNat n.toNat := by
  have small : n.toNat < UInt8.size := by
    change n.toNat < 256
    omega
  change UInt8.ofNatClamp (x.toModel.unpack.toInt 0 _).toNat = _
  rw [toInt_whole whole _ _ first (by omega), UInt8.ofNatClamp, dif_pos small]
  exact UInt8.ofNatLT_eq_ofNat _

theorem toUInt8_eq_last_iff (whole : IsWhole x n) (first : 0 ≤ n) (short : n < 2 ^ 53) : x.toUInt8 = 255 ↔ 255 ≤ n := by
  change UInt8.ofNatClamp (x.toModel.unpack.toInt 0 _).toNat = 255 ↔ _
  rw [toInt_whole whole _ _ first short, UInt8.ofNatClamp]
  by_cases small : n.toNat < UInt8.size
  · have bound : n.toNat < 256 := small
    rw [dif_pos small, ← UInt8.toNat_inj, UInt8.toNat_ofNatLT]
    change n.toNat = 255 ↔ _
    omega
  · have bound : 256 ≤ n.toNat := not_lt.mp small
    rw [dif_neg small]
    exact iff_of_true rfl (by omega)

theorem isWhole_lastByte : IsWhole 255 255 := by
  change ((255 * 2 ^ 45 : ℕ) : ℚ) * 2 ^ (-45 : ℤ) = (255 : ℤ)
  norm_num

def nearestByte (q : ℚ) : UInt8 :=
  UInt8.ofNat (min 255 (max 0 (roundAway q))).toNat

/-- Rounding, holding between the ends of the bytes and cutting off lead to the nearest byte. -/
theorem toUInt8_clamp_roundHalfAway (finite : x.isFinite = true) :
    (clamp 0 255 (roundHalfAway x)).toUInt8 = nearestByte (rational x) := by
  have zero : IsWhole 0 0 := rfl
  have held := isWhole_clamp (isWhole_roundHalfAway finite) zero isWhole_lastByte (by decide)
  exact toUInt8_whole held (by omega) (by omega)

end Byte

end Handoff
