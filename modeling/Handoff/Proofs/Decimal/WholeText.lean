import Handoff.Decimal.Pixel
import Handoff.Proofs.Decimal.Exact
import Handoff.Proofs.Decimal.Shortest

set_option autoImplicit false
set_option relaxedAutoImplicit false

/-!
Drawings show whole numbers with their own digits.

The interval of a whole number reaches no other one, so that the shortest decimal has the digits of the number up to
zeros at the end, which the layout puts back.
-/

namespace Handoff

namespace Decimal
open Binary

variable {m q : ℕ} {e : ℤ}

private theorem eq_of_readsBack (canonical : Canonical m e) (value : (m : ℚ) * 2 ^ e = q) (short : q < 2 ^ 53)
    {k p : ℕ} (reads : readsBack m e k p = true) : p * 10 ^ k = q := by
  have unit : (0 : ℚ) < 2 ^ e := zpow_pos two_pos e
  have small : (2 : ℚ) ^ e ≤ 1 := zpow_le_one_of_nonpos₀ one_le_two (canonical.exponent_of_whole value short).1
  obtain ⟨low, high⟩ := (near_of_roundsTo canonical (readsBack_iff.mp reads)).bounds
  rw [le_div_iff₀ unit, sub_mul, value] at low
  rw [div_le_iff₀ unit, add_mul, value] at high
  rw [zpow_natCast] at low high
  have below : q < p * 10 ^ k + 1 := by
    have : (q : ℚ) < p * 10 ^ k + 1 := by linarith
    exact_mod_cast this
  have above : p * 10 ^ k < q + 1 := by
    have : (p : ℚ) * 10 ^ k < q + 1 := by linarith
    exact_mod_cast this
  omega

private theorem onGrid_zero (tie : Tie) (canonical : Canonical m e) (value : (m : ℚ) * 2 ^ e = q) :
    onGrid tie m e 0 ≠ none := by
  refine onGrid_of_reads tie canonical (p := q) ?_
  rw [zpow_zero, mul_one, ← value]
  exact canonical.roundsTo_self

private theorem search_whole (tie : Tie) (canonical : Canonical m e) (value : (m : ℚ) * 2 ^ e = q)
    (short : q < 2 ^ 53) (steps k : ℕ) (enough : k < steps) :
    ∃ j : ℕ, (search tie m e steps k).exponent = j ∧ (search tie m e steps k).digits * 10 ^ j = q := by
  induction steps generalizing k with
  | zero => exact absurd enough (Nat.not_lt_zero k)
  | succ steps ih =>
    unfold search
    split
    · rename_i p found
      exact ⟨k, rfl, eq_of_readsBack canonical value short (readsBack_onGrid found)⟩
    · rename_i none
      -- The search ends on the grid of whole numbers at the latest.
      obtain ⟨k, rfl⟩ : ∃ i, k = i + 1 :=
        Nat.exists_eq_succ_of_ne_zero fun zero => onGrid_zero tie canonical value (by rw [← none, zero]; rfl)
      rw [show ((k + 1 : ℕ) : ℤ) - 1 = k by omega]
      exact ih k (by omega)

theorem shortest_whole (tie : Tie) (canonical : Canonical m e) (value : (m : ℚ) * 2 ^ e = q) (short : q < 2 ^ 53) :
    ∃ k : ℕ, (shortest tie m e).exponent = k ∧ (shortest tie m e).digits * 10 ^ k = q := by
  have full := (canonical.exponent_of_whole value short).2
  have digits : m.log2 = 52 := (Nat.log2_eq_iff canonical.positive.ne').mpr ⟨full, canonical.short⟩
  have least : -53 < e := by
    have positive : (0 : ℚ) < q := by
      rw [← value]
      exact mul_pos (by exact_mod_cast canonical.positive) (zpow_pos two_pos e)
    have one : (1 : ℚ) ≤ q := by exact_mod_cast positive
    have high : (m : ℚ) < 2 ^ (53 : ℤ) := by exact_mod_cast canonical.short
    have wide : (2 : ℚ) ^ (0 : ℤ) < 2 ^ (53 + e) := by
      rw [zpow_zero, zpow_add₀ two_ne_zero]
      calc
        (1 : ℚ) ≤ m * 2 ^ e := value ▸ one
        _ < 2 ^ (53 : ℤ) * 2 ^ e := mul_lt_mul_of_pos_right high (zpow_pos two_pos e)
    have := (zpow_lt_zpow_iff_right₀ one_lt_two).mp wide
    omega
  obtain ⟨start, from_⟩ : ∃ k : ℕ, startOf (m.log2 + 2 + e) = k := by
    refine ⟨(startOf (m.log2 + 2 + e)).toNat, (Int.toNat_of_nonneg ?_).symm⟩
    unfold startOf
    rw [if_pos (by omega)]
    omega
  unfold shortest
  simp only [from_]
  exact search_whole tie canonical value short _ start (by omega)

end Decimal

namespace Numeral

theorem toDigits_append_zeros {d : ℕ} (positive : 0 < d) (k : ℕ) :
    Nat.toDigits 10 d ++ List.replicate k '0' = Nat.toDigits 10 (d * 10 ^ k) := by
  induction k with
  | zero => simp
  | succ k ih =>
    have last := Nat.toDigits_append_toDigits (b := 10) (n := d * 10 ^ k) (d := 0) (by decide) (by positivity)
      (by decide)
    have zero : Nat.toDigits 10 0 = ['0'] := rfl
    rw [List.replicate_succ', ← List.append_assoc, ih, ← zero, last]
    congr 1
    ring

end Numeral

open Binary
open Float.Model.UnpackedFloat

variable {x : Float} {n : ℤ}

private theorem chars_spelled (negative : Bool) {d : ℕ} (positive : 0 < d) (k : ℕ) :
    (Layout.plain.spelled negative (Nat.toDigits 10 d) k).chars =
      (if negative then ['-'] else []) ++ Nat.toDigits 10 (d * 10 ^ k) := by
  unfold Layout.spelled
  rw [if_pos (Int.natCast_nonneg k), Int.toNat_natCast, Numeral.toDigits_append_zeros positive]
  simp [Numeral.chars, Layout.wholeFraction, Layout.plain]

private theorem plainText_whole (whole : IsWhole x n) (nonzero : n ≠ 0) (short : n.natAbs < 2 ^ 53) :
    plainText x = toString n := by
  obtain ⟨s, m, e, canonical, form, sign, value⟩ := whole.finite nonzero
  obtain ⟨k, exponent, digits⟩ := Decimal.shortest_whole Layout.plain.tie canonical value short
  have positive : 0 < (Decimal.shortest Layout.plain.tie m e).digits := by
    refine Nat.pos_of_ne_zero fun none => ?_
    rw [none, Nat.zero_mul] at digits
    exact Int.natAbs_ne_zero.mpr nonzero digits.symm
  have written : Layout.plain.numeral x = some (Layout.plain.place (s == .negative)
      (Decimal.shortest Layout.plain.tie m e)) := by
    unfold Layout.numeral
    simp only [form]
  have placed : Layout.plain.place (s == .negative) (Decimal.shortest Layout.plain.tie m e) =
      Layout.plain.spelled (s == .negative)
        (Nat.toDigits 10 (Decimal.shortest Layout.plain.tie m e).digits) k := by
    unfold Layout.place
    rw [exponent]
    rfl
  rw [plainText, written]
  simp only
  rw [placed, chars_spelled _ positive, digits]
  cases s with
  | positive =>
    obtain ⟨q, rfl⟩ : ∃ q : ℕ, n = q := ⟨n.natAbs, sign.symm⟩
    rfl
  | negative =>
    obtain ⟨q, rfl⟩ : ∃ q : ℕ, n = -(q : ℤ) := ⟨n.natAbs, sign.symm⟩
    obtain ⟨q, rfl⟩ := Nat.exists_eq_succ_of_ne_zero (n := q) (by rintro rfl; exact nonzero rfl)
    apply String.toList_injective
    rw [Int.natAbs_neg, Int.natAbs_natCast, show toString (-((q + 1 : ℕ) : ℤ)) = "-" ++ (q + 1).repr from rfl]
    simp

theorem isFinite_whole (whole : IsWhole x n) : x.isFinite = true := by
  unfold IsWhole Stores at whole
  change x.toModel.unpack.isFinite = true
  cases form : x.toModel.unpack with
  | notANumber | infinity s => rw [form] at whole; cases whole
  | zero s | finite s m e positive => rfl

theorem beq_zero_iff (whole : IsWhole x n) : (x == 0) = true ↔ n = 0 := by
  have places : (x == 0) = true ↔ place x.toModel.unpack = 0 := by
    change (x.toModel.compare (0 : Float).toModel == some .eq) = true ↔ _
    rw [compare_eq (isFinite_whole whole) rfl, beq_iff_eq, Option.some.injEq]
    exact Int.compare_eq_eq
  rw [places]
  by_cases zero : n = 0
  · subst zero
    obtain ⟨s, form⟩ := whole.zero
    rw [form]
    exact iff_of_true rfl rfl
  · refine iff_of_false ?_ zero
    obtain ⟨s, m, e, canonical, form, -, -⟩ := whole.finite zero
    rw [form]
    have := canonical.least
    have := canonical.positive
    cases s <;> simp only [place, Sign.apply] <;> omega

/-- A number that drawings do not round: three decimals of it are exact. -/
def IsModerate (n : ℤ) : Prop :=
  (n * 1000).natAbs < 2 ^ 53

theorem isWhole_one : IsWhole 1 1 := by
  change ((2 ^ 52 : ℕ) : ℚ) * 2 ^ (-52 : ℤ) = (1 : ℤ)
  norm_num

theorem isWhole_thousand : IsWhole 1000 1000 := by
  change ((1000 * 2 ^ 43 : ℕ) : ℚ) * 2 ^ (-43 : ℤ) = (1000 : ℤ)
  norm_num

theorem pixelText_whole (whole : IsWhole x n) (moderate : IsModerate n) : pixelText x = toString n := by
  have short : n.natAbs < 2 ^ 53 := by
    unfold IsModerate at moderate
    omega
  have rounded : IsWhole (roundHalfAway (x * 1000) / 1000) n :=
    ((whole.mul isWhole_thousand moderate).roundHalfAway moderate).div isWhole_thousand (by decide) short
  unfold pixelText
  rw [if_pos (isFinite_whole whole)]
  simp only
  by_cases zero : n = 0
  · rw [if_pos ((beq_zero_iff rounded).mpr zero), zero]
    rfl
  · rw [if_neg fun equal => zero ((beq_zero_iff rounded).mp equal)]
    exact plainText_whole rounded zero short

end Handoff
