import Mathlib.Algebra.Order.Field.Rat
import Mathlib.Data.Nat.Log
import Mathlib.Tactic.Linarith
import Mathlib.Tactic.NormNum
import Mathlib.Tactic.Positivity
import Mathlib.Tactic.FieldSimp
import Mathlib.Tactic.Ring
import Handoff.Decimal.Shortest
import Handoff.Proofs.Decimal.Binary

set_option autoImplicit false
set_option relaxedAutoImplicit false

/-!
Rounding to binary numbers.

A mantissa is shifted right with two digits that tell what was lost; they stand for the exact number all the way. What
is rounded in the end is the one canonical number whose interval holds the exact one.
-/

namespace Handoff.Binary
open Float.Model (UnpackedFloat Format totalExponent)
open Float.Model.UnpackedFloat
open Decimal (lowEnd highEnd)

/-- A mantissa and its two residual digits stand for a number: they tell in which half of the last place it is. -/
def Stands (em : ExtendedMantissa) (x : ℚ) : Prop :=
  match em.roundBit, em.stickyBit with
  | false, false => x = em.mantissa
  | false, true => em.mantissa < x ∧ x < em.mantissa + 1 / 2
  | true, false => x = em.mantissa + 1 / 2
  | true, true => em.mantissa + 1 / 2 < x ∧ x < em.mantissa + 1

theorem Stands.floor {em : ExtendedMantissa} {x : ℚ} (h : Stands em x) :
    em.mantissa ≤ x ∧ x < em.mantissa + 1 := by
  obtain ⟨m, round, sticky⟩ := em
  cases round <;> cases sticky <;> simp only [Stands] at h
  · subst h
    constructor <;> linarith
  · constructor <;> linarith
  · subst h
    constructor <;> linarith
  · constructor <;> linarith

private theorem Stands.shiftRightOne {em : ExtendedMantissa} {x : ℚ} (h : Stands em x) :
    Stands em.shiftRightOne (x / 2) := by
  obtain ⟨m, round, sticky⟩ := em
  obtain ⟨k, rfl | rfl⟩ : ∃ k, m = 2 * k ∨ m = 2 * k + 1 := ⟨m / 2, by omega⟩
  · have half : 2 * k / 2 = k := by omega
    have even : (2 * k % 2 != 0) = false := by simp
    simp only [ExtendedMantissa.shiftRightOne, half, even]
    cases round <;> cases sticky <;> simp only [Stands, Bool.or_false, Bool.or_true] at h ⊢ <;> push_cast at h
    · linarith
    · constructor <;> linarith
    · constructor <;> linarith
    · constructor <;> linarith
  · have half : (2 * k + 1) / 2 = k := by omega
    have odd : ((2 * k + 1) % 2 != 0) = true := by
      rw [Nat.mul_add_mod_self_left]
      rfl
    simp only [ExtendedMantissa.shiftRightOne, half, odd]
    cases round <;> cases sticky <;> simp only [Stands, Bool.or_false, Bool.or_true] at h ⊢ <;> push_cast at h
    · linarith
    · constructor <;> linarith
    · constructor <;> linarith
    · constructor <;> linarith

theorem Stands.shiftRight {em : ExtendedMantissa} {x : ℚ} (h : Stands em x) (n : ℕ) :
    Stands (em >>> n) (x / 2 ^ n) := by
  change Stands (n.repeat ExtendedMantissa.shiftRightOne em) (x / 2 ^ n)
  induction n with
  | zero => simpa [Nat.repeat] using h
  | succ n ih =>
    rw [Nat.repeat, pow_succ, ← div_div]
    exact ih.shiftRightOne

/-- A number is near a whole one: half a place off at most, and just half only from an even one. -/
def Near (m : ℕ) (x : ℚ) : Prop :=
  if m % 2 = 0 then m - 1 / 2 ≤ x ∧ x ≤ m + 1 / 2 else m - 1 / 2 < x ∧ x < m + 1 / 2

theorem Near.bounds {m : ℕ} {x : ℚ} (h : Near m x) : m - 1 / 2 ≤ x ∧ x ≤ m + 1 / 2 := by
  unfold Near at h
  split at h
  · exact h
  · exact ⟨h.1.le, h.2.le⟩

theorem Stands.rounded {em : ExtendedMantissa} {x : ℚ} {m : ℕ} (h : Stands em x) (near : Near m x) :
    em.roundedMantissa = m := by
  obtain ⟨k, round, sticky⟩ := em
  obtain ⟨low, high⟩ := near.bounds
  have reach : ∀ a b : ℕ, (a : ℚ) < b + 1 → a ≤ b := by
    intro a b less
    exact Nat.lt_succ_iff.mp (by exact_mod_cast less)
  cases round <;> cases sticky <;> simp only [Stands] at h <;>
    simp only [ExtendedMantissa.roundedMantissa, ExtendedMantissa.accuracy, Accuracy.roundToNearestEven]
  · have := reach k m (by linarith)
    have := reach m k (by linarith)
    omega
  · have := reach k m (by linarith)
    have := reach m k (by linarith)
    omega
  · have := reach k m (by linarith)
    have := reach m (k + 1) (by push_cast; linarith)
    unfold Near at near
    split at near
    · omega
    · have : m ≠ k := by
        rintro rfl
        linarith
      have : m ≠ k + 1 := by
        rintro rfl
        push_cast at near
        linarith
      omega
  · have := reach (k + 1) m (by push_cast; linarith)
    have := reach m (k + 1) (by push_cast; linarith)
    omega

theorem stands_exact (m : ℕ) : Stands (ExtendedMantissa.ofMantissaAndAccuracy m .exact) m := rfl

theorem stands_fraction (a b : ℕ) (positive : 0 < b) :
    Stands (ExtendedMantissa.ofMantissaAndAccuracy (a / b) (accuracyOfFraction (a % b) b)) (a / b) := by
  have parts : (a : ℚ) = b * (a / b : ℕ) + (a % b : ℕ) := by
    exact_mod_cast (Nat.div_add_mod a b).symm
  have small : ((a % b : ℕ) : ℚ) < b := by exact_mod_cast Nat.mod_lt a positive
  have wide : (0 : ℚ) < b := by exact_mod_cast positive
  generalize a / b = q at *
  generalize a % b = r at *
  have split : (a : ℚ) / b = q + r / b := by
    rw [parts]
    field_simp
  rw [split]
  unfold accuracyOfFraction
  split
  · rename_i zero
    simp [Stands, ExtendedMantissa.ofMantissaAndAccuracy, zero]
  · rename_i some
    have some : (0 : ℚ) < r := by exact_mod_cast Nat.pos_of_ne_zero some
    have fraction : 0 < (r : ℚ) / b := by positivity
    have whole : (r : ℚ) / b < 1 := by rwa [div_lt_one wide]
    rcases Nat.lt_trichotomy (2 * r) b with less | same | more
    · rw [Nat.compare_eq_lt.mpr less]
      have : (r : ℚ) / b < 1 / 2 := by
        rw [div_lt_div_iff₀ wide two_pos]
        have : (2 * r : ℚ) < b := by exact_mod_cast less
        linarith
      change (q : ℚ) < q + r / b ∧ (q : ℚ) + r / b < q + 1 / 2
      constructor <;> linarith
    · rw [Nat.compare_eq_eq.mpr same]
      have : (r : ℚ) / b = 1 / 2 := by
        rw [div_eq_div_iff wide.ne' two_ne_zero]
        have : (2 * r : ℚ) = b := by exact_mod_cast same
        linarith
      change (q : ℚ) + r / b = q + 1 / 2
      rw [this]
    · rw [Nat.compare_eq_gt.mpr more]
      have : 1 / 2 < (r : ℚ) / b := by
        rw [div_lt_div_iff₀ two_pos wide]
        have : (b : ℚ) < 2 * r := by exact_mod_cast more
        linarith
      change (q : ℚ) + 1 / 2 < q + r / b ∧ (q : ℚ) + r / b < q + 1
      constructor <;> linarith

/-- The numbers that `m * 2 ^ e` stands for. -/
def RoundsTo (m : ℕ) (e : ℤ) (v : ℚ) : Prop :=
  if m % 2 = 0 then lowEnd m e * 2 ^ (e - 2) ≤ v ∧ v ≤ highEnd m * 2 ^ (e - 2)
  else lowEnd m e * 2 ^ (e - 2) < v ∧ v < highEnd m * 2 ^ (e - 2)

theorem RoundsTo.bounds {m : ℕ} {e : ℤ} {v : ℚ} (h : RoundsTo m e v) :
    lowEnd m e * 2 ^ (e - 2) ≤ v ∧ v ≤ highEnd m * 2 ^ (e - 2) := by
  unfold RoundsTo at h
  split at h
  · exact h
  · exact ⟨h.1.le, h.2.le⟩

theorem RoundsTo.between {m : ℕ} {e : ℤ} {a b v : ℚ} (first : RoundsTo m e a) (second : RoundsTo m e b) (low : a ≤ v)
    (high : v ≤ b) : RoundsTo m e v := by
  unfold RoundsTo at *
  split
  · rename_i even
    rw [if_pos even] at first second
    exact ⟨first.1.trans low, high.trans second.2⟩
  · rename_i odd
    rw [if_neg odd] at first second
    exact ⟨first.1.trans_le low, high.trans_lt second.2⟩

theorem quarter (e : ℤ) : (2 : ℚ) ^ e = 4 * 2 ^ (e - 2) := by
  have split : (2 : ℚ) ^ e = 2 ^ (2 + (e - 2)) := by congr 1; omega
  rw [split, zpow_add₀ two_ne_zero]
  norm_num

theorem cast_highEnd (m : ℕ) : (highEnd m : ℚ) = 4 * m + 2 := by
  unfold highEnd
  push_cast
  rfl

private theorem two_zpow_pos (e : ℤ) : (0 : ℚ) < 2 ^ e :=
  zpow_pos two_pos e

private theorem two_zpow_le {a b : ℤ} (h : a ≤ b) : (2 : ℚ) ^ a ≤ 2 ^ b :=
  zpow_le_zpow_right₀ one_le_two h

private theorem lt_of_two_zpow_lt {a b : ℤ} (h : (2 : ℚ) ^ a < 2 ^ b) : a < b :=
  (zpow_lt_zpow_iff_right₀ one_lt_two).mp h

private theorem natCast_two_pow (n : ℕ) (e : ℤ) : ((2 ^ n : ℕ) : ℚ) * 2 ^ e = 2 ^ (n + e) := by
  rw [zpow_add₀ two_ne_zero, zpow_natCast]
  push_cast
  rfl

theorem Canonical.roundsTo_self {m : ℕ} {e : ℤ} (canonical : Canonical m e) : RoundsTo m e (m * 2 ^ e) := by
  have unit := two_zpow_pos (e - 2)
  have some := canonical.positive
  have low : (lowEnd m e : ℚ) < 4 * m := by
    have : lowEnd m e < 4 * m := by
      unfold lowEnd
      split <;> omega
    exact_mod_cast this
  have lower : (lowEnd m e : ℚ) * 2 ^ (e - 2) < m * 2 ^ e := by
    rw [quarter e]
    nlinarith
  have upper : (m : ℚ) * 2 ^ e < highEnd m * 2 ^ (e - 2) := by
    rw [quarter e, cast_highEnd]
    nlinarith
  unfold RoundsTo
  split
  · exact ⟨lower.le, upper.le⟩
  · exact ⟨lower, upper⟩

theorem RoundsTo.lt {m : ℕ} {e : ℤ} {v : ℚ} (canonical : Canonical m e) (h : RoundsTo m e v) :
    v < 2 ^ (53 + e) := by
  have short : ((4 * m + 2 : ℕ) : ℚ) < ((4 * 2 ^ 53 : ℕ) : ℚ) := by
    have := canonical.short
    exact_mod_cast (by omega : 4 * m + 2 < 4 * 2 ^ 53)
  have place := two_zpow_pos (e - 2)
  calc
    v ≤ (4 * m + 2 : ℕ) * 2 ^ (e - 2) := h.bounds.2
    _ < (4 * 2 ^ 53 : ℕ) * 2 ^ (e - 2) := by gcongr
    _ = (2 ^ 53 : ℕ) * 2 ^ e := by
      rw [quarter e]
      push_cast
      ring
    _ = 2 ^ (53 + e) := natCast_two_pow 53 e

theorem RoundsTo.pos {m : ℕ} {e : ℤ} {v : ℚ} (canonical : Canonical m e) (h : RoundsTo m e v) :
    2 ^ (-1075 : ℤ) ≤ v := by
  have some : 2 ≤ lowEnd m e := by
    have := canonical.positive
    unfold lowEnd
    split <;> omega
  have least := canonical.least
  calc
    (2 : ℚ) ^ (-1075 : ℤ) ≤ 2 ^ (e - 1) := two_zpow_le (by omega)
    _ = 2 * 2 ^ (e - 2) := by
      rw [← zpow_one_add₀ two_ne_zero]
      congr 1
      omega
    _ ≤ lowEnd m e * 2 ^ (e - 2) := by
      have := two_zpow_pos (e - 2)
      gcongr
      exact_mod_cast some
    _ ≤ v := h.bounds.1

private theorem log2_bounds {em : ExtendedMantissa} {v : ℚ} {s : ℤ} (stands : Stands em (v / 2 ^ s))
    (some : em.mantissa ≠ 0) : 2 ^ (em.mantissa.log2 + s) ≤ v ∧ v < 2 ^ (em.mantissa.log2 + 1 + s) := by
  obtain ⟨low, high⟩ := stands.floor
  have place := two_zpow_pos s
  rw [le_div_iff₀ place] at low
  rw [div_lt_iff₀ place] at high
  have first : ((2 ^ em.mantissa.log2 : ℕ) : ℚ) ≤ em.mantissa := by
    exact_mod_cast Nat.log2_self_le some
  have last : (em.mantissa : ℚ) + 1 ≤ (2 ^ (em.mantissa.log2 + 1) : ℕ) := by
    exact_mod_cast Nat.lt_log2_self
  constructor
  · rw [← natCast_two_pow]
    exact le_trans (by gcongr) low
  · have shown := natCast_two_pow (em.mantissa.log2 + 1) s
    push_cast at shown last
    rw [← shown]
    exact lt_of_lt_of_le high (by gcongr)

theorem target_eq (q : ℕ) (s : ℤ) :
    Format.binary64.targetExponent (totalExponent q s) = max (q.log2 + 1 + s - 53) (-1074) := rfl

/-- A number whose first digit stands at `k` is kept with the exponent `k - 52`, or with the least one. -/
private theorem target_of_place {em : ExtendedMantissa} {v : ℚ} {s k : ℤ} (stands : Stands em (v / 2 ^ s))
    (fine : s ≤ Format.binary64.targetExponent (totalExponent em.mantissa s)) (low : 2 ^ k ≤ v ∨ k = -1022)
    (high : v < 2 ^ (k + 1)) (least : -1074 ≤ k - 52) :
    Format.binary64.targetExponent (totalExponent em.mantissa s) = k - 52 := by
  rw [target_eq] at fine ⊢
  by_cases none : em.mantissa = 0
  · have below := stands.floor.2
    rw [none, div_lt_iff₀ (two_zpow_pos s)] at below
    rw [none, Nat.log2_zero] at fine ⊢
    rcases low with low | low
    · have : k < s := lt_of_two_zpow_lt (lt_of_le_of_lt low (by simpa using below))
      omega
    · omega
  · obtain ⟨first, last⟩ := log2_bounds stands none
    have upper : (em.mantissa.log2 : ℤ) + s < k + 1 := lt_of_two_zpow_lt (lt_of_le_of_lt first high)
    rcases low with low | low
    · have lower : k < em.mantissa.log2 + 1 + s := lt_of_two_zpow_lt (lt_of_le_of_lt low last)
      omega
    · omega

private theorem stands_shiftToExponent {q : ℕ} {acc : Accuracy} {v : ℚ} {s t : ℤ}
    (stands : Stands (ExtendedMantissa.ofMantissaAndAccuracy q acc) (v / 2 ^ s)) (le : s ≤ t) :
    Stands (shiftToExponent q s acc t).1 (v / 2 ^ t) ∧ (shiftToExponent q s acc t).2 = t := by
  obtain ⟨n, rfl⟩ : ∃ n : ℕ, t = s + n := ⟨(t - s).toNat, by omega⟩
  have amount : (s + (n : ℤ) - s).toNat = n := by omega
  simp only [shiftToExponent, amount]
  refine ⟨?_, trivial⟩
  rw [zpow_add₀ two_ne_zero, zpow_natCast, ← div_div]
  exact stands.shiftRight n

private theorem mantissa_ofMantissaAndAccuracy (q : ℕ) (acc : Accuracy) :
    (ExtendedMantissa.ofMantissaAndAccuracy q acc).mantissa = q := by
  cases acc with
  | exact => rfl
  | inexact order => cases order <;> rfl

private theorem shift_canonical {m : ℕ} {e : ℤ} (canonical : Canonical m e) :
    shiftToTargetExponent Format.binary64 m e .exact = (⟨m, false, false⟩, e) := by
  have target : Format.binary64.targetExponent (totalExponent m e) = e := by
    have nonzero := canonical.positive.ne'
    have short := (Nat.log2_lt nonzero).mpr canonical.short
    have least := canonical.least
    rw [target_eq]
    rcases canonical.full with full | full
    · have := (Nat.le_log2 nonzero).mpr full
      omega
    · omega
  have amount : (e - e).toNat = 0 := by omega
  rw [shiftToTargetExponent, target]
  simp only [shiftToExponent, amount]
  change (ExtendedMantissa.ofMantissaAndAccuracy m .exact, e + 0) = _
  rw [Int.add_zero]
  rfl

private theorem shift_carry {e : ℤ} (least : -1074 < e) :
    shiftToTargetExponent Format.binary64 (2 ^ 53) (e - 1) .exact = (⟨2 ^ 52, false, false⟩, e) := by
  have target : Format.binary64.targetExponent (totalExponent (2 ^ 53) (e - 1)) = e := by
    rw [target_eq, Nat.log2_two_pow]
    omega
  have amount : (e - (e - 1)).toNat = 1 := by omega
  rw [shiftToTargetExponent, target]
  simp only [shiftToExponent, amount]
  have whole : e - 1 + ((1 : ℕ) : ℤ) = e := by omega
  rw [whole]
  rfl

theorem near_of_roundsTo {m : ℕ} {e : ℤ} {v : ℚ} (canonical : Canonical m e) (h : RoundsTo m e v) :
    Near m (v / 2 ^ e) := by
  have place := two_zpow_pos e
  have some := canonical.positive
  have low : (4 * m - 2 : ℚ) ≤ lowEnd m e := by
    have : 4 * m ≤ lowEnd m e + 2 := by
      unfold lowEnd
      split <;> omega
    have : (4 * m : ℚ) ≤ lowEnd m e + 2 := by exact_mod_cast this
    linarith
  have quarters := quarter e
  have below : (m - 1 / 2) * 2 ^ e ≤ lowEnd m e * (2 : ℚ) ^ (e - 2) := by
    rw [quarters]
    have := two_zpow_pos (e - 2)
    nlinarith
  have above : (m + 1 / 2) * 2 ^ e = highEnd m * (2 : ℚ) ^ (e - 2) := by
    rw [quarters, cast_highEnd]
    ring
  unfold RoundsTo at h
  unfold Near
  rw [le_div_iff₀ place, lt_div_iff₀ place, div_le_iff₀ place, div_lt_iff₀ place, above]
  split
  · rename_i even
    rw [if_pos even] at h
    exact ⟨le_trans below h.1, h.2⟩
  · rename_i odd
    rw [if_neg odd] at h
    exact ⟨lt_of_le_of_lt below h.1, h.2⟩

private theorem roundWithAccuracy_of_shift {sign : Sign} {q m k : ℕ} {s e t : ℤ} {acc : Accuracy}
    (positive : 0 < m) (exponent : (shiftToTargetExponent Format.binary64 q s acc).2 = t)
    (rounded : (shiftToTargetExponent Format.binary64 q s acc).1.roundedMantissa = k)
    (carry : shiftToTargetExponent Format.binary64 k t .exact = (⟨m, false, false⟩, e)) :
    roundWithAccuracy Format.binary64 sign q s acc = .finite sign m e positive := by
  unfold roundWithAccuracy
  simp only [exponent, rounded, carry]
  rw [dif_neg positive.ne']

private theorem round_in_place {sign : Sign} {q m : ℕ} {s e : ℤ} {acc : Accuracy} {v : ℚ}
    (canonical : Canonical m e) (h : RoundsTo m e v)
    (stands : Stands (ExtendedMantissa.ofMantissaAndAccuracy q acc) (v / 2 ^ s))
    (fine : s ≤ Format.binary64.targetExponent (totalExponent q s)) (whole : 2 ^ (52 + e) ≤ v ∨ e = -1074) :
    roundWithAccuracy Format.binary64 sign q s acc = .finite sign m e canonical.positive := by
  have least := canonical.least
  have aim : Format.binary64.targetExponent (totalExponent q s) = e := by
    have place := target_of_place (k := 52 + e) stands
    rw [mantissa_ofMantissaAndAccuracy, show 52 + e + 1 = 53 + e by omega] at place
    have := place fine (whole.imp_right (by omega)) (h.lt canonical) (by omega)
    omega
  obtain ⟨shifted, exponent⟩ := stands_shiftToExponent stands (aim ▸ fine)
  refine roundWithAccuracy_of_shift canonical.positive (t := e) (k := m) ?_ ?_ (shift_canonical canonical)
  · rw [shiftToTargetExponent, aim, exponent]
  · rw [shiftToTargetExponent, aim]
    exact shifted.rounded (near_of_roundsTo canonical h)

private theorem eq_power_of_lt {m : ℕ} {e : ℤ} {v : ℚ} (canonical : Canonical m e) (h : RoundsTo m e v)
    (above : e ≠ -1074) (below : v < 2 ^ (52 + e)) : m = 2 ^ 52 := by
  by_contra other
  have place := two_zpow_pos (e - 2)
  have full : 2 ^ 52 < m := by
    have := canonical.full.resolve_right above
    omega
  have low : 4 * 2 ^ 52 ≤ lowEnd m e := by
    unfold lowEnd
    split <;> omega
  have low : ((4 * 2 ^ 52 : ℕ) : ℚ) ≤ lowEnd m e := by exact_mod_cast low
  have reached : (2 : ℚ) ^ (52 + e) ≤ v := by
    calc
      (2 : ℚ) ^ (52 + e) = (2 ^ 52 : ℕ) * 2 ^ e := (natCast_two_pow 52 e).symm
      _ = (4 * 2 ^ 52 : ℕ) * 2 ^ (e - 2) := by
        rw [quarter e]
        push_cast
        ring
      _ ≤ lowEnd m e * 2 ^ (e - 2) := by gcongr
      _ ≤ v := h.bounds.1
  linarith

private theorem round_up_to_power {sign : Sign} {q : ℕ} {s e : ℤ} {acc : Accuracy} {v : ℚ}
    (canonical : Canonical (2 ^ 52) e) (h : RoundsTo (2 ^ 52) e v)
    (stands : Stands (ExtendedMantissa.ofMantissaAndAccuracy q acc) (v / 2 ^ s))
    (fine : s ≤ Format.binary64.targetExponent (totalExponent q s)) (above : e ≠ -1074)
    (below : v < 2 ^ (52 + e)) :
    roundWithAccuracy Format.binary64 sign q s acc = .finite sign (2 ^ 52) e canonical.positive := by
  have least := canonical.least
  have unit := two_zpow_pos (e - 2)
  have half : (2 : ℚ) ^ (e - 1) = 2 * 2 ^ (e - 2) := by
    rw [← zpow_one_add₀ two_ne_zero]
    congr 1
    omega
  have lower : (4 * 2 ^ 52 - 1) * 2 ^ (e - 2) ≤ v := by
    have low : lowEnd (2 ^ 52) e = 4 * 2 ^ 52 - 1 := if_pos ⟨rfl, by omega⟩
    have reached := h.bounds.1
    rw [low] at reached
    norm_num at reached ⊢
    exact reached
  have upper : v < 4 * 2 ^ 52 * 2 ^ (e - 2) := by
    have shown := natCast_two_pow 52 e
    rw [quarter e] at shown
    push_cast at shown
    rw [← shown] at below
    linarith
  have aim : Format.binary64.targetExponent (totalExponent q s) = e - 1 := by
    have digit : (2 : ℚ) ^ (51 + e) ≤ v := by
      have shown := natCast_two_pow 51 e
      rw [quarter e] at shown
      push_cast at shown
      rw [← shown]
      linarith
    have place := target_of_place (k := 51 + e) stands
    rw [mantissa_ofMantissaAndAccuracy, show 51 + e + 1 = 52 + e by omega] at place
    have := place fine (Or.inl digit) below (by omega)
    omega
  obtain ⟨shifted, exponent⟩ := stands_shiftToExponent stands (aim ▸ fine)
  refine roundWithAccuracy_of_shift canonical.positive (t := e - 1) (k := 2 ^ 53) ?_ ?_ (shift_carry (by omega))
  · rw [shiftToTargetExponent, aim, exponent]
  · rw [shiftToTargetExponent, aim]
    refine shifted.rounded ?_
    have wide := two_zpow_pos (e - 1)
    rw [Near, if_pos (by norm_num), le_div_iff₀ wide, div_le_iff₀ wide, half]
    push_cast
    constructor <;> linarith

/-- Rounding a number gives the canonical one that it is among the numbers of. -/
theorem roundWithAccuracy_eq {sign : Sign} {q m : ℕ} {s e : ℤ} {acc : Accuracy} {v : ℚ}
    (canonical : Canonical m e) (h : RoundsTo m e v)
    (stands : Stands (ExtendedMantissa.ofMantissaAndAccuracy q acc) (v / 2 ^ s))
    (fine : s ≤ Format.binary64.targetExponent (totalExponent q s)) :
    roundWithAccuracy Format.binary64 sign q s acc = .finite sign m e canonical.positive := by
  by_cases whole : 2 ^ (52 + e) ≤ v ∨ e = -1074
  · exact round_in_place canonical h stands fine whole
  · rw [not_or, not_le] at whole
    obtain ⟨below, above⟩ := whole
    obtain rfl := eq_power_of_lt canonical h above below
    exact round_up_to_power canonical h stands fine above below

/-- A product has the canonical number that the exact one is among the numbers of. -/
theorem mul_eq {m a b : ℕ} {e f g : ℤ} (canonical : Canonical m e) (s t : Sign) {ha : 0 < a} {hb : 0 < b}
    (h : RoundsTo m e (a * 2 ^ f * (b * 2 ^ g))) (wide : 2 ^ 52 ≤ a * b) :
    mul Format.binary64 (.finite s a f ha) (.finite t b g hb) = .finite (s * t) m e canonical.positive := by
  refine roundWithAccuracy_eq canonical h ?_ ?_
  · have value : ((a * b : ℕ) : ℚ) = a * 2 ^ f * (b * 2 ^ g) / 2 ^ (f + g) := by
      rw [zpow_add₀ two_ne_zero]
      push_cast
      field_simp
    rw [← value]
    exact stands_exact _
  · have := (Nat.le_log2 (by omega)).mpr wide
    rw [target_eq]
    omega

/-- A quotient has the canonical number that the exact one is among the numbers of. -/
theorem div_eq {m a b : ℕ} {e f g : ℤ} (canonical : Canonical m e) (s t : Sign) {ha : 0 < a} {hb : 0 < b}
    (h : RoundsTo m e (a * 2 ^ f / (b * 2 ^ g))) :
    div Format.binary64 (.finite s a f ha) (.finite t b g hb) = .finite (s / t) m e canonical.positive := by
  have large : (0 : ℚ) < b := by exact_mod_cast hb
  obtain ⟨k, start⟩ : ∃ k : ℕ, min (f - g)
      (Format.binary64.targetExponent (totalExponent a f - totalExponent b g)) = f - g - k :=
    ⟨(f - g - min (f - g) (Format.binary64.targetExponent (totalExponent a f - totalExponent b g))).toNat, by omega⟩
  have amount : (f - g - (f - g - k)).toNat = k := by omega
  have value : (((a <<< k : ℕ) : ℚ) / b) = a * 2 ^ f / (b * 2 ^ g) / 2 ^ (f - g - k) := by
    rw [Nat.shiftLeft_eq, zpow_sub₀ two_ne_zero, zpow_sub₀ two_ne_zero, zpow_natCast]
    push_cast
    field_simp
  have stands := stands_fraction (a <<< k) b hb
  rw [value] at stands
  unfold div divCore
  simp only [start, amount]
  refine roundWithAccuracy_eq canonical h stands ?_
  -- The quotient has the digits that it needs, or the exponent is the least.
  rw [target_eq]
  have reach : min (f - g) (max ((a.log2 + 1 + f) - (b.log2 + 1 + g) - 53) (-1074)) = f - g - k := start
  by_cases deep : f - g - k ≤ -1074
  · omega
  · have full : 2 ^ 52 ≤ (a <<< k) / b := by
      rw [Nat.le_div_iff_mul_le hb, Nat.shiftLeft_eq]
      calc
        2 ^ 52 * b ≤ 2 ^ 52 * 2 ^ (b.log2 + 1) := Nat.mul_le_mul_left _ Nat.lt_log2_self.le
        _ = 2 ^ (b.log2 + 53) := by rw [← Nat.pow_add]; congr 1; omega
        _ ≤ 2 ^ (a.log2 + k) := Nat.pow_le_pow_right (by norm_num) (by omega)
        _ = 2 ^ a.log2 * 2 ^ k := Nat.pow_add 2 _ _
        _ ≤ a * 2 ^ k := Nat.mul_le_mul_right _ (Nat.log2_self_le ha.ne')
    have := (Nat.le_log2 (by omega)).mpr full
    omega

private theorem ten_zpow_natCast (n : ℕ) : (10 : ℚ) ^ (n : ℤ) = (10 ^ n : ℕ) := by
  rw [zpow_natCast]
  push_cast
  rfl

private theorem not_small_of_le {p : ℕ} {t : ℤ} (low : (2 : ℚ) ^ (-1075 : ℤ) ≤ p * 10 ^ t) :
    ¬t < -(2048 + (p.log2 : ℤ)) := by
  intro small
  obtain ⟨n, rfl⟩ : ∃ n : ℕ, t = -(n : ℤ) := ⟨(-t).toNat, by omega⟩
  have few : (p : ℚ) < (2 ^ (p.log2 + 1) : ℕ) := by exact_mod_cast Nat.lt_log2_self
  have tenth : (10 : ℚ) ^ (-(n : ℤ)) ≤ 2 ^ (-(n : ℤ)) := by
    rw [zpow_neg, zpow_neg, zpow_natCast, zpow_natCast]
    gcongr
    norm_num
  have tenth_pos : (0 : ℚ) < 10 ^ (-(n : ℤ)) := zpow_pos (by norm_num) _
  have upper : (p : ℚ) * 10 ^ (-(n : ℤ)) < 2 ^ (((p.log2 + 1 : ℕ) : ℤ) + -(n : ℤ)) := by
    rw [← natCast_two_pow]
    calc
      (p : ℚ) * 10 ^ (-(n : ℤ)) < (2 ^ (p.log2 + 1) : ℕ) * 10 ^ (-(n : ℤ)) := by gcongr
      _ ≤ (2 ^ (p.log2 + 1) : ℕ) * 2 ^ (-(n : ℤ)) := by gcongr
  have := lt_of_two_zpow_lt (lt_of_le_of_lt low upper)
  push_cast at this
  omega

private theorem not_large_of_lt {p : ℕ} {e t : ℤ} (some : p ≠ 0) (most : e ≤ 971)
    (high : (p : ℚ) * 10 ^ t < 2 ^ (53 + e)) : ¬2048 < t := by
  intro large
  have one : (1 : ℚ) ≤ p := by exact_mod_cast Nat.pos_of_ne_zero some
  obtain ⟨n, rfl⟩ := Int.eq_ofNat_of_zero_le (show 0 ≤ t by omega)
  have power : (2 : ℚ) ^ (n : ℤ) ≤ 10 ^ (n : ℤ) := by
    rw [zpow_natCast, zpow_natCast]
    gcongr
    norm_num
  have lower : (2 : ℚ) ^ (n : ℤ) ≤ p * 10 ^ (n : ℤ) := by
    have := two_zpow_pos n
    nlinarith
  have := lt_of_two_zpow_lt (lt_of_le_of_lt lower high)
  omega

/-- A decimal reads as the canonical number that it is among the numbers of. -/
theorem ofScientific_eq {m p : ℕ} {e t : ℤ} (canonical : Canonical m e) (h : RoundsTo m e (p * 10 ^ t)) :
    ofScientific Format.binary64 p t = .finite .positive m e canonical.positive := by
  have low := h.pos canonical
  have some : p ≠ 0 := by
    rintro rfl
    have := two_zpow_pos (-1075)
    simp only [Nat.cast_zero, zero_mul] at low
    linarith
  have notLarge : ¬t > 2 ^ Format.binary64.exponentBits := not_large_of_lt some canonical.most (h.lt canonical)
  have notSmall : ¬t < -(2 ^ Format.binary64.exponentBits + (p.log2 : ℤ)) := not_small_of_le low
  unfold ofScientific
  rw [dif_neg some, if_neg notLarge, if_neg notSmall]
  split
  · rename_i whole
    obtain ⟨n, rfl⟩ := Int.eq_ofNat_of_zero_le whole
    refine mul_eq canonical .positive .positive ?_ ?_
    · have value : ((p <<< 53 : ℕ) : ℚ) * 2 ^ (-53 : ℤ) = p := by
        rw [Nat.shiftLeft_eq]
        push_cast
        norm_num
        ring
      change RoundsTo m e (((p <<< 53 : ℕ) : ℚ) * 2 ^ (-53 : ℤ) * _)
      rwa [value, zpow_zero, mul_one, Int.toNat_natCast, ← ten_zpow_natCast]
    · have ten : 0 < 10 ^ ((n : ℤ).toNat) := by positivity
      change 2 ^ 52 ≤ p <<< 53 * 10 ^ ((n : ℤ).toNat)
      rw [Nat.shiftLeft_eq]
      nlinarith [Nat.pos_of_ne_zero some]
  · rename_i fraction
    obtain ⟨n, rfl⟩ : ∃ n : ℕ, t = -(n : ℤ) := ⟨(-t).toNat, by omega⟩
    refine div_eq canonical .positive .positive ?_
    rw [Int.neg_neg, Int.toNat_natCast, zpow_zero, mul_one, mul_one, ← ten_zpow_natCast, div_eq_mul_inv, ← zpow_neg]
    exact h

end Handoff.Binary
