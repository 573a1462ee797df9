import Handoff.Decimal.Layout
import Handoff.Proofs.Decimal.Digits
import Handoff.Proofs.Decimal.Rounding

set_option autoImplicit false
set_option relaxedAutoImplicit false

/-!
The shortest decimals read back as the binary numbers that they were made from, and so do all ways to write them.
-/

namespace Handoff

namespace Decimal
open Binary

private theorem zpow_split (b : ℚ) (h : b ≠ 0) (t : ℤ) : b ^ t * b ^ (-t).toNat = b ^ t.toNat := by
  rw [← zpow_natCast, ← zpow_natCast, ← zpow_add₀ h]
  congr 1
  omega

private theorem gridRatio_eq (e t : ℤ) :
    ((gridRatio e t).1 : ℚ) * 10 ^ t = (gridRatio e t).2 * 2 ^ (e - 2) := by
  have two := zpow_split 2 two_ne_zero (e - 2)
  have ten := zpow_split 10 (by norm_num) t
  simp only [gridRatio, Nat.cast_mul, Nat.pow_eq, Nat.cast_pow, Nat.cast_ofNat]
  rw [← two, ← ten]
  ring

private theorem gridRatio_pos (e t : ℤ) : (0 : ℚ) < (gridRatio e t).1 ∧ (0 : ℚ) < (gridRatio e t).2 := by
  simp only [gridRatio, Nat.cast_mul, Nat.pow_eq, Nat.cast_pow, Nat.cast_ofNat]
  constructor <;> positivity

private theorem grid_le_iff (a p : ℕ) (e t : ℤ) :
    a * (gridRatio e t).1 ≤ p * (gridRatio e t).2 ↔ (a : ℚ) * 2 ^ (e - 2) ≤ p * 10 ^ t := by
  have ratio := gridRatio_eq e t
  obtain ⟨num, den⟩ := gridRatio_pos e t
  have place : (0 : ℚ) < 10 ^ t := zpow_pos (by norm_num) t
  rw [← @Nat.cast_le ℚ, Nat.cast_mul, Nat.cast_mul, ← mul_le_mul_iff_left₀ place, mul_assoc, ratio,
    ← mul_le_mul_iff_left₀ den (b := (a : ℚ) * 2 ^ (e - 2))]
  constructor <;> intro h <;> linarith

private theorem grid_ge_iff (a p : ℕ) (e t : ℤ) :
    p * (gridRatio e t).2 ≤ a * (gridRatio e t).1 ↔ (p : ℚ) * 10 ^ t ≤ a * 2 ^ (e - 2) := by
  have ratio := gridRatio_eq e t
  obtain ⟨num, den⟩ := gridRatio_pos e t
  have place : (0 : ℚ) < 10 ^ t := zpow_pos (by norm_num) t
  rw [← @Nat.cast_le ℚ, Nat.cast_mul, Nat.cast_mul, ← mul_le_mul_iff_left₀ place, mul_assoc (a : ℚ), ratio,
    ← mul_le_mul_iff_left₀ den (b := (p : ℚ) * 10 ^ t)]
  constructor <;> intro h <;> linarith

private theorem grid_lt_iff (a p : ℕ) (e t : ℤ) :
    a * (gridRatio e t).1 < p * (gridRatio e t).2 ↔ (a : ℚ) * 2 ^ (e - 2) < p * 10 ^ t := by
  rw [← not_le, ← not_le, grid_ge_iff]

private theorem grid_gt_iff (a p : ℕ) (e t : ℤ) :
    p * (gridRatio e t).2 < a * (gridRatio e t).1 ↔ (p : ℚ) * 10 ^ t < a * 2 ^ (e - 2) := by
  rw [← not_le, ← not_le, grid_le_iff]

/-- The test of a grid point tells whether it is among the numbers of `m * 2 ^ e`. -/
theorem readsBack_iff {m : ℕ} {e t : ℤ} {p : ℕ} : readsBack m e t p = true ↔ RoundsTo m e (p * 10 ^ t) := by
  unfold readsBack RoundsTo
  simp only
  split
  · rw [Bool.and_eq_true, Nat.ble_eq, Nat.ble_eq, grid_le_iff, grid_ge_iff]
  · rw [Bool.and_eq_true, Nat.blt_eq, Nat.blt_eq, grid_lt_iff, grid_gt_iff]

private theorem nearer_eq (tie : Tie) (m : ℕ) (e t : ℤ) :
    nearer tie m e t = floorOn m e t ∨ nearer tie m e t = floorOn m e t + 1 := by
  unfold nearer
  simp only
  split
  · exact Or.inl rfl
  · split
    · exact Or.inr rfl
    · cases tie with
      | up => exact Or.inr rfl
      | even =>
        rcases Nat.mod_two_eq_zero_or_one (floorOn m e t) with even | odd
        · exact Or.inl (by simp only [even, Nat.add_zero])
        · exact Or.inr (by simp only [odd])

theorem readsBack_onGrid {tie : Tie} {m : ℕ} {e t : ℤ} {p : ℕ} (h : onGrid tie m e t = some p) :
    readsBack m e t p = true := by
  unfold onGrid at h
  simp only at h
  split at h
  · rename_i below above
    obtain rfl := Option.some.inj h
    rcases nearer_eq tie m e t with same | same
    · rw [same]
      exact below
    · rw [same]
      exact above
  · rename_i below _
    obtain rfl := Option.some.inj h
    exact below
  · rename_i _ above
    obtain rfl := Option.some.inj h
    exact above
  · cases h

theorem floorOn_bounds (m : ℕ) (e t : ℤ) :
    (floorOn m e t : ℚ) * 10 ^ t ≤ m * 2 ^ e ∧ (m : ℚ) * 2 ^ e < (floorOn m e t + 1) * 10 ^ t := by
  obtain ⟨num, den⟩ := gridRatio_pos e t
  have den : 0 < (gridRatio e t).2 := by exact_mod_cast den
  have whole : (m : ℚ) * 2 ^ e = (4 * m : ℕ) * 2 ^ (e - 2) := by
    rw [quarter e]
    push_cast
    ring
  have below := (grid_ge_iff (4 * m) (floorOn m e t) e t).mp (Nat.div_mul_le_self _ _)
  have above := (grid_lt_iff (4 * m) (floorOn m e t + 1) e t).mp 
    (Nat.lt_mul_of_div_lt (Nat.lt_succ_self (floorOn m e t)) den)
  rw [whole]
  refine ⟨below, ?_⟩
  push_cast at above ⊢
  exact above

private theorem pow_lt_of_parts {a b : ℚ} (positive : 0 < a) (long : a ^ 93 < b ^ 28)
    (short : a ^ 52 < b ^ 16) : a ^ (1075 : ℤ) < b ^ (324 : ℤ) := by
  calc
    a ^ (1075 : ℤ) = (a ^ 93) ^ 11 * a ^ 52 := by
      rw [← pow_mul, ← pow_add]
      rfl
    _ < (b ^ 28) ^ 11 * b ^ 16 := by gcongr
    _ = b ^ (324 : ℤ) := by
      rw [← pow_mul, ← pow_add]
      rfl

/-- From the lower end of the interval to the number itself it is farther than a step of the finest grid. -/
private theorem finest_step {m : ℕ} {e : ℤ} (canonical : Canonical m e) :
    (lowEnd m e : ℚ) * 2 ^ (e - 2) + 10 ^ (-324 : ℤ) < m * 2 ^ e := by
  have least := canonical.least
  have step : (10 : ℚ) ^ (-324 : ℤ) < 2 ^ (-1075 : ℤ) := by
    rw [zpow_neg, zpow_neg]
    refine inv_strictAnti₀ (zpow_pos two_pos _) ?_
    exact pow_lt_of_parts two_pos (by norm_num) (by norm_num)
  have unit : (0 : ℚ) < 2 ^ (e - 2) := zpow_pos two_pos _
  have some := canonical.positive
  by_cases power : m = 2 ^ 52 ∧ -1074 < e
  · have low : lowEnd m e + 1 = 4 * m := by
      have : lowEnd m e = 4 * m - 1 := if_pos power
      omega
    have low : (lowEnd m e : ℚ) + 1 = 4 * m := by exact_mod_cast low
    have : (2 : ℚ) ^ (-1075 : ℤ) ≤ 2 ^ (e - 2) := zpow_le_zpow_right₀ one_le_two (by omega)
    rw [quarter e]
    nlinarith
  · have low : lowEnd m e + 2 = 4 * m := by
      have : lowEnd m e = 4 * m - 2 := if_neg power
      omega
    have low : (lowEnd m e : ℚ) + 2 = 4 * m := by exact_mod_cast low
    have double : (2 : ℚ) ^ (e - 1) = 2 * 2 ^ (e - 2) := by
      rw [← zpow_one_add₀ two_ne_zero]
      congr 1
      omega
    have : (2 : ℚ) ^ (-1075 : ℤ) ≤ 2 ^ (e - 1) := zpow_le_zpow_right₀ one_le_two (by omega)
    rw [quarter e]
    nlinarith

/-- A grid with some point for a number has a point next to the number. -/
theorem onGrid_of_reads (tie : Tie) {m : ℕ} {e : ℤ} (canonical : Canonical m e) {t : ℤ} {p : ℕ}
    (reads : RoundsTo m e (p * 10 ^ t)) : onGrid tie m e t ≠ none := by
  obtain ⟨below, above⟩ := floorOn_bounds m e t
  have own := canonical.roundsTo_self
  have step : (0 : ℚ) < 10 ^ t := zpow_pos (by norm_num) t
  have near : readsBack m e t (floorOn m e t) = true ∨ readsBack m e t (floorOn m e t + 1) = true := by
    rcases Nat.lt_or_ge (floorOn m e t) p with larger | smaller
    · refine .inr (readsBack_iff.mpr (own.between reads ?_ ?_))
      · push_cast
        exact above.le
      · exact mul_le_mul_of_nonneg_right (by exact_mod_cast larger) step.le
    · refine .inl (readsBack_iff.mpr (reads.between own ?_ below))
      exact mul_le_mul_of_nonneg_right (by exact_mod_cast smaller) step.le
  unfold onGrid
  rcases near with near | near
  · simp only [near]
    split <;> simp_all
  · simp only [near]
    split <;> simp_all

private theorem onGrid_finest (tie : Tie) {m : ℕ} {e : ℤ} (canonical : Canonical m e) :
    onGrid tie m e (-324) ≠ none := by
  obtain ⟨below, above⟩ := floorOn_bounds m e (-324)
  have far := finest_step canonical
  have own := canonical.roundsTo_self
  refine onGrid_of_reads tie canonical (p := floorOn m e (-324)) ?_
  unfold RoundsTo at own ⊢
  split
  · rename_i even
    rw [if_pos even] at own
    exact ⟨by linarith, below.trans own.2⟩
  · rename_i odd
    rw [if_neg odd] at own
    exact ⟨by linarith, below.trans_lt own.2⟩

private theorem search_reads (tie : Tie) {m : ℕ} {e : ℤ} (canonical : Canonical m e) (steps : ℕ) (t : ℤ)
    (reach : (steps : ℤ) = t + 325) (coarse : -324 ≤ t) :
    RoundsTo m e ((search tie m e steps t).digits * 10 ^ (search tie m e steps t).exponent) := by
  induction steps generalizing t with
  | zero => omega
  | succ steps ih =>
    unfold search
    split
    · rename_i p found
      exact readsBack_iff.mp (readsBack_onGrid found)
    · rename_i none
      refine ih (t - 1) (by omega) ?_
      by_contra finest
      obtain rfl : t = -324 := by omega
      exact onGrid_finest tie canonical none

/-- The shortest decimal of a number is among the decimals that read back as the number. -/
theorem shortest_reads (tie : Tie) {m : ℕ} {e : ℤ} (canonical : Canonical m e) :
    RoundsTo m e ((shortest tie m e).digits * 10 ^ (shortest tie m e).exponent) := by
  have least := canonical.least
  have start : -324 ≤ startOf (m.log2 + 2 + e) := by
    unfold startOf
    split <;> omega
  exact search_reads tie canonical _ _ (by omega) start

end Decimal

namespace Numeral

/-- The number that a numeral writes, its sign apart. -/
def value (n : Numeral) : ℚ :=
  digitsValue (n.whole ++ n.fraction.getD []) * 10 ^ (n.exponentValue - (n.fraction.getD []).length)

end Numeral

namespace Layout
open Numeral

private theorem digitsValue_wholeFraction (layout : Layout) (ds : List Char) :
    (digitsValue (ds ++ layout.wholeFraction.getD []) : ℚ) * 10 ^ (-(layout.wholeFraction.getD []).length : ℤ) =
      digitsValue ds := by
  unfold wholeFraction
  cases layout.pointZero with
  | true =>
    have shown : digitsValue (ds ++ ['0']) = digitsValue ds * 10 := digitsValue_append ds ['0']
    simp only [if_true, Option.getD_some, shown, List.length_singleton]
    push_cast
    rw [zpow_neg_one]
    field_simp
  | false => simp

private theorem value_spelled (layout : Layout) (negative : Bool) (ds : List Char) (exponent : ℤ) :
    (layout.spelled negative ds exponent).value = digitsValue ds * 10 ^ exponent := by
  unfold spelled
  split
  · rename_i whole
    obtain ⟨n, rfl⟩ := Int.eq_ofNat_of_zero_le whole
    have zeros := digitsValue_append ds (List.replicate n '0')
    rw [digitsValue_replicate_zero, List.length_replicate, Nat.add_zero] at zeros
    simp only [value, exponentValue, Int.toNat_natCast, Int.zero_sub]
    rw [digitsValue_wholeFraction, zeros, zpow_natCast]
    push_cast
    rfl
  · rename_i fraction
    obtain ⟨n, rfl⟩ : ∃ n : ℕ, exponent = -(n : ℤ) := ⟨(-exponent).toNat, by omega⟩
    simp only [Int.neg_neg, Int.toNat_natCast]
    split
    · rename_i inside
      have length : (ds.drop (ds.length - n)).length = n := by
        rw [List.length_drop]
        omega
      simp only [value, exponentValue, Option.getD_some, List.take_append_drop, length, Int.zero_sub]
    · rename_i outside
      have length : (List.replicate (n - ds.length) '0' ++ ds).length = n := by
        rw [List.length_append, List.length_replicate]
        omega
      have digits : digitsValue (['0'] ++ (List.replicate (n - ds.length) '0' ++ ds)) = digitsValue ds := by
        rw [digitsValue_append, digitsValue_append, digitsValue_replicate_zero]
        simp [digitsValue]
      simp only [value, exponentValue, Option.getD_some, digits, length, Int.zero_sub]

private theorem exponentValue_sign (lead : ℤ) :
    exponentValue ⟨false, [], none, some (decide (lead < 0), Nat.toDigits 10 lead.natAbs)⟩ = lead := by
  unfold exponentValue
  by_cases below : lead < 0
  · simp only [below, decide_true, digitsValue_toDigits]
    omega
  · simp only [below, decide_false, digitsValue_toDigits, Int.natAbs_of_nonneg (Int.not_lt.mp below)]

private theorem value_scientific (negative : Bool) (ds : List Char) (lead : ℤ) (some : ds ≠ []) :
    (scientific negative ds lead).value = digitsValue ds * 10 ^ (lead - (ds.length - 1 : ℕ)) := by
  have length := List.length_pos_of_ne_nil some
  have exponent : (scientific negative ds lead).exponentValue = lead := exponentValue_sign lead
  rw [value, exponent]
  unfold scientific
  split
  · rename_i short
    have one : ds.length = 1 := by omega
    have all : ds.take 1 = ds := List.take_of_length_le (by omega)
    simp only [Option.getD_none, List.append_nil, List.length_nil, all, one]
  · simp only [Option.getD_some, List.take_append_drop, List.length_drop]

theorem value_place (layout : Layout) (negative : Bool) (d : Decimal) :
    (layout.place negative d).value = d.digits * 10 ^ d.exponent := by
  have some : Nat.toDigits 10 d.digits ≠ [] := Nat.toDigits_ne_nil
  have length := List.length_pos_of_ne_nil some
  unfold place
  simp only
  split
  · rw [value_spelled, digitsValue_toDigits]
  · rw [value_scientific _ _ _ some, digitsValue_toDigits]
    congr 2
    omega

private theorem negative_place (layout : Layout) (negative : Bool) (d : Decimal) :
    (layout.place negative d).negative = negative := by
  unfold place spelled
  simp only
  split
  · split
    · rfl
    · split <;> rfl
  · rfl

private theorem nearest_eq {x : Float.Model} {u : Float.Model.UnpackedFloat} {digits : ℕ} {exponent : ℤ}
    (negative : Bool) (read : .ofScientific .binary64 digits exponent = u)
    (kept : (Float.Model.pack u).unpack = u) (whole : x.unpack = if negative then u.neg else u) :
    nearest negative digits exponent = Float.ofModel x := by
  have magnitude : Float.Model.ofScientific digits exponent = Float.Model.pack u := congrArg Float.Model.pack read
  unfold nearest
  rw [magnitude, ← Binary.pack_unpack x, whole]
  cases negative with
  | false => rfl
  | true =>
    change Float.ofModel (Float.Model.pack (Float.Model.pack u).unpack.neg) = _
    rw [kept]
    rfl

/-- A finite number reads back from what is written for it, in every layout. -/
theorem toFloat_numeral {layout : Layout} {x : Float} {n : Numeral} (h : layout.numeral x = some n) :
    n.toFloat = x := by
  obtain ⟨x⟩ := x
  unfold numeral at h
  simp only at h
  cases form : x.unpack with
  | notANumber => simp [form] at h
  | infinity s => simp [form] at h
  | zero s =>
    simp only [form, Option.some.injEq] at h
    subst h
    have none : digitsValue (['0'] ++ layout.wholeFraction.getD []) = 0 := by
      unfold wholeFraction
      cases layout.pointZero <;> rfl
    refine nearest_eq (u := .zero .positive) _ ?_ rfl ?_
    · simp only [none]
      rfl
    · rw [form]
      cases s <;> rfl
  | finite s m e positive =>
    simp only [form, Option.some.injEq] at h
    have canonical := Binary.canonical_unpack form
    have reads := Decimal.shortest_reads layout.tie canonical
    rw [← value_place layout (s == .negative), h] at reads
    have sign : n.negative = (s == .negative) := by
      rw [← h]
      exact negative_place _ _ _
    refine nearest_eq _ (Binary.ofScientific_eq canonical reads) (Binary.unpack_pack .positive canonical) ?_
    rw [form, sign]
    cases s <;> rfl

end Layout
end Handoff
