import Handoff.Proofs.Decimal.Nearest
import Handoff.Proofs.Decimal.Pixel
import Handoff.Proofs.Decimal.Value
import Handoff.Proofs.Decimal.Whole

set_option autoImplicit false
set_option relaxedAutoImplicit false

/-!
The numbers of drawings have three decimals at most, and no needless zeros.

A number is scaled by a thousand, rounded to a whole one and scaled back. The grid of thousandths then has a point that
reads back, so that the shortest decimal is on that grid or on a coarser one. The way back may not exist, though: what
is too large to be scaled is written as a name and not as a number.
-/

namespace Handoff

namespace Decimal
open Binary

variable {m : ℕ} {e : ℤ}

/-- A search stops at the latest on a grid that has a point, and the grid before the one it stops on has none. -/
private theorem search_stops (tie : Tie) (canonical : Canonical m e) {s : ℤ} {p : ℕ}
    (reads : RoundsTo m e (p * 10 ^ s)) (steps : ℕ) (t : ℤ) (start : s ≤ t) (reach : t - s < steps) :
    s ≤ (search tie m e steps t).exponent ∧ (search tie m e steps t).exponent ≤ t ∧
      ((search tie m e steps t).exponent ≠ t → onGrid tie m e ((search tie m e steps t).exponent + 1) = none) := by
  induction steps generalizing t with
  | zero => omega
  | succ steps ih =>
    unfold search
    split
    · exact ⟨start, le_rfl, fun other => absurd rfl other⟩
    · rename_i none
      have further : s ≤ t - 1 := by
        by_contra last
        obtain rfl : t = s := by omega
        exact onGrid_of_reads tie canonical reads none
      obtain ⟨low, high, before⟩ := ih (t - 1) further (by omega)
      refine ⟨low, by omega, fun _ => ?_⟩
      by_cases next : (search tie m e steps (t - 1)).exponent = t - 1
      · rw [next, sub_add_cancel]
        exact none
      · exact before next

/-- The shortest decimal is not on a finer grid than any that has a point, and its last digit is needed unless the
search has stopped right away. -/
private theorem shortest_stops (tie : Tie) (canonical : Canonical m e) {s : ℤ} {p : ℕ}
    (reads : RoundsTo m e (p * 10 ^ s)) (fine : -324 ≤ s) (coarse : s ≤ startOf (m.log2 + 2 + e)) :
    s ≤ (shortest tie m e).exponent ∧
      ((shortest tie m e).exponent ≠ startOf (m.log2 + 2 + e) → ¬ 10 ∣ (shortest tie m e).digits) := by
  obtain ⟨low, -, before⟩ := search_stops tie canonical reads (startOf (m.log2 + 2 + e) + 325).toNat
    (startOf (m.log2 + 2 + e)) coarse (by omega)
  refine ⟨low, fun later needless => ?_⟩
  obtain ⟨d, digits⟩ := needless
  have shorter := shortest_reads tie canonical
  rw [digits, Nat.cast_mul, mul_comm ((10 : ℕ) : ℚ), mul_assoc, Nat.cast_ofNat, ← zpow_one_add₀ (by norm_num),
    add_comm 1] at shorter
  exact onGrid_of_reads tie canonical shorter (before later)

theorem digits_shortest_pos (tie : Tie) (canonical : Canonical m e) : 0 < (shortest tie m e).digits := by
  have positive := (shortest_reads tie canonical).pos canonical
  have least : (0 : ℚ) < 2 ^ (-1075 : ℤ) := zpow_pos two_pos _
  refine Nat.pos_of_ne_zero fun none => ?_
  rw [none, Nat.cast_zero, zero_mul] at positive
  linarith

/-- The shortest decimal of a whole number of thousandths has three places at most after the point, and needs the last
of them. -/
theorem shortest_thousandths (tie : Tie) (canonical : Canonical m e) {n : ℕ} (some : 0 < n)
    (reads : RoundsTo m e (n * 10 ^ (-3 : ℤ))) :
    -3 ≤ (shortest tie m e).exponent ∧ ((shortest tie m e).exponent < 0 → ¬ 10 ∣ (shortest tie m e).digits) := by
  have place : (2 : ℚ) ^ (-10 : ℤ) < 2 ^ (53 + e) := by
    have one : (1 : ℚ) ≤ n := by exact_mod_cast some
    have high := reads.lt canonical
    norm_num at high ⊢
    linarith
  have place := (zpow_lt_zpow_iff_right₀ one_lt_two).mp place
  have digits : m.log2 = 52 := by
    have full := canonical.full.resolve_right (by omega)
    exact (Nat.log2_eq_iff canonical.positive.ne').mpr ⟨full, canonical.short⟩
  have start : 0 ≤ startOf (m.log2 + 2 + e) ∨ startOf (m.log2 + 2 + e) = -1 ∧ 53 + e ≤ -8 := by
    unfold startOf
    split <;> omega
  obtain ⟨low, needed⟩ := shortest_stops tie canonical reads (by norm_num) (by omega)
  refine ⟨low, fun fraction => needed fun stopped => ?_⟩
  -- A search that starts at tenths is for a number below one tenth.
  obtain ⟨tenths, small⟩ := start.resolve_left (by omega)
  have high := (shortest_reads tie canonical).lt canonical
  rw [stopped, tenths] at high
  have bound : (2 : ℚ) ^ (53 + e) ≤ 2 ^ (-8 : ℤ) := zpow_le_zpow_right₀ one_le_two small
  have one : (1 : ℚ) ≤ (shortest tie m e).digits := by exact_mod_cast digits_shortest_pos tie canonical
  norm_num at high bound
  linarith

end Decimal

namespace Numeral

/-- A written number without an exponent that has three digits at most after the point, the last of them needed, and no
sign before a zero. -/
structure Short (n : Numeral) : Prop where
  strict : n.Strict
  exponent : n.exponent = none
  fraction : ∀ ds ∈ n.fraction, ds.length ≤ 3 ∧ ds.getLast? ≠ some '0'
  sign : n.negative = true → digitsValue (n.whole ++ n.fraction.getD []) ≠ 0

theorem getLast?_toDigits {n : ℕ} (needed : ¬ 10 ∣ n) : (Nat.toDigits 10 n).getLast? ≠ some '0' := by
  have digit : ∀ d < 10, d ≠ 0 → (Nat.toDigits 10 d).getLast? ≠ some '0' := by decide
  have last := digit (n % 10) (Nat.mod_lt n (by norm_num)) fun zero => needed (Nat.dvd_of_mod_eq_zero zero)
  rcases Nat.lt_or_ge n 10 with small | large
  · rwa [Nat.mod_eq_of_lt small] at last
  · have split := Nat.toDigits_append_toDigits (b := 10) (n := n / 10) (d := n % 10) (by norm_num) (by omega)
      (Nat.mod_lt n (by norm_num))
    rw [Nat.div_add_mod] at split
    rw [← split, List.getLast?_append_of_ne_nil _ Nat.toDigits_ne_nil]
    exact last

end Numeral

namespace Layout
open Numeral

private theorem short_place (negative : Bool) {d : Decimal} (some : 0 < d.digits) (low : -3 ≤ d.exponent)
    (needed : d.exponent < 0 → ¬ 10 ∣ d.digits) (strict : (plain.place negative d).Strict) :
    (plain.place negative d).Short := by
  have form : plain.place negative d = plain.spelled negative (Nat.toDigits 10 d.digits) d.exponent := rfl
  have value := value_place plain negative d
  refine ⟨strict, ?_, ?_, fun _ zero => ?_⟩
  · rw [form, spelled]
    split
    · rfl
    · simp only
      split <;> rfl
  · rw [form, spelled]
    split
    · exact nofun
    · rename_i fraction
      have last := getLast?_toDigits (needed (not_le.mp fraction))
      have length : (-d.exponent).toNat ≤ 3 := by omega
      simp only
      split
      · rename_i inside
        rintro ds same
        obtain rfl := Option.some.inj same
        rw [List.length_drop, List.getLast?_drop, if_neg (by omega)]
        exact ⟨by omega, last⟩
      · rename_i outside
        rintro ds same
        obtain rfl := Option.some.inj same
        rw [List.length_append, List.length_replicate, List.getLast?_append_of_ne_nil _ Nat.toDigits_ne_nil]
        exact ⟨by omega, last⟩
  · rw [Numeral.value, zero, Nat.cast_zero, zero_mul] at value
    have positive : (0 : ℚ) < d.digits * 10 ^ d.exponent :=
      mul_pos (by exact_mod_cast some) (zpow_pos (by norm_num) _)
    exact positive.ne value

end Layout

open Binary
open Float.Model (UnpackedFloat)
open Float.Model.UnpackedFloat

private theorem exists_quotient {r : Float} {n : ℤ} (whole : IsWhole r n) (nonzero : n ≠ 0) :
    ∃ s m e, ∃ canonical : Canonical m e, (r / 1000).toModel.unpack = .finite s m e canonical.positive ∧
      RoundsTo m e (n.natAbs * 10 ^ (-3 : ℤ)) := by
  obtain ⟨s, a, f, canonical, form, -, value⟩ := whole.finite nonzero
  obtain ⟨t, b, g, _, other, -, thousand⟩ := isWhole_thousand.finite (by decide)
  obtain ⟨q, magnitude⟩ : ∃ q : ℕ, n.natAbs = q := ⟨_, rfl⟩
  have some : 0 < q := magnitude ▸ Int.natAbs_pos.mpr nonzero
  have one : (1 : ℚ) ≤ q := by exact_mod_cast some
  rw [magnitude] at value ⊢
  have thousandth : (a : ℚ) * 2 ^ f / (b * 2 ^ g) = q * 10 ^ (-3 : ℤ) := by
    rw [value, thousand]
    norm_num [div_eq_mul_inv]
  have size : (q : ℚ) < 2 ^ (1024 : ℤ) := by
    have short : (a : ℚ) < 2 ^ (53 : ℤ) := by exact_mod_cast canonical.short
    calc
      (q : ℚ) = a * 2 ^ f := value.symm
      _ < 2 ^ (53 : ℤ) * 2 ^ f := mul_lt_mul_of_pos_right short (zpow_pos two_pos f)
      _ = 2 ^ (53 + f) := (zpow_add₀ two_ne_zero _ _).symm
      _ ≤ 2 ^ (1024 : ℤ) := zpow_le_zpow_right₀ one_le_two (by have := canonical.most; omega)
  obtain ⟨k, low, high⟩ := exists_mem_Ico_zpow (x := (q : ℚ) * 10 ^ (-3 : ℤ)) (by positivity) one_lt_two
  have least : (2 : ℚ) ^ (-10 : ℤ) < 2 ^ (k + 1) := by
    have : (2 : ℚ) ^ (-10 : ℤ) < q * 10 ^ (-3 : ℤ) := by
      norm_num
      linarith
    exact this.trans high
  have most : (2 : ℚ) ^ (k + 1) < 2 ^ (1024 : ℤ) := by
    have : (q : ℚ) * 10 ^ (-3 : ℤ) * 2 ≤ q := by
      norm_num
      linarith
    rw [zpow_add_one₀ two_ne_zero]
    linarith
  have least := (zpow_lt_zpow_iff_right₀ one_lt_two).mp least
  have most := (zpow_lt_zpow_iff_right₀ one_lt_two).mp most
  obtain ⟨m, e, result, reads⟩ := exists_roundsTo low high (by omega) (by omega)
  refine ⟨s / t, m, e, result, ?_, reads⟩
  change (Float.Model.pack (UnpackedFloat.div .binary64 r.toModel.unpack (1000 : Float).toModel.unpack)).unpack = _
  rw [form, other, Binary.div_eq result s t (thousandth ▸ reads), unpack_pack _ result]

/-- True of a number that can be scaled by a thousand, or is not finite in the first place. -/
def IsScalable (x : Float) : Prop :=
  x.isFinite = true → (x * 1000).isFinite = true

instance (x : Float) : Decidable (IsScalable x) :=
  inferInstanceAs (Decidable (_ → _))

/-- True of a text that is a short number. -/
def IsShortNumber (text : String) : Prop :=
  ∃ n : Numeral, n.Short ∧ text = String.ofList n.chars

private theorem isShortNumber_zero : IsShortNumber "0" := by
  refine ⟨⟨false, ['0'], none, none⟩, ⟨⟨⟨by simp, ?_⟩, fun _ => rfl, nofun, nofun⟩, rfl, nofun, nofun⟩, rfl⟩
  exact List.forall_mem_singleton.mpr rfl

theorem not_isShortNumber_name {text : String} (name : text ∈ valueNames) : ¬ IsShortNumber text := by
  rintro ⟨n, short, rfl⟩
  have strict := Numeral.read_chars short.strict Numeral.stops_nil
  have none : ∀ name ∈ valueNames, Numeral.read name.toList = none := by decide
  have read := none _ name
  rw [String.toList_ofList] at read
  rw [List.append_nil, read] at strict
  cases strict

theorem isShortNumber_pixelText {x : Float} (scalable : IsScalable x) : IsShortNumber (pixelText x) := by
  unfold pixelText
  split
  · rename_i finite
    simp only
    split
    · exact isShortNumber_zero
    · rename_i other
      obtain ⟨n, whole⟩ : ∃ n, IsWhole (roundHalfAway (x * 1000)) n := ⟨_, isWhole_roundHalfAway (scalable finite)⟩
      have nonzero : n ≠ 0 := by
        rintro rfl
        have zero : IsWhole (roundHalfAway (x * 1000) / 1000) 0 :=
          IsWhole.div (c := 0) whole isWhole_thousand (by decide) (by decide)
        exact other ((beq_zero_iff zero).mpr rfl)
      obtain ⟨s, m, e, canonical, form, reads⟩ := exists_quotient whole nonzero
      obtain ⟨low, needed⟩ := Decimal.shortest_thousandths .up canonical (Int.natAbs_pos.mpr nonzero) reads
      have written : Layout.plain.numeral (roundHalfAway (x * 1000) / 1000) =
          some (Layout.plain.place (s == .negative) (Decimal.shortest .up m e)) := by
        unfold Layout.numeral
        simp only [form]
        rfl
      exact ⟨_, Layout.short_place _ (Decimal.digits_shortest_pos .up canonical) low needed
        (Layout.strict_numeral written), by rw [plainText, written]⟩
  · exact isShortNumber_zero

private theorem unpack_zero (s : Sign) : (Float.Model.pack (.zero s)).unpack = .zero s := by
  cases s <;> rfl

private theorem unpack_infinity (s : Sign) : (Float.Model.pack (.infinity s)).unpack = .infinity s := by
  cases s <;> rfl

private theorem isFinite_zero (s : Sign) : (Float.Model.pack (.zero s)).isFinite = true := by
  rw [Float.Model.isFinite, unpack_zero]
  rfl

private theorem isFinite_or_infinity (s : Sign) {m : ℕ} {e : ℤ} (positive : 0 < m) :
    (Float.Model.pack (.finite s m e positive)).isFinite = true ∨
      (Float.Model.pack (.finite s m e positive)).unpack = .infinity s := by
  rcases Int.lt_or_le 971 e with large | most
  · right
    have large : 2 ^ Float.Model.Format.binary64.exponentBits ≤ (e + (Float.Model.Format.binary64.exponentBias : ℤ)
        + (Float.Model.Format.binary64.mantissaBitsWithoutImplicit : ℕ)).toNat + 1 := by
      change 2048 ≤ (e + 1023 + 52).toNat + 1
      omega
    change unpack _ (pack _ _) = _
    simp only [pack]
    rw [if_pos large]
    exact unpack_infinity s
  · exact .inl (isFinite_pack s positive most)

private theorem exists_infinity {x : Float} (large : ¬ IsScalable x) :
    ∃ s, (x * 1000).toModel.unpack = .infinity s := by
  obtain ⟨finite, infinite⟩ := Classical.not_imp.mp large
  obtain ⟨t, b, g, _, other, -, -⟩ := isWhole_thousand.finite (by decide)
  change ∃ s, (Float.Model.pack (UnpackedFloat.mul .binary64 x.toModel.unpack (1000 : Float).toModel.unpack)).unpack = _
  change ¬ (Float.Model.pack (UnpackedFloat.mul .binary64 x.toModel.unpack
    (1000 : Float).toModel.unpack)).isFinite = true at infinite
  rw [other] at infinite ⊢
  rcases unpack_of_isFinite (x := x.toModel) finite with ⟨s, form⟩ | ⟨s, m, e, canonical, form⟩
  · rw [form] at infinite
    exact absurd (isFinite_zero (s * t)) infinite
  · rw [form] at infinite ⊢
    rw [mul] at infinite ⊢
    unfold roundWithAccuracy at infinite ⊢
    simp only at infinite ⊢
    split at infinite
    · exact absurd (isFinite_zero _) infinite
    · rename_i nonzero
      rw [dif_neg nonzero]
      exact ⟨_, (isFinite_or_infinity _ _).resolve_left infinite⟩

theorem pixelText_of_not_isScalable {x : Float} (large : ¬ IsScalable x) : pixelText x ∈ ["-inf", "inf"] := by
  obtain ⟨finite, -⟩ := Classical.not_imp.mp large
  obtain ⟨s, infinite⟩ := exists_infinity large
  obtain ⟨t, b, g, _, other, -, -⟩ := isWhole_thousand.finite (by decide)
  have rounded : roundHalfAway (x * 1000) = x * 1000 := by
    unfold roundHalfAway
    rw [infinite]
  have form : (x * 1000 / 1000).toModel.unpack = .infinity (s / t) := by
    change (Float.Model.pack (UnpackedFloat.div .binary64 (x * 1000).toModel.unpack
      (1000 : Float).toModel.unpack)).unpack = _
    rw [infinite, other]
    exact unpack_infinity (s / t)
  have named : plainText (x * 1000 / 1000) ∈ ["-inf", "inf"] := by
    have none : Layout.plain.numeral (x * 1000 / 1000) = none := by
      unfold Layout.numeral
      simp only [form]
    have number : (x * 1000 / 1000).isNaN = false := by
      change (x * 1000 / 1000).toModel.unpack.isNaN = false
      rw [form]
      rfl
    rw [plainText, none]
    simp only [number]
    rw [if_neg (by decide)]
    split <;> decide
  have nonzero : (x * 1000 / 1000 == 0) = false := by
    change ((x * 1000 / 1000).toModel.compare (0 : Float).toModel == some .eq) = false
    unfold Float.Model.compare
    rw [form]
    cases s <;> cases t <;> rfl
  rw [pixelText, if_pos finite]
  simp only [rounded, nonzero]
  rw [if_neg (by decide)]
  exact named

private theorem isScalable_of_between {x : Float} (low : ¬ x < 0) (high : ¬ 1 < x) : IsScalable x := by
  intro finite
  rw [lt_zero_iff_rational finite, not_lt] at low
  rw [one_lt_iff_rational finite, not_lt] at high
  obtain ⟨t, b, g, normal, other, -, thousand⟩ := isWhole_thousand.finite (by decide)
  obtain ⟨below, -⟩ := normal.exponent_of_whole thousand (by decide)
  change (Float.Model.pack (UnpackedFloat.mul .binary64 x.toModel.unpack (1000 : Float).toModel.unpack)).isFinite = true
  unfold rational at low high
  rw [other]
  rcases unpack_of_isFinite (x := x.toModel) finite with ⟨s, form⟩ | ⟨s, m, e, canonical, form⟩
  · rw [form]
    exact isFinite_zero (s * t)
  · rw [form] at low high ⊢
    have digits : (1 : ℚ) ≤ m := by exact_mod_cast canonical.positive
    have unit : (0 : ℚ) < 2 ^ e := zpow_pos two_pos e
    have most : (2 : ℚ) ^ e ≤ 2 ^ (0 : ℤ) := by
      cases s with
      | positive =>
        have value : (m : ℚ) * 2 ^ e ≤ 1 := high
        rw [zpow_zero]
        nlinarith
      | negative =>
        have value : 0 ≤ ((-(m : ℤ) : ℤ) : ℚ) * 2 ^ e := low
        push_cast at value
        nlinarith
    have flat : e ≤ 0 := (zpow_le_zpow_iff_right₀ one_lt_two).mp most
    exact isFinite_mul s t canonical.short normal.short (by omega)

theorem isScalable_clamp (x : Float) : IsScalable (clamp 0 1 x) := by
  by_cases below : x < 0
  · rw [clamp_of_lt (by decide +kernel) below]
    unfold IsScalable
    decide +kernel
  · by_cases above : 1 < x
    · rw [clamp_of_gt below above]
      unfold IsScalable
      decide +kernel
    · rw [clamp_eq_self below above]
      exact isScalable_of_between below above

theorem isShortNumber_pixelText_iff (x : Float) : IsShortNumber (pixelText x) ↔ IsScalable x := by
  refine ⟨fun short => ?_, isShortNumber_pixelText⟩
  by_contra large
  have name := pixelText_of_not_isScalable large
  exact not_isShortNumber_name (List.mem_cons_of_mem _ name) short

end Handoff
