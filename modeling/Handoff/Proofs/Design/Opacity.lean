import Handoff.Proofs.Decimal.Nearest
import Handoff.Proofs.Decimal.Value
import Handoff.Design.Color

set_option autoImplicit false
set_option relaxedAutoImplicit false

/-!
Opacities as bytes.

A byte is found again in the opacity that it writes. The last byte is written for opacities that are not full, too: for
all from 509/510 on.
-/

namespace Handoff.Design.Rgba
open Binary
open Float.Model (UnpackedFloat)
open Float.Model.UnpackedFloat

def alphaByte (a : Float) : UInt8 :=
  (roundHalfAway (clamp 0 1 a * 255)).toUInt8

section Product

variable {m k : ℕ} {e g : ℤ}

private theorem exists_product (canonical : Canonical m e) (short : (m : ℚ) * 2 ^ e < 1) :
    ∃ k g, Canonical k g ∧ RoundsTo k g (m * 2 ^ e * 255) := by
  have some := canonical.positive
  have least := canonical.least
  by_cases tiny : e = -1074 ∧ 255 * m < 2 ^ 53
  · obtain ⟨rfl, small⟩ := tiny
    have exact : Canonical (255 * m) (-1074) := ⟨by omega, small, le_rfl, by norm_num, .inr rfl⟩
    refine ⟨255 * m, -1074, exact, ?_⟩
    have value (unit : ℚ) : (m : ℚ) * unit * 255 = ((255 * m : ℕ) : ℚ) * unit := by
      push_cast
      ring
    rw [value]
    exact exact.roundsTo_self
  · have wide : 2 ^ 53 ≤ 255 * m := by
      by_contra few
      have full := canonical.full
      omega
    have normal : (2 : ℚ) ^ (-1021 : ℤ) ≤ m * 2 ^ e * 255 := by
      have digits : (2 : ℚ) ^ (53 : ℤ) ≤ 255 * m := by exact_mod_cast wide
      calc
        (2 : ℚ) ^ (-1021 : ℤ) ≤ 2 ^ (53 + e) := zpow_le_zpow_right₀ one_le_two (by omega)
        _ = 2 ^ (53 : ℤ) * 2 ^ e := zpow_add₀ two_ne_zero 53 e
        _ ≤ 255 * m * 2 ^ e := mul_le_mul_of_nonneg_right digits (zpow_pos two_pos e).le
        _ = m * 2 ^ e * 255 := by ring
    have positive : (0 : ℚ) < m * 2 ^ e * 255 := (zpow_pos two_pos _).trans_le normal
    obtain ⟨j, low, high⟩ := exists_mem_Ico_zpow positive one_lt_two
    have above : (-1021 : ℤ) < j + 1 := (zpow_lt_zpow_iff_right₀ one_lt_two).mp (normal.trans_lt high)
    have below : j < 8 := by
      refine (zpow_lt_zpow_iff_right₀ (one_lt_two : (1 : ℚ) < 2)).mp (low.trans_lt ?_)
      norm_num
      linarith
    exact exists_roundsTo low high (by omega) (by omega)

private theorem product_gap (canonical : Canonical m e) (less : (m : ℚ) * 2 ^ e < 509 / 510) :
    (m : ℚ) * 2 ^ e * 255 ≤ 509 / 2 - 239 / 2 ^ 53 := by
  have short : (m : ℚ) ≤ 2 ^ 53 := by exact_mod_cast canonical.short.le
  rcases Int.lt_trichotomy e (-53) with small | rfl | large
  · have unit : (2 : ℚ) ^ e ≤ 2 ^ (-54 : ℤ) := zpow_le_zpow_right₀ one_le_two (by omega)
    have half : (m : ℚ) * 2 ^ e ≤ 1 / 2 := by
      calc
        (m : ℚ) * 2 ^ e ≤ 2 ^ 53 * 2 ^ (-54 : ℤ) := mul_le_mul short unit (zpow_pos two_pos e).le (by positivity)
        _ = 1 / 2 := by norm_num
    linarith
  · -- In units of the last place 509/2 is 239 more than a multiple of 255.
    have place : (2 : ℚ) ^ (-53 : ℤ) = 1 / 2 ^ 53 := by norm_num
    rw [place] at less ⊢
    have less : 510 * m < 509 * 2 ^ 53 := by
      have : (510 : ℚ) * m < 509 * 2 ^ 53 := by linarith
      exact_mod_cast this
    have gap : 255 * m + 239 ≤ 509 * 2 ^ 52 := by omega
    have : (255 : ℚ) * m + 239 ≤ 509 * 2 ^ 52 := by exact_mod_cast gap
    linarith
  · -- A number with so large an exponent is one at least.
    have full : 2 ^ 52 ≤ m := canonical.full.resolve_right (by omega)
    have digits : (2 : ℚ) ^ 52 ≤ m := by exact_mod_cast full
    have unit : (2 : ℚ) ^ (-52 : ℤ) ≤ 2 ^ e := zpow_le_zpow_right₀ one_le_two (by omega)
    have one : (1 : ℚ) ≤ m * 2 ^ e := by
      calc
        (1 : ℚ) = 2 ^ 52 * 2 ^ (-52 : ℤ) := by norm_num
        _ ≤ m * 2 ^ e := mul_le_mul digits unit (by positivity) (by positivity)
    linarith

private theorem product_ge_iff (canonical : Canonical m e) (result : Canonical k g)
    (rounds : RoundsTo k g (m * 2 ^ e * 255)) : 509 / 2 ≤ (k : ℚ) * 2 ^ g ↔ 509 / 510 ≤ (m : ℚ) * 2 ^ e := by
  obtain ⟨low, high⟩ := (near_of_roundsTo result rounds).bounds
  rw [le_div_iff₀ (zpow_pos two_pos g)] at low
  rw [div_le_iff₀ (zpow_pos two_pos g)] at high
  rcases Int.lt_trichotomy g (-45) with small | rfl | large
  · -- With so small an exponent neither reaches 129.
    have unit : (2 : ℚ) ^ g ≤ 2 ^ (-46 : ℤ) := zpow_le_zpow_right₀ one_le_two (by omega)
    have short : (k : ℚ) + 1 / 2 ≤ 2 ^ 53 := by
      have : (k : ℚ) + 1 ≤ 2 ^ 53 := by exact_mod_cast result.short
      linarith
    have both : (k + 1 / 2 : ℚ) * 2 ^ g ≤ 128 := by
      calc
        (k + 1 / 2 : ℚ) * 2 ^ g ≤ 2 ^ 53 * 2 ^ (-46 : ℤ) := mul_le_mul short unit (by positivity) (by positivity)
        _ = 128 := by norm_num
    have less : (k : ℚ) * 2 ^ g ≤ (k + 1 / 2) * 2 ^ g := by gcongr; linarith
    exact iff_of_false (by linarith) (by linarith)
  · have place : (2 : ℚ) ^ (-45 : ℤ) = 1 / 2 ^ 45 := by norm_num
    rw [place] at low high ⊢
    constructor
    · intro reached
      by_contra below
      have gap := product_gap canonical (not_le.mp below)
      linarith
    · intro reached
      have half : (509 * 2 ^ 44 : ℚ) < k + 1 := by linarith
      have whole : 509 * 2 ^ 44 ≤ k := Nat.lt_succ_iff.mp (by exact_mod_cast half)
      have : (509 * 2 ^ 44 : ℚ) ≤ k := by exact_mod_cast whole
      linarith
  · -- With so large an exponent both are 255 at least.
    have full : (2 : ℚ) ^ 52 ≤ k := by exact_mod_cast result.full.resolve_right (by omega)
    have unit : (2 : ℚ) ^ (-44 : ℤ) ≤ 2 ^ g := zpow_le_zpow_right₀ one_le_two (by omega)
    have both : 255 ≤ (k - 1 / 2 : ℚ) * 2 ^ g := by
      calc
        (255 : ℚ) ≤ (2 ^ 52 - 1 / 2) * 2 ^ (-44 : ℤ) := by norm_num
        _ ≤ (k - 1 / 2) * 2 ^ g := mul_le_mul (by linarith) unit (by positivity) (by linarith)
    have more : (k - 1 / 2 : ℚ) * 2 ^ g ≤ k * 2 ^ g := by gcongr; linarith
    exact iff_of_true (by linarith) (by linarith)

private theorem unpack_product {a : Float} (canonical : Canonical m e) (result : Canonical k g)
    (form : a.toModel.unpack = .finite .positive m e canonical.positive) (rounds : RoundsTo k g (m * 2 ^ e * 255)) :
    (a * 255).toModel.unpack = .finite .positive k g result.positive := by
  have last : (255 : Float).toModel.unpack = .finite .positive (255 * 2 ^ 45) (-45) (by decide) := rfl
  have whole : ((255 * 2 ^ 45 : ℕ) : ℚ) * 2 ^ (-45 : ℤ) = 255 := by norm_num
  have positive := canonical.positive
  rw [← whole] at rounds
  change (Float.Model.pack (UnpackedFloat.mul .binary64 a.toModel.unpack (255 : Float).toModel.unpack)).unpack = _
  rw [form, last, Binary.mul_eq result .positive .positive rounds (by omega)]
  exact unpack_pack .positive result

/-- The product of a number strictly between zero and one with 255 is a number below 510 that reaches 509/2 just when
the number reaches 509/510. -/
private theorem product_between {a : Float} (finite : a.isFinite = true) (low : 0 < rational a)
    (high : rational a < 1) :
    (a * 255).isFinite = true ∧ 0 < rational (a * 255) ∧ rational (a * 255) < 510 ∧
      (509 / 2 ≤ rational (a * 255) ↔ 509 / 510 ≤ rational a) := by
  unfold rational at low high ⊢
  rcases unpack_of_isFinite (x := a.toModel) finite with ⟨s, form⟩ | ⟨s, m, e, canonical, form⟩
  · rw [form] at low
    exact absurd low (lt_irrefl 0)
  · rw [form] at low high ⊢
    cases s with
    | negative =>
      have : (0 : ℚ) < m * 2 ^ e := mul_pos (by exact_mod_cast canonical.positive) (zpow_pos two_pos e)
      simp [worth, Sign.apply] at low
      linarith
    | positive =>
      have value : worth (.finite .positive m e canonical.positive) = m * 2 ^ e := rfl
      rw [value] at high ⊢
      obtain ⟨k, g, result, rounds⟩ := exists_product canonical high
      have product := unpack_product canonical result form rounds
      have value' : worth (.finite .positive k g result.positive) = k * 2 ^ g := rfl
      have unit : (0 : ℚ) < 2 ^ g := zpow_pos two_pos g
      have some : (1 : ℚ) ≤ k := by exact_mod_cast result.positive
      obtain ⟨near, -⟩ := (near_of_roundsTo result rounds).bounds
      rw [le_div_iff₀ unit] at near
      have finite' : (a * 255).toModel.unpack.isFinite = true := by
        rw [product]
        rfl
      rw [product, value']
      refine ⟨finite', by positivity, ?_, product_ge_iff canonical result rounds⟩
      nlinarith

end Product

section Last

variable {a : Float}

private theorem alphaByte_of_whole {n : ℤ} (whole : IsWhole (clamp 0 1 a) n) (low : 0 ≤ n) (high : n ≤ 1) :
    alphaByte a = 255 ↔ n = 1 := by
  have product : IsWhole (clamp 0 1 a * 255) (n * 255) := whole.mul isWhole_lastByte (by omega)
  have rounded := product.roundHalfAway (by omega)
  rw [alphaByte, toUInt8_eq_last_iff rounded (by omega) (by omega)]
  omega

private theorem alphaByte_of_between (finite : a.isFinite = true) (held : clamp 0 1 a = a) (low : 0 < rational a)
    (high : rational a < 1) : alphaByte a = 255 ↔ 509 / 510 ≤ rational a := by
  obtain ⟨finite', low', high', reach⟩ := product_between finite low high
  have rounded := isWhole_roundHalfAway finite'
  have short : roundAway (rational (a * 255)) < 2 ^ 53 := by
    by_contra wide
    have long := (le_roundAway_iff low'.le _).mp (not_lt.mp wide)
    push_cast at long
    linarith
  rw [alphaByte, held, toUInt8_eq_last_iff rounded (roundAway_nonneg low'.le) short, le_roundAway_iff low'.le, ← reach]
  norm_num

theorem alphaByte_eq_last_iff (finite : a.isFinite = true) : alphaByte a = 255 ↔ 509 / 510 ≤ rational a := by
  have zero : IsWhole 0 0 := rfl
  have lower := lt_zero_iff_rational finite
  have upper := one_lt_iff_rational finite
  by_cases below : rational a < 0
  · have whole : IsWhole (clamp 0 1 a) 0 := by
      rw [clamp_of_lt (by decide +kernel) (lower.mpr below)]
      exact zero
    rw [alphaByte_of_whole whole le_rfl zero_le_one]
    exact iff_of_false zero_ne_one (by linarith)
  · by_cases above : 1 < rational a
    · have whole : IsWhole (clamp 0 1 a) 1 := by
        rw [clamp_of_gt (below ∘ lower.mp) (upper.mpr above)]
        exact isWhole_one
      rw [alphaByte_of_whole whole zero_le_one le_rfl]
      exact iff_of_true rfl (by linarith)
    · have held : clamp 0 1 a = a := clamp_eq_self (below ∘ lower.mp) (above ∘ upper.mp)
      rcases (not_lt.mp below).eq_or_lt with none | some
      · have whole : IsWhole (clamp 0 1 a) 0 := by
          rw [held]
          exact isWhole_of_rational finite (by rw [← none, Int.cast_zero])
        rw [alphaByte_of_whole whole le_rfl zero_le_one]
        exact iff_of_false zero_ne_one (by linarith)
      · rcases (not_lt.mp above).eq_or_lt with full | inside
        · have whole : IsWhole (clamp 0 1 a) 1 := by
            rw [held]
            exact isWhole_of_rational finite (by rw [full, Int.cast_one])
          rw [alphaByte_of_whole whole zero_le_one le_rfl]
          exact iff_of_true rfl (by linarith)
        · exact alphaByte_of_between finite held some inside

end Last

section Bytes

private theorem isWhole_toFloat (byte : UInt8) : IsWhole byte.toFloat byte.toNat := by
  have small := byte.toNat_lt
  exact isWhole_wholeFloat (by omega : (byte.toNat : ℤ).natAbs < 2 ^ 53)

private theorem exists_byteAlpha {byte : UInt8} (some : 0 < byte.toNat) (less : byte.toNat < 255) :
    ∃ m e, ∃ canonical : Canonical m e,
      (byteAlpha byte).toModel.unpack = .finite .positive m e canonical.positive ∧
        RoundsTo m e (byte.toNat / 255) := by
  obtain ⟨s, a, f, canonical, form, signed, value⟩ := (isWhole_toFloat byte).finite (by omega)
  obtain rfl : s = .positive := by
    cases s with
    | positive => rfl
    | negative =>
      simp only [Sign.apply] at signed
      omega
  have first : (1 : ℚ) ≤ byte.toNat := by exact_mod_cast some
  have last : (byte.toNat : ℚ) < 255 := by exact_mod_cast less
  obtain ⟨k, low, high⟩ := exists_mem_Ico_zpow (x := (byte.toNat : ℚ) / 255) (by positivity) one_lt_two
  have least : (-8 : ℤ) < k + 1 := by
    refine (zpow_lt_zpow_iff_right₀ (one_lt_two : (1 : ℚ) < 2)).mp (lt_trans ?_ high)
    norm_num
    linarith
  have most : k < 0 := by
    refine (zpow_lt_zpow_iff_right₀ (one_lt_two : (1 : ℚ) < 2)).mp (low.trans_lt ?_)
    rw [zpow_zero]
    linarith
  obtain ⟨m, e, result, rounds⟩ := exists_roundsTo low high (by omega) (by omega)
  have quotient : (a : ℚ) * 2 ^ f / ((255 * 2 ^ 45 : ℕ) * 2 ^ (-45 : ℤ)) = byte.toNat / 255 := by
    rw [value]
    norm_num
  have divisor : (255 : Float).toModel.unpack = .finite .positive (255 * 2 ^ 45) (-45) (by decide) := rfl
  refine ⟨m, e, result, ?_, rounds⟩
  change (Float.Model.pack (UnpackedFloat.div .binary64 byte.toFloat.toModel.unpack
    (255 : Float).toModel.unpack)).unpack = _
  rw [form, divisor, Binary.div_eq result .positive .positive (quotient ▸ rounds)]
  exact unpack_pack .positive result

private theorem rational_byteAlpha {byte : UInt8} (some : 0 < byte.toNat) (less : byte.toNat < 255) :
    (byteAlpha byte).isFinite = true ∧ 0 < rational (byteAlpha byte) ∧ rational (byteAlpha byte) < 1 ∧
      (byteAlpha byte * 255).isFinite = true ∧ byte.toNat - 1 / 2 ≤ rational (byteAlpha byte * 255) ∧
        rational (byteAlpha byte * 255) < byte.toNat + 1 / 2 := by
  obtain ⟨m, e, canonical, form, rounds⟩ := exists_byteAlpha some less
  have first : (1 : ℚ) ≤ byte.toNat := by exact_mod_cast some
  have last : (byte.toNat : ℚ) ≤ 254 := by exact_mod_cast Nat.le_of_lt_succ less
  have place : (2 : ℚ) ^ (-53 : ℤ) = 1 / 2 ^ 53 := by norm_num
  have close := close_of_roundsTo (by norm_num : -1074 ≤ (-53 : ℤ)) canonical rounds (by rw [place]; linarith)
  rw [place] at close
  obtain ⟨k, g, result, product⟩ := exists_product canonical (by linarith)
  have place' : (2 : ℚ) ^ (-45 : ℤ) = 1 / 2 ^ 45 := by norm_num
  have close' := close_of_roundsTo (by norm_num : -1074 ≤ (-45 : ℤ)) result product (by rw [place']; linarith)
  rw [place'] at close'
  have form' := unpack_product canonical result form product
  have value : rational (byteAlpha byte) = m * 2 ^ e := by
    rw [rational, form]
    rfl
  have value' : rational (byteAlpha byte * 255) = k * 2 ^ g := by
    rw [rational, form']
    rfl
  have finite : (byteAlpha byte).toModel.unpack.isFinite = true := by
    rw [form]
    rfl
  have finite' : (byteAlpha byte * 255).toModel.unpack.isFinite = true := by
    rw [form']
    rfl
  rw [value, value']
  exact ⟨finite, by linarith, by linarith, finite', by linarith, by linarith⟩

theorem byteAlpha_last : byteAlpha 255 = 1 := by
  decide +kernel

/-- A byte but the last writes an opacity that is not full and that is written as this byte. -/
theorem byteAlpha_of_ne {byte : UInt8} (other : byte ≠ 255) :
    ¬ 1 ≤ byteAlpha byte ∧ alphaByte (byteAlpha byte) = byte := by
  have less : byte.toNat < 255 := by
    have bound := byte.toNat_lt
    have differs : byte.toNat ≠ 255 := fun same => other (UInt8.toNat_inj.mp same)
    omega
  rcases Nat.eq_zero_or_pos byte.toNat with none | some
  · obtain rfl : byte = 0 := UInt8.toNat_inj.mp none
    decide +kernel
  · obtain ⟨finite, low, high, finite', near, near'⟩ := rational_byteAlpha some less
    have one : (1 : ℚ) ≤ byte.toNat := by exact_mod_cast some
    have held : clamp 0 1 (byteAlpha byte) = byteAlpha byte := by
      refine clamp_eq_self ?_ ?_
      · rw [lt_zero_iff_rational finite]
        exact not_lt.mpr low.le
      · rw [one_lt_iff_rational finite]
        exact not_lt.mpr high.le
    have nearest : roundAway (rational (byteAlpha byte * 255)) = byte.toNat := by
      have above (n : ℤ) := le_roundAway_iff (by linarith : 0 ≤ rational (byteAlpha byte * 255)) n
      refine le_antisymm (Int.lt_add_one_iff.mp (not_le.mp fun more => ?_)) ((above _).mpr (by exact_mod_cast near))
      have reached := (above _).mp more
      push_cast at reached
      linarith
    have rounded := isWhole_roundHalfAway finite'
    rw [nearest] at rounded
    refine ⟨?_, ?_⟩
    · rw [le_iff_rational (isFinite_whole isWhole_one) finite, isWhole_one.rational, Int.cast_one]
      exact not_le.mpr high
    · rw [alphaByte, held, toUInt8_whole rounded (by omega) (by omega), Int.toNat_natCast, UInt8.ofNat_toNat]

end Bytes

end Handoff.Design.Rgba
