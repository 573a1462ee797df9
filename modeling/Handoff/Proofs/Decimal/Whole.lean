import Handoff.Json.Basic
import Handoff.Proofs.Decimal.Binary

set_option autoImplicit false
set_option relaxedAutoImplicit false

/-!
Whole numbers as binary ones: those of 64 bits are far from the greatest, so that all of them have a finite one.
-/

namespace Handoff.Binary
open Float.Model (UnpackedFloat Format totalExponent)
open Float.Model.UnpackedFloat hiding round

private theorem mantissa_shiftRight_le (em : ExtendedMantissa) (n : Nat) : (em >>> n).mantissa ≤ em.mantissa := by
  change (n.repeat ExtendedMantissa.shiftRightOne em).mantissa ≤ em.mantissa
  induction n with
  | zero => exact Nat.le_refl _
  | succ n ih => exact (Nat.div_le_self _ 2).trans ih

private theorem roundedMantissa_le (em : ExtendedMantissa) : em.roundedMantissa ≤ em.mantissa + 1 := by
  have halves := Nat.mod_lt em.mantissa (show 0 < 2 by decide)
  unfold ExtendedMantissa.roundedMantissa Accuracy.roundToNearestEven
  split <;> omega

private theorem target_le {q k : Nat} {s : Int} (short : q < 2 ^ k) :
    Format.binary64.targetExponent (totalExponent q s) ≤ max (k + s - 52) (-1074) := by
  have digits : q.log2 < k + 1 := by
    by_cases zero : q = 0
    · rw [zero, Nat.log2_zero]
      omega
    · exact ((Nat.log2_lt zero).mpr short).trans (Nat.lt_succ_self k)
  change max ((q.log2 : Int) + 1 + s - 53) (-1074) ≤ _
  omega

private def Bounded : UnpackedFloat → Prop
  | .zero _ => True
  | .finite _ _ e _ => e ≤ 971
  | _ => False

private theorem Bounded.isFinite {u : UnpackedFloat} (h : Bounded u) : (Float.Model.pack u).isFinite = true := by
  cases u with
  | infinity _ | notANumber => cases h
  | zero s => cases s <;> rfl
  | finite s m e positive => exact isFinite_pack s positive h

private theorem bounded_of_le (s : Sign) {m : Nat} {e : Int} (positive : ¬m = 0 → 0 < m) (low : e ≤ 971) :
    Bounded (if h : m = 0 then .zero s else .finite s m e (positive h)) := by
  split
  · trivial
  · exact low

private theorem bounded_roundWithAccuracy (sign : Sign) {q k : Nat} {s : Int} (short : q < 2 ^ k) (low : s ≤ 0)
    (few : k ≤ 200) : Bounded (roundWithAccuracy Format.binary64 sign q s .exact) := by
  let target := Format.binary64.targetExponent (totalExponent q s)
  let shifted := ExtendedMantissa.ofMantissaAndAccuracy q .exact >>> (target - s).toNat
  have first : target ≤ max (k + s - 52) (-1074) := target_le short
  have rounded : shifted.roundedMantissa < 2 ^ (k + 1) := by
    have kept : shifted.mantissa ≤ q := mantissa_shiftRight_le (ExtendedMantissa.ofMantissaAndAccuracy q .exact) _
    have carried := roundedMantissa_le shifted
    have wide : 0 < 2 ^ k := Nat.two_pow_pos k
    rw [Nat.pow_succ]
    omega
  let place := s + ((target - s).toNat : Int)
  let next := Format.binary64.targetExponent (totalExponent shifted.roundedMantissa place)
  have second : next ≤ max ((k + 1 : Nat) + place - 52) (-1074) := target_le rounded
  unfold roundWithAccuracy
  simp only [shiftToTargetExponent, shiftToExponent]
  refine bounded_of_le sign _ ?_
  change place + ((next - place).toNat : Int) ≤ 971
  have reached : place = s + ((target - s).toNat : Int) := rfl
  clear_value next place
  omega

private theorem isFinite_round (sign : Sign) {q : Nat} (short : q < 2 ^ 64) :
    (Float.Model.pack (UnpackedFloat.round Format.binary64 sign q 0)).isFinite = true := by
  unfold UnpackedFloat.round decreaseExponent
  have least : (-1074 : Int) ≤ Format.binary64.targetExponent (totalExponent q 0) := Int.le_max_right ..
  have fine : (-52 : Int) ≤ Format.binary64.targetExponent (totalExponent q 0) := by
    change (-52 : Int) ≤ max ((q.log2 : Int) + 1 + 0 - 53) (-1074)
    omega
  generalize Format.binary64.targetExponent (totalExponent q 0) = t at fine
  have shifted : q <<< (0 - t).toNat < 2 ^ 116 := by
    rw [Nat.shiftLeft_eq]
    calc
      q * 2 ^ (0 - t).toNat < 2 ^ 64 * 2 ^ (0 - t).toNat := Nat.mul_lt_mul_of_pos_right short (Nat.two_pow_pos _)
      _ ≤ 2 ^ 64 * 2 ^ 52 := Nat.mul_le_mul_left _ (Nat.pow_le_pow_right (by decide) (by omega))
      _ = 2 ^ 116 := by decide
  exact (bounded_roundWithAccuracy sign shifted (by omega) (by decide)).isFinite

theorem isFinite_mul (s t : Sign) {a b : Nat} {f g : Int} {ha : 0 < a} {hb : 0 < b} (first : a < 2 ^ 53)
    (second : b < 2 ^ 53) (low : f + g ≤ 0) :
    (Float.Model.pack (mul Format.binary64 (.finite s a f ha) (.finite t b g hb))).isFinite = true := by
  have short : a * b < 2 ^ 106 := by
    calc
      a * b < 2 ^ 53 * 2 ^ 53 := Nat.mul_lt_mul_of_lt_of_lt first second
      _ = 2 ^ 106 := by decide
  exact (bounded_roundWithAccuracy (s * t) short low (by decide)).isFinite

end Handoff.Binary

namespace Handoff.Json

/-- A whole number of 64 bits, with a sign or without, has a finite binary number. -/
theorem isFinite_wholeFloat {n : Int} (low : -((UInt64.size / 2 : Nat) : Int) ≤ n) (high : n < (UInt64.size : Nat)) :
    (wholeFloat n).isFinite = true := by
  change -9223372036854775808 ≤ n at low
  change n < 18446744073709551616 at high
  change (Float.Model.pack (Float.Model.UnpackedFloat.ofInt .binary64 n)).isFinite = true
  unfold Float.Model.UnpackedFloat.ofInt Float.Model.UnpackedFloat.normalize
  split
  · exact Binary.isFinite_round _ (by omega)
  · rfl
  · exact Binary.isFinite_round _ (by omega)

end Handoff.Json
