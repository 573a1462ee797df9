import Mathlib
import Handoff.Decimal.Numeral

set_option autoImplicit false
set_option relaxedAutoImplicit false

/-!
Binary numbers of 64 bits: the finite ones as mantissas and exponents, packed and unpacked without loss, and their
order as that of whole numbers.
-/

namespace Handoff.Binary
open Float.Model (UnpackedFloat Format)
open Float.Model.UnpackedFloat

/-- The mantissas and exponents that finite numbers are kept with: 53 digits when the exponent leaves the choice. -/
structure Canonical (m : Nat) (e : Int) : Prop where
  positive : 0 < m
  short : m < 2 ^ 53
  least : -1074 ≤ e
  most : e ≤ 971
  full : 2 ^ 52 ≤ m ∨ e = -1074

private abbrev Bits := BitVec Format.binary64.numBits

private theorem exponentBias_eq : (Format.binary64.exponentBias : Int) = 1023 := rfl

private theorem toBitVec_ofBitVec (v : BitVec 1) : (Sign.ofBitVec v).toBitVec = v := by
  have small := v.isLt
  unfold Sign.ofBitVec
  split
  · rename_i zero
    exact zero.symm
  · rename_i other
    have positive : v.toNat ≠ 0 := fun h => other (BitVec.eq_of_toNat_eq h)
    apply BitVec.eq_of_toNat_eq
    change 1 = v.toNat
    omega

private theorem ofBitVec_toBitVec (s : Sign) : Sign.ofBitVec s.toBitVec = s := by
  cases s <;> rfl

private theorem packComponents_parts (b : Bits) :
    packComponents Format.binary64 (Sign.ofBitVec (unpackSign b)) (unpackExponent b) (unpackMantissa b) = b := by
  rw [packComponents, toBitVec_ofBitVec]
  apply BitVec.eq_of_getLsbD_eq
  intro i bound
  have bound : i < 64 := bound
  simp only [BitVec.getLsbD_append, unpackSign, unpackExponent, unpackMantissa, BitVec.getLsbD_cast,
    BitVec.extractLsb, BitVec.getLsbD_extractLsb']
  by_cases low : i < 52
  · simp [low]
  · by_cases middle : i < 63
    · have width : i - 52 < 11 := by omega
      simp [low, width, show 52 + (i - 52) = i by omega]
    · have top : i = 63 := by omega
      subst top
      simp only [low]
      simp
      exact BitVec.getLsbD_eq_getElem (by decide)

private theorem unpackSign_packComponents (s : Sign) (e : BitVec 11) (m : BitVec 52) :
    unpackSign (packComponents Format.binary64 s e m) = s.toBitVec := by
  apply BitVec.eq_of_getLsbD_eq
  intro i bound
  have first : i = 0 := by omega
  subst first
  simp only [unpackSign, packComponents, BitVec.getLsbD_cast, BitVec.extractLsb, BitVec.getLsbD_extractLsb',
    BitVec.getLsbD_append]
  simp

private theorem toNat_implicit (v : BitVec 52) : (1#1 ++ v).toNat = 2 ^ 52 + v.toNat := by
  rw [BitVec.toNat_append, ← Nat.shiftLeft_add_eq_or_of_lt v.isLt]
  simp [Nat.shiftLeft_eq]

private theorem ofNat_implicit (v : BitVec 52) : BitVec.ofNat 52 (2 ^ 52 + v.toNat) = v := by
  have small := v.isLt
  apply BitVec.eq_of_toNat_eq
  rw [BitVec.toNat_ofNat]
  omega

private theorem log2_full {m : Nat} (full : 2 ^ 52 ≤ m) (short : m < 2 ^ 53) : m.log2 = 52 :=
  (Nat.log2_eq_iff (by omega)).mpr ⟨full, short⟩

private theorem log2_short {m : Nat} (positive : 0 < m) (short : m < 2 ^ 52) : m.log2 < 52 :=
  (Nat.log2_lt (by omega)).mpr short

private theorem toNat_ne_zero {n : Nat} {v : BitVec n} (h : ¬v = 0#n) : v.toNat ≠ 0 := by
  intro zero
  exact h (BitVec.eq_of_toNat_eq zero)

private theorem pack_unpack_bits (b : Bits) (valid : Format.binary64.Valid b) :
    pack Format.binary64 (unpack Format.binary64 b) = b := by
  have whole := packComponents_parts b
  have width : (unpackMantissa b).toNat < 2 ^ 52 := (unpackMantissa b).isLt
  have below : (unpackExponent b).toNat < 2048 := (unpackExponent b).isLt
  unfold unpack
  dsimp only
  split
  · rename_i ones
    split
    · rename_i none
      rw [ones, none] at whole
      exact whole
    · rename_i some
      exact (valid.eq_packedNaN ones some).symm
  · rename_i notOnes
    split
    · rename_i zeros
      split
      · rename_i none
        rw [zeros, none] at whole
        exact whole
      · rename_i some
        have short := log2_short (Nat.pos_of_ne_zero (toNat_ne_zero some)) width
        have lowest : ¬(unpackMantissa b).toNat.log2 + 1 = Format.binary64.mantissaBits := by
          change ¬_ = 53
          omega
        rw [zeros] at whole
        simp only [pack, zeros]
        rw [if_neg (by simp [exponentBias_eq]), if_neg lowest, BitVec.ofNat_toNat, BitVec.setWidth_eq]
        exact whole
    · rename_i notZeros
      have large : (unpackExponent b).toNat ≠ 2047 := fun same => notOnes (BitVec.eq_of_toNat_eq same)
      have full : (1#1 ++ unpackMantissa b).toNat.log2 = 52 := by
        rw [toNat_implicit]
        exact log2_full (by omega) (by omega)
      have biased : (((unpackExponent b).toNat : Int) - (Format.binary64.exponentBias + (52 : Nat))
          + Format.binary64.exponentBias + (52 : Nat)).toNat = (unpackExponent b).toNat := by
        omega
      simp only [pack]
      rw [biased, full, if_neg, if_pos (by decide), BitVec.ofNat_toNat, BitVec.setWidth_eq, toNat_implicit, ofNat_implicit]
      · exact whole
      · change ¬2048 ≤ _
        omega

theorem pack_unpack (x : Float.Model) : Float.Model.pack x.unpack = x := by
  obtain ⟨bits, valid⟩ := x
  simp only [Float.Model.pack, Float.Model.unpack, pack_unpack_bits _ valid]

private theorem canonical_unpack_bits {b : Bits} {s : Sign} {m : Nat} {e : Int} {positive : 0 < m}
    (h : unpack Format.binary64 b = .finite s m e positive) : Canonical m e := by
  have width : (unpackMantissa b).toNat < 2 ^ 52 := (unpackMantissa b).isLt
  have below : (unpackExponent b).toNat < 2048 := (unpackExponent b).isLt
  unfold unpack at h
  dsimp only at h
  split at h
  · split at h <;> cases h
  · rename_i notOnes
    have large : (unpackExponent b).toNat ≠ 2047 := fun same => notOnes (BitVec.eq_of_toNat_eq same)
    split at h
    · rename_i zeros
      split at h
      · cases h
      · rename_i some
        have positive := Nat.pos_of_ne_zero (toNat_ne_zero some)
        rw [zeros] at h
        cases h
        exact ⟨positive, by omega, by decide, by decide, Or.inr rfl⟩
    · rename_i notZeros
      have positive := toNat_ne_zero notZeros
      cases h
      rw [toNat_implicit, exponentBias_eq]
      constructor <;> simp <;> omega

theorem canonical_unpack {x : Float.Model} {s : Sign} {m : Nat} {e : Int} {positive : 0 < m}
    (h : x.unpack = .finite s m e positive) : Canonical m e :=
  canonical_unpack_bits h

/-- A finite number unpacks to a zero or to a sign with a canonical form. -/
theorem unpack_of_isFinite {x : Float.Model} (finite : x.isFinite = true) :
    (∃ s, x.unpack = .zero s) ∨ ∃ s m e, ∃ canonical : Canonical m e, x.unpack = .finite s m e canonical.positive := by
  unfold Float.Model.isFinite at finite
  cases form : x.unpack with
  | notANumber | infinity s =>
    rw [form] at finite
    cases finite
  | zero s => exact .inl ⟨s, rfl⟩
  | finite s m e positive => exact .inr ⟨s, m, e, canonical_unpack form, rfl⟩

private theorem unpack_packComponents (s : Sign) (e : BitVec 11) (m : BitVec 52) (short : e ≠ -1#11) :
    unpack Format.binary64 (packComponents Format.binary64 s e m) =
      if e = 0#11 then
        if h : m = 0#52 then .zero s
        else .finite s m.toNat (-1074) (Nat.pos_of_ne_zero (toNat_ne_zero h))
      else .finite s (2 ^ 52 + m.toNat) (e.toNat - 1075) (by omega) := by
  simp only [unpack, unpackMantissa_packComponents, unpackExponent_packComponents, unpackSign_packComponents,
    ofBitVec_toBitVec]
  rw [if_neg short]
  split
  · rename_i zero
    rw [zero]
    rfl
  · simp only [toNat_implicit, exponentBias_eq]
    congr 1

private theorem toNat_ofNat {n k : Nat} (h : k < 2 ^ n) : (BitVec.ofNat n k).toNat = k := by
  rw [BitVec.toNat_ofNat, Nat.mod_eq_of_lt h]

theorem unpack_pack {m : Nat} {e : Int} (s : Sign) (h : Canonical m e) :
    (Float.Model.pack (.finite s m e h.positive)).unpack = .finite s m e h.positive := by
  obtain ⟨positive, short, least, most, choice⟩ := h
  change unpack Format.binary64 (pack Format.binary64 _) = _
  obtain ⟨biased, meaning⟩ : ∃ n : Nat, (n : Int) = e + 1075 := ⟨(e + 1075).toNat, by omega⟩
  have place : (e + (Format.binary64.exponentBias : Int) + (52 : Nat)).toNat = biased := by
    rw [exponentBias_eq]
    omega
  have exponent : (BitVec.ofNat 11 biased).toNat = biased := toNat_ofNat (by omega)
  simp only [pack]
  rw [place, if_neg (by change ¬2048 ≤ _; omega)]
  by_cases full : 2 ^ 52 ≤ m
  · have notOnes : BitVec.ofNat 11 biased ≠ -1#11 := by
      intro ones
      have value : biased = 2047 := by rw [← exponent, ones]; rfl
      omega
    have notZeros : BitVec.ofNat 11 biased ≠ 0#11 := by
      intro zeros
      have value : biased = 0 := by rw [← exponent, zeros]; rfl
      omega
    have rest : 2 ^ 52 + (BitVec.ofNat 52 m).toNat = m := by
      rw [BitVec.toNat_ofNat]
      omega
    rw [log2_full full short, if_pos (by decide), unpack_packComponents s _ _ notOnes, if_neg notZeros]
    simp only [rest, exponent]
    congr 1
    omega
  · have small : m < 2 ^ 52 := by omega
    have lowest : ¬m.log2 + 1 = Format.binary64.mantissaBits := by
      have := log2_short positive small
      change ¬_ = 53
      omega
    have digits : (BitVec.ofNat 52 m).toNat = m := toNat_ofNat small
    have some : BitVec.ofNat 52 m ≠ 0#52 := by
      intro none
      have value : m = 0 := by rw [← digits, none]; rfl
      omega
    have least : e = -1074 := choice.resolve_left full
    rw [if_neg lowest, unpack_packComponents s _ _ (by decide), if_pos rfl, dif_neg some]
    simp only [digits, least]

theorem isFinite_pack (s : Sign) {m : Nat} {e : Int} (positive : 0 < m) (most : e ≤ 971) :
    (Float.Model.pack (.finite s m e positive)).isFinite = true := by
  have finite (exponent : BitVec 11) (mantissa : BitVec 52) (short : exponent ≠ -1#11) :
      (unpack Format.binary64 (packComponents Format.binary64 s exponent mantissa)).isFinite = true := by
    rw [unpack_packComponents s exponent mantissa short]
    split
    · split <;> rfl
    · rfl
  change (unpack Format.binary64 (pack Format.binary64 _)).isFinite = true
  obtain ⟨biased, place, low⟩ : ∃ n : Nat,
      (e + (Format.binary64.exponentBias : Int) + (52 : Nat)).toNat = n ∧ n < 2047 := by
    refine ⟨_, rfl, ?_⟩
    rw [exponentBias_eq]
    omega
  simp only [pack]
  rw [place, if_neg (by change ¬2048 ≤ _; omega)]
  split
  · refine finite _ _ fun ones => ?_
    have value : biased = 2047 := by
      rw [← toNat_ofNat (show biased < 2 ^ 11 by omega), ones]
      rfl
    omega
  · exact finite _ _ (by decide)

/-- The place of a finite number in the order of all of them. Both zeros stand at zero. -/
def place : UnpackedFloat → Int
  | .finite s m e _ => s.apply ((e + 1074) * 2 ^ 53 + m)
  | _ => 0

theorem Canonical.place_pos {m : Nat} {e : Int} (h : Canonical m e) : 0 < (e + 1074) * 2 ^ 53 + (m : Int) := by
  have least := h.least
  have some := h.positive
  omega

private theorem compare_then {m n : Nat} {e f : Int} (hm : m < 2 ^ 53) (hn : n < 2 ^ 53) :
    (compare e f).then (compare m n) =
      compare ((e + 1074) * 2 ^ 53 + (m : Int)) ((f + 1074) * 2 ^ 53 + (n : Int)) := by
  rcases Int.lt_trichotomy e f with less | rfl | more
  · rw [Int.compare_eq_lt.mpr less, Int.compare_eq_lt.mpr (by omega)]
    rfl
  · rw [Int.compare_eq_eq.mpr rfl, Ordering.eq_then]
    rcases Nat.lt_trichotomy m n with less | rfl | more
    · rw [Nat.compare_eq_lt.mpr less, Int.compare_eq_lt.mpr (by omega)]
    · rw [Nat.compare_eq_eq.mpr rfl, Int.compare_eq_eq.mpr rfl]
    · rw [Nat.compare_eq_gt.mpr more, Int.compare_eq_gt.mpr (by omega)]
  · rw [Int.compare_eq_gt.mpr more, Int.compare_eq_gt.mpr (by omega)]
    rfl

private theorem compare_neg (a b : Int) : compare (-a) (-b) = (compare a b).swap := by
  rcases Int.lt_trichotomy a b with less | rfl | more
  · rw [Int.compare_eq_lt.mpr less, Int.compare_eq_gt.mpr (by omega)]
    rfl
  · rw [Int.compare_eq_eq.mpr rfl, Int.compare_eq_eq.mpr rfl]
    rfl
  · rw [Int.compare_eq_gt.mpr more, Int.compare_eq_lt.mpr (by omega)]
    rfl

theorem compare_eq {x y : Float.Model} (hx : x.isFinite = true) (hy : y.isFinite = true) :
    x.compare y = some (compare (place x.unpack) (place y.unpack)) := by
  unfold Float.Model.compare
  rcases unpack_of_isFinite hx with ⟨s, first⟩ | ⟨s, m, e, canonical, first⟩
  · rcases unpack_of_isFinite hy with ⟨t, second⟩ | ⟨t, n, f, other, second⟩
    · rw [first, second]
      rfl
    · have := other.place_pos
      rw [first, second]
      cases t with
      | negative => exact congrArg some (Int.compare_eq_gt.mpr (by simp [place, Sign.apply]; omega)).symm
      | positive => exact congrArg some (Int.compare_eq_lt.mpr (by simp [place, Sign.apply]; omega)).symm
  · have := canonical.place_pos
    rcases unpack_of_isFinite hy with ⟨t, second⟩ | ⟨t, n, f, other, second⟩
    · rw [first, second]
      cases s with
      | negative => exact congrArg some (Int.compare_eq_lt.mpr (by simp [place, Sign.apply]; omega)).symm
      | positive => exact congrArg some (Int.compare_eq_gt.mpr (by simp [place, Sign.apply]; omega)).symm
    · have := other.place_pos
      have orders := compare_then (e := e) (f := f) canonical.short other.short
      rw [first, second]
      cases s with
      | negative =>
        cases t with
        | negative => simp only [UnpackedFloat.compare, orders, place, Sign.apply, compare_neg]
        | positive => exact congrArg some (Int.compare_eq_lt.mpr (by simp [place, Sign.apply]; omega)).symm
      | positive =>
        cases t with
        | negative => exact congrArg some (Int.compare_eq_gt.mpr (by simp [place, Sign.apply]; omega)).symm
        | positive => simp only [UnpackedFloat.compare, orders, place, Sign.apply]

theorem unpack_injective {x y : Float.Model} (h : x.unpack = y.unpack) : x = y := by
  rw [← pack_unpack x, ← pack_unpack y, h]

theorem eq_of_place_eq {x y : Float.Model} (hx : x.isFinite = true) (hy : y.isFinite = true)
    (hx' : x.unpack ≠ .zero .negative) (hy' : y.unpack ≠ .zero .negative)
    (same : place x.unpack = place y.unpack) : x = y := by
  apply unpack_injective
  rcases unpack_of_isFinite hx with ⟨s, first⟩ | ⟨s, m, e, canonical, first⟩
  · rcases unpack_of_isFinite hy with ⟨t, second⟩ | ⟨t, n, f, other, second⟩
    · rw [first] at hx' ⊢
      rw [second] at hy' ⊢
      cases s <;> cases t <;> first | rfl | contradiction
    · have := other.place_pos
      rw [first, second] at same
      cases t <;> simp [place, Sign.apply] at same <;> omega
  · have := canonical.place_pos
    have := canonical.short
    rcases unpack_of_isFinite hy with ⟨t, second⟩ | ⟨t, n, f, other, second⟩
    · rw [first, second] at same
      cases s <;> simp [place, Sign.apply] at same <;> omega
    · have := other.place_pos
      have := other.short
      rw [first, second] at same
      obtain ⟨rfl, rfl, rfl⟩ : s = t ∧ m = n ∧ e = f := by
        cases s <;> cases t <;> simp [place, Sign.apply] at same ⊢ <;> omega
      rw [first, second]

end Handoff.Binary

namespace Handoff
open Binary

/-- The place of a finite number in the order of all of them. -/
def placeOf (x : Float) : Int :=
  place x.toModel.unpack

theorem le_iff_placeOf {x y : Float} (hx : x.isFinite = true) (hy : y.isFinite = true) :
    x ≤ y ↔ placeOf x ≤ placeOf y := by
  change decide ((x.toModel.compare y.toModel).any Ordering.isLE = true) = true ↔ _
  rw [decide_eq_true_iff, compare_eq hx hy]
  exact Int.isLE_compare

theorem lt_iff_placeOf {x y : Float} (hx : x.isFinite = true) (hy : y.isFinite = true) :
    x < y ↔ placeOf x < placeOf y := by
  change decide ((x.toModel.compare y.toModel == some .lt) = true) = true ↔ _
  rw [decide_eq_true_iff, compare_eq hx hy, beq_iff_eq, Option.some.injEq]
  exact Int.compare_eq_lt

theorem beq_iff_placeOf {x y : Float} (hx : x.isFinite = true) (hy : y.isFinite = true) :
    (x == y) = true ↔ placeOf x = placeOf y := by
  change (x.toModel.compare y.toModel == some .eq) = true ↔ _
  rw [compare_eq hx hy, beq_iff_eq, Option.some.injEq]
  exact Int.compare_eq_eq

theorem beq_self_of_isFinite {x : Float} (h : x.isFinite = true) : (x == x) = true :=
  (beq_iff_placeOf h h).mpr rfl

theorem eq_of_placeOf_eq {x y : Float} (hx : x.isFinite = true) (hy : y.isFinite = true)
    (hx' : x.toModel.unpack ≠ .zero .negative) (hy' : y.toModel.unpack ≠ .zero .negative)
    (same : placeOf x = placeOf y) : x = y := by
  have models := eq_of_place_eq hx hy hx' hy' same
  rcases x with ⟨x⟩
  rcases y with ⟨y⟩
  exact congrArg Float.ofModel models

end Handoff
