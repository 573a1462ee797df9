import Handoff.Proofs.Design.ColorGrammar
import Handoff.Proofs.Design.Opacity

set_option autoImplicit false
set_option relaxedAutoImplicit false

/-!
The hexadecimal form of a color, written and read again.

The channels are found again always. The opacity decides on the form before it is rounded, so that a color that is not
quite opaque may have the digits of an opaque one behind its channels; such a form is read and written without them.
-/

namespace Handoff.Design.Rgba
open Text

section Digits

private theorem toLower_digitChar : ∀ n < 16, (Nat.digitChar n).toLower = Nat.digitChar n := by
  decide

private theorem hexText_pairs (bytes : List UInt8) :
    HexText (bytes.flatMap hexPair) (bytes.flatMap fun byte => [byte.toNat / 16, byte.toNat % 16]) := by
  constructor
  · intro n member
    obtain ⟨byte, -, digit⟩ := List.mem_flatMap.mp member
    have bound := byte.toNat_lt
    rcases List.mem_pair.mp digit with rfl | rfl <;> omega
  · induction bytes with
    | nil => rfl
    | cons byte bytes ih =>
      have bound := byte.toNat_lt
      have high := toLower_digitChar (byte.toNat / 16) (by omega)
      have low := toLower_digitChar (byte.toNat % 16) (by omega)
      simp only [List.flatMap_cons, List.map_append, ih, hexPair, List.map_cons, List.map_nil, high, low]

private theorem byteOf_pair (byte : UInt8) : byteOf (byte.toNat / 16) (byte.toNat % 16) = byte := by
  rw [byteOf, Nat.div_add_mod, UInt8.ofNat_toNat]

end Digits

section Forms

variable {s : String} {c : Rgba} {r g b alpha : UInt8} {a : Float}

private theorem around_self (cs : List Char) : Around cs cs :=
  ⟨[], [], nofun, nofun, by simp⟩

private theorem parse_six (form : s.toList = '#' :: [r, g, b].flatMap hexPair) : parse? s = some ⟨r, g, b, 1⟩ := by
  have six : Form ('#' :: [r, g, b].flatMap hexPair) _ := .six (hexText_pairs [r, g, b])
  rw [byteOf_pair, byteOf_pair, byteOf_pair] at six
  exact parse?_eq_some_iff.mpr ⟨_, form ▸ around_self _, six⟩

private theorem parse_eight (form : s.toList = '#' :: [r, g, b, alpha].flatMap hexPair) :
    parse? s = some ⟨r, g, b, byteAlpha alpha⟩ := by
  have eight : Form ('#' :: [r, g, b, alpha].flatMap hexPair) _ := .eight (hexText_pairs [r, g, b, alpha])
  rw [byteOf_pair, byteOf_pair, byteOf_pair, byteOf_pair] at eight
  exact parse?_eq_some_iff.mpr ⟨_, form ▸ around_self _, eight⟩

private theorem toHex_full (full : 1 ≤ a) : (toHex ⟨r, g, b, a⟩).toList = '#' :: [r, g, b].flatMap hexPair := by
  have form : toHex ⟨r, g, b, a⟩ = String.ofList ('#' :: hexPair r ++ hexPair g ++ hexPair b) := if_pos full
  rw [form, String.toList_ofList]
  simp

private theorem toHex_other (other : ¬ 1 ≤ a) :
    (toHex ⟨r, g, b, a⟩).toList = '#' :: [r, g, b, alphaByte a].flatMap hexPair := by
  have form : toHex ⟨r, g, b, a⟩ =
      String.ofList ('#' :: hexPair r ++ hexPair g ++ hexPair b ++ hexPair (alphaByte a)) := if_neg other
  rw [form, String.toList_ofList]
  simp

private theorem toHex_byteAlpha (other : alpha ≠ 255) :
    (toHex ⟨r, g, b, byteAlpha alpha⟩).toList = '#' :: [r, g, b, alpha].flatMap hexPair := by
  obtain ⟨partly, back⟩ := byteAlpha_of_ne other
  rw [toHex_other partly, back]

private theorem opacity_of_form {digits : List Char} (form : Form ('#' :: digits) c) :
    c.a = 1 ∨ ∃ byte ≠ 255, c.a = byteAlpha byte := by
  cases form with
  | three _ | six _ => exact .inl rfl
  | @eight _ _ _ _ _ _ _ a a' _ =>
    by_cases last : byteOf a a' = 255
    · refine .inl ?_
      change byteAlpha (byteOf a a') = 1
      rw [last, byteAlpha_last]
    · exact .inr ⟨_, last, rfl⟩
  | rgb small _ | rgba small _ => cases small

end Forms

section Stability

private theorem one_le_self : (1 : Float) ≤ 1 := by
  decide +kernel

private theorem one_le_iff {a : Float} (finite : a.isFinite = true) : 1 ≤ a ↔ 1 ≤ rational a := by
  rw [le_iff_rational (isFinite_whole isWhole_one) finite, isWhole_one.rational, Int.cast_one]

private theorem flatMap_last (r g b : UInt8) :
    '#' :: [r, g, b, 255].flatMap hexPair = '#' :: [r, g, b].flatMap hexPair ++ ['f', 'f'] := by
  have last : hexPair 255 = ['f', 'f'] := by decide
  simp [last]

private theorem ne_of_eq_append {s t : String} (longer : t = s ++ "ff") : s ≠ t := by
  rintro rfl
  have lengths := congrArg String.length longer
  rw [String.length_append] at lengths
  have two : "ff".length = 2 := by decide
  omega

/-- The hexadecimal form is read as a color of the same channels. That color has the same form exactly where the opacity
is below 509/510 or at least one; elsewhere the form ends in the last byte, and the color's form lacks it. A color that
was read from a hexadecimal form is found again with its opacity. -/
theorem parse_toHex (c : Rgba) :
    (c.a.isFinite = true → ∃ read, parse? c.toHex = some read ∧ read.r = c.r ∧ read.g = c.g ∧ read.b = c.b ∧
        (read.toHex = c.toHex ↔ rational c.a < 509 / 510 ∨ 1 ≤ rational c.a) ∧
        (read.toHex ≠ c.toHex → c.toHex = read.toHex ++ "ff")) ∧
      ∀ s, (trimBy isBlank s.toList).head? = some '#' → parse? s = some c → parse? c.toHex = some c := by
  obtain ⟨r, g, b, a⟩ := c
  refine ⟨fun finite => ?_, fun s mark read => ?_⟩
  · by_cases full : 1 ≤ a
    · have reached := (one_le_iff finite).mp full
      have same : toHex ⟨r, g, b, 1⟩ = toHex ⟨r, g, b, a⟩ := by
        apply String.toList_injective
        rw [toHex_full one_le_self, toHex_full full]
      exact ⟨_, parse_six (toHex_full full), rfl, rfl, rfl, iff_of_true same (.inr reached), absurd same⟩
    · have below := not_le.mp (full ∘ (one_le_iff finite).mpr)
      refine ⟨_, parse_eight (toHex_other full), rfl, rfl, rfl, ?_⟩
      by_cases near : 509 / 510 ≤ rational a
      · have last := (alphaByte_eq_last_iff finite).mpr near
        have longer : toHex ⟨r, g, b, a⟩ = toHex ⟨r, g, b, byteAlpha (alphaByte a)⟩ ++ "ff" := by
          apply String.toList_injective
          rw [last, byteAlpha_last, toHex_other full, last, String.toList_append, toHex_full one_le_self, flatMap_last]
          rfl
        have neither : ¬(rational a < 509 / 510 ∨ 1 ≤ rational a) :=
          not_or.mpr ⟨not_lt.mpr near, not_le.mpr below⟩
        exact ⟨iff_of_false (ne_of_eq_append longer) neither, fun _ => longer⟩
      · have other : alphaByte a ≠ 255 := near ∘ (alphaByte_eq_last_iff finite).mp
        have same : toHex ⟨r, g, b, byteAlpha (alphaByte a)⟩ = toHex ⟨r, g, b, a⟩ := by
          apply String.toList_injective
          rw [toHex_byteAlpha other, toHex_other full]
        exact ⟨iff_of_true same (.inl (not_le.mp near)), absurd same⟩
  · obtain ⟨digits, body⟩ := List.head?_eq_some_iff.mp mark
    unfold parse? at read
    rw [body] at read
    rcases opacity_of_form (ofHex?_eq_some_iff.mp read) with whole | ⟨byte, other, partly⟩
    · obtain rfl : a = 1 := whole
      exact parse_six (toHex_full one_le_self)
    · obtain rfl : a = byteAlpha byte := partly
      exact parse_eight (toHex_byteAlpha other)

/-- Black of opacity 0.999 does not have the form of the color that its form is read as. -/
theorem not_stable_toHex :
    ¬ ∀ c : Rgba, c.a.isFinite = true → ∃ read, parse? c.toHex = some read ∧ read.toHex = c.toHex := by
  intro stable
  have form : toHex ⟨0, 0, 0, 0.999⟩ = "#000000ff" := by decide +kernel
  have reads : parse? "#000000ff" = some ⟨0, 0, 0, 1⟩ := by decide +kernel
  have again : toHex ⟨0, 0, 0, 1⟩ = "#000000" := by decide +kernel
  obtain ⟨read, found, same⟩ := stable ⟨0, 0, 0, 0.999⟩ (by decide +kernel)
  rw [form, reads] at found
  obtain rfl := Option.some.inj found
  rw [form, again] at same
  exact absurd same (by decide)

/-- At half the opacity the form is that of the color that it is read as; at 0.999 it is not; and a form with half the
opacity is read as a color that is found again. -/
theorem parse_toHex_half :
    (∃ read, parse? (toHex ⟨1, 2, 3, 0.5⟩) = some read ∧ read.toHex = toHex ⟨1, 2, 3, 0.5⟩) ∧
      (∃ read, parse? (toHex ⟨1, 2, 3, 0.999⟩) = some read ∧ toHex ⟨1, 2, 3, 0.999⟩ = read.toHex ++ "ff") ∧
      parse? (toHex ⟨128, 128, 128, byteAlpha 128⟩) = some ⟨128, 128, 128, byteAlpha 128⟩ := by
  obtain ⟨half, found, -, -, -, same, -⟩ := (parse_toHex ⟨1, 2, 3, 0.5⟩).1 (by decide +kernel)
  obtain ⟨most, found', -, -, -, apart, longer⟩ := (parse_toHex ⟨1, 2, 3, 0.999⟩).1 (by decide +kernel)
  have near : ¬(rational 0.999 < 509 / 510 ∨ 1 ≤ rational 0.999) := by decide +kernel
  have read : parse? "#80808080" = some ⟨128, 128, 128, byteAlpha 128⟩ := by decide +kernel
  exact ⟨⟨half, found, same.mpr (.inl (by decide +kernel))⟩, ⟨most, found', longer (near ∘ apart.mp)⟩,
    (parse_toHex _).2 _ (by decide) read⟩

end Stability

end Handoff.Design.Rgba
