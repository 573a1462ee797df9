import Handoff.Decimal.Pixel
import Handoff.Proofs.Decimal.Spelling

set_option autoImplicit false
set_option relaxedAutoImplicit false

/-!
The short numbers of drawings: a written number, or the name of a value that is none.
-/

namespace Handoff

def valueNames : List String :=
  ["NaN", "-inf", "inf"]

private theorem plainText_form (x : Float) :
    (∃ n : Numeral, n.Strict ∧ plainText x = String.ofList n.chars) ∨ plainText x ∈ valueNames := by
  unfold plainText
  cases form : Layout.plain.numeral x with
  | some n => exact .inl ⟨n, Layout.strict_numeral form, rfl⟩
  | none =>
    refine .inr ?_
    simp only
    split
    · decide
    · split <;> decide

/-- Drawings show a number in the strict form, or a name where it is too large. -/
theorem pixelText_form (x : Float) :
    (∃ n : Numeral, n.Strict ∧ pixelText x = String.ofList n.chars) ∨ pixelText x ∈ valueNames := by
  have zero : ∃ n : Numeral, n.Strict ∧ "0" = String.ofList n.chars := by
    refine ⟨⟨false, ['0'], none, none⟩, ⟨⟨by simp, List.forall_mem_singleton.mpr rfl⟩, fun _ => rfl, nofun, nofun⟩, rfl⟩
  unfold pixelText
  split
  · simp only
    split
    · exact .inl zero
    · exact plainText_form _
  · exact .inl zero

namespace Numeral

def isMark (c : Char) : Bool :=
  c.isDigit || c == '.' || c == '-' || c == '+' || c == 'e'

theorem isMark_of_mem_chars {n : Numeral} (strict : n.Strict) : ∀ c ∈ n.chars, isMark c = true := by
  have digits {ds : List Char} (h : Digits ds) : ∀ c ∈ ds, isMark c = true := by
    intro c member
    simp [isMark, h.all c member]
  unfold chars
  simp only [List.forall_mem_append]
  refine ⟨⟨⟨?_, digits strict.whole⟩, ?_⟩, ?_⟩
  · split
    · exact List.forall_mem_singleton.mpr rfl
    · exact nofun
  · split
    · exact nofun
    · rename_i ds fraction
      exact List.forall_mem_cons.mpr ⟨rfl, digits (strict.fraction ds fraction)⟩
  · split
    · exact nofun
    · rename_i below ds exponent
      refine List.forall_mem_cons.mpr ⟨rfl, List.forall_mem_cons.mpr ⟨?_, digits (strict.exponent below ds exponent)⟩⟩
      cases below <;> rfl

end Numeral

private theorem mem_form {text : String}
    (form : (∃ n : Numeral, n.Strict ∧ text = String.ofList n.chars) ∨ text ∈ valueNames) {c : Char} (member : c ∈ text.toList) : Numeral.isMark c = true ∨ c.isAlpha = true := by
  rcases form with ⟨n, strict, form⟩ | named
  · rw [form, String.toList_ofList] at member
    exact .inl (Numeral.isMark_of_mem_chars strict c member)
  · have all : ∀ name ∈ valueNames, name.toList.all (fun c => Numeral.isMark c || c.isAlpha) = true := by decide
    exact Bool.or_eq_true_iff.mp (List.all_eq_true.mp (all _ named) c member)

/-- A number in a text has no other characters than those of numbers and names. -/
theorem mem_plainText {x : Float} {c : Char} (member : c ∈ (plainText x).toList) :
    Numeral.isMark c = true ∨ c.isAlpha = true :=
  mem_form (plainText_form x) member

/-- A number in a drawing has no other characters than those of numbers and names. -/
theorem mem_pixelText {x : Float} {c : Char} (member : c ∈ (pixelText x).toList) :
    Numeral.isMark c = true ∨ c.isAlpha = true :=
  mem_form (pixelText_form x) member

end Handoff
