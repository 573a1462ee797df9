import Handoff.Proofs.Design.Color
import Handoff.Proofs.Token.Naming

set_option autoImplicit false
set_option relaxedAutoImplicit false

/-!
The names of colors against the colors that their texts are read as.

A text is named by its digits, and painted by what it is read as. Both see one color as long as the text has one number
sign. A text with more of them is named as if it had one, but paints nothing.
-/

namespace Handoff.Token
open Design

/-- A text without the white space around it. -/
def bare (value : String) : List Char :=
  Text.trimBy Text.isBlank value.toList

/-- A text that is a number sign and as many characters. -/
def HasPlaces (value : String) (places : Nat) : Prop :=
  ∃ digits, bare value = '#' :: digits ∧ digits.length = places

/-- A text with more than one number sign before its digits. -/
def ManySigns (value : String) : Prop :=
  ['#', '#'] <+: bare value

instance (value : String) : Decidable (ManySigns value) :=
  inferInstanceAs (Decidable (_ <+: _))

def hueColors : List (String × Rgba) := [
  ("primary-red", ⟨255, 0, 0, 1⟩), ("primary-green", ⟨0, 255, 0, 1⟩), ("primary-blue", ⟨0, 0, 255, 1⟩),
  ("primary-yellow", ⟨255, 255, 0, 1⟩), ("primary-cyan", ⟨0, 255, 255, 1⟩), ("primary-magenta", ⟨255, 0, 255, 1⟩)]

/-- A name that goes with what a text is read as: a hue for the six digits of that hue, a gray by its band for the three
or six digits of a gray, and the rank for all else. -/
structure NamedAsRead (value : String) (rank count : Nat) (name : String) : Prop where
  hue : ∀ hue ∈ hueColors, name = hue.1 ↔ HasPlaces value 6 ∧ Rgba.parse? value = some hue.2
  gray : ∀ n : Nat, name = "gray-" ++ toString n ↔ (HasPlaces value 3 ∨ HasPlaces value 6) ∧
    ∃ c, Rgba.parse? value = some c ∧ c.isGray = true ∧ c.a = 1 ∧ n = 100 * grayBand c.r.toNat
  other : (∀ hue ∈ hueColors, name ≠ hue.1) → (∀ n : Nat, name ≠ "gray-" ++ toString n) →
    name = (if 5 < count then "primary-" else "accent-") ++ toString rank

section Gray

private theorem isGray_iff {c : Rgba} : c.isGray = true ↔ c.r = c.g ∧ c.g = c.b := by
  simp [Rgba.isGray]

private theorem grayLevel?_of_three (x y z : Char) : grayLevel? [x, y, z] = grayLevel? [x, x, y, y, z, z] := by
  unfold grayLevel?
  have doubled (n : Nat) : 17 * n = 16 * n + n := by omega
  cases hx : Text.hexDigit? x <;> cases hy : Text.hexDigit? y <;> cases hz : Text.hexDigit? z <;>
    simp [hx, hy, hz, doubled]

private theorem grayLevel?_of_six {digits : List Char} (six : digits.length = 6) {level : Nat} :
    grayLevel? (digits.map Char.toLower) = some level ↔
      ∃ c, Rgba.ofHex? digits = some c ∧ c.isGray = true ∧ c.r.toNat = level := by
  constructor
  · intro found
    unfold grayLevel? at found
    split at found
    · rename_i shape _
      have := congrArg List.length shape
      simp [six] at this
    · rename_i a b c d e f high low rest shape numbers
      split at found
      · rename_i pairs
        rw [Text.mapM_hexDigit?_toLower, Text.mapM_hexDigit?_eq_some_iff, shape] at numbers
        obtain ⟨small, same⟩ := numbers
        simp only [List.forall_mem_cons] at small
        simp only [List.map_cons, List.cons.injEq] at same pairs
        let byte := UInt8.ofNat (16 * high + low)
        have pair : Text.hexPair byte = [a, b] := by
          rw [Text.hexPair_ofNat small.1 small.2.1, same.1, same.2.1]
          rfl
        refine ⟨⟨byte, byte, byte, 1⟩, (Rgba.ofHex?_of_six six).mpr ⟨rfl, ?_⟩, by simp [Rgba.isGray], ?_⟩
        · obtain ⟨⟨rfl, rfl, -⟩, rfl, rfl, -⟩ := pairs
          rw [shape, Rgba.sixDigits, pair]
          rfl
        · obtain rfl := Option.some.inj found
          rw [UInt8.toNat_ofNat']
          omega
      · cases found
    · cases found
  · rintro ⟨⟨r, g, b, a⟩, read, gray, rfl⟩
    obtain ⟨-, same⟩ := (Rgba.ofHex?_of_six six).mp read
    obtain ⟨rfl, rfl⟩ : r = g ∧ g = b := isGray_iff.mp gray
    have bound := r.toNat_lt
    have numbers : digits.mapM Text.hexDigit? = some [r.toNat / 16, r.toNat % 16, r.toNat / 16, r.toNat % 16,
        r.toNat / 16, r.toNat % 16] := by
      refine Text.mapM_hexDigit?_eq_some_iff.mpr ⟨?_, same⟩
      simp only [List.forall_mem_cons]
      exact ⟨by omega, by omega, by omega, by omega, by omega, by omega, List.forall_mem_nil _⟩
    rw [← Text.mapM_hexDigit?_toLower, same] at numbers
    simp only [Rgba.sixDigits, Text.hexPair, List.cons_append, List.nil_append] at same numbers
    simp [same, grayLevel?, numbers, Nat.div_add_mod]

private theorem grayLevel?_eq_some_iff {digits : List Char} {level : Nat} :
    grayLevel? (digits.map Char.toLower) = some level ↔
      (digits.length = 3 ∨ digits.length = 6) ∧
        ∃ c, Rgba.ofHex? digits = some c ∧ c.isGray = true ∧ c.r.toNat = level := by
  match digits with
  | [x, y, z] =>
    have six := @grayLevel?_of_six [x, x, y, y, z, z] rfl level
    rw [← Rgba.ofHex?_of_three] at six
    simpa [grayLevel?_of_three] using six
  | [a, b, c, d, e, f] => simpa using @grayLevel?_of_six [a, b, c, d, e, f] rfl level
  | [] | [_] | [_, _] | [_, _, _, _] | [_, _, _, _, _] | _ :: _ :: _ :: _ :: _ :: _ :: _ :: _ =>
    simp [grayLevel?]

end Gray

section Hue

private theorem mem_hues_iff {digits : List Char} {name : String} :
    (String.ofList digits, name) ∈ hues ↔ ∃ hue ∈ hueColors, hue.1 = name ∧ digits = hue.2.sixDigits := by
  have form : hues = hueColors.map fun hue => (String.ofList hue.2.sixDigits, hue.1) := rfl
  rw [form, List.mem_map]
  refine exists_congr fun hue => and_congr_right fun _ => ?_
  rw [Prod.mk.injEq, and_comm, String.ofList_inj, eq_comm (a := hue.2.sixDigits)]

private theorem hue_facts : ∀ hue ∈ hueColors,
    hue.2.a = 1 ∧ hue.2.isGray = false ∧ hues.lookup (String.ofList hue.2.sixDigits) = some hue.1 ∧
      hueColors.lookup hue.1 = some hue.2 := by
  decide

private theorem lookup_hues_eq_some_iff {digits : List Char} {name : String} :
    hues.lookup (String.ofList (digits.map Char.toLower)) = some name ↔
      ∃ hue ∈ hueColors, hue.1 = name ∧ digits.length = 6 ∧ Rgba.ofHex? digits = some hue.2 := by
  constructor
  · intro found
    obtain ⟨hue, known, named, same⟩ := mem_hues_iff.mp (Entries.mem_of_lookup found)
    have six : digits.length = 6 := by
      rw [← List.length_map (f := Char.toLower), same]
      rfl
    exact ⟨hue, known, named, six, (Rgba.ofHex?_of_six six).mpr ⟨(hue_facts hue known).1, same⟩⟩
  · rintro ⟨hue, known, rfl, six, read⟩
    rw [((Rgba.ofHex?_of_six six).mp read).2]
    exact (hue_facts hue known).2.2.1

end Hue

private def nameOf (digits : List Char) : Option String :=
  (hues.lookup (String.ofList digits)).or
    ((grayLevel? digits).map fun level => "gray-" ++ toString (grayBand level * 100))

private theorem nameOf_eq_some_iff {digits : List Char} {name : String} :
    nameOf (digits.map Char.toLower) = some name ↔
      (∃ hue ∈ hueColors, hue.1 = name ∧ digits.length = 6 ∧ Rgba.ofHex? digits = some hue.2) ∨
      (digits.length = 3 ∨ digits.length = 6) ∧ ∃ c, Rgba.ofHex? digits = some c ∧ c.isGray = true ∧
        name = "gray-" ++ toString (100 * grayBand c.r.toNat) := by
  unfold nameOf
  cases found : hues.lookup (String.ofList (digits.map Char.toLower)) with
  | some hue =>
    obtain ⟨known, member, named, six, read⟩ := lookup_hues_eq_some_iff.mp found
    rw [Option.some_or]
    constructor
    · rintro ⟨⟩
      exact .inl ⟨known, member, named, six, read⟩
    · rintro (again | ⟨-, c, again, gray, -⟩)
      · rw [← found, lookup_hues_eq_some_iff.mpr again]
      · obtain rfl : known.2 = c := Option.some.inj (read.symm.trans again)
        rw [(hue_facts known member).2.1] at gray
        cases gray
  | none =>
    rw [Option.none_or, Option.map_eq_some_iff]
    simp only [grayLevel?_eq_some_iff]
    constructor
    · rintro ⟨level, ⟨places, c, read, gray, rfl⟩, rfl⟩
      exact .inr ⟨places, c, read, gray, by rw [Nat.mul_comm]⟩
    · rintro (hue | ⟨places, c, read, gray, rfl⟩)
      · rw [lookup_hues_eq_some_iff.mpr hue] at found
        cases found
      · exact ⟨c.r.toNat, ⟨places, c, read, gray, rfl⟩, by rw [Nat.mul_comm]⟩

section Names

variable {value : String} {rank count : Nat}

/-- The name that comes from the number of uses and the rank. -/
private def fallback (rank count : Nat) : String :=
  ranked (if 5 < count then "primary" else "accent") rank

private theorem colorName_eq (value : String) (rank count : Nat) :
    colorName value rank count =
      (if (bare value).head? = some '#' then nameOf (((bare value).dropWhile (· == '#')).map Char.toLower)
        else none).getD (fallback rank count) := by
  unfold colorName nameOf fallback bare
  dsimp only
  split
  · cases hues.lookup (String.ofList
      (((Text.trimBy Text.isBlank value.toList).dropWhile (· == '#')).map Char.toLower)) <;> rfl
  · rfl

private theorem hue_names : ∀ hue ∈ hueColors, hue.1.toList.getLast?.any Char.isDigit = false := by
  decide +kernel

private theorem getLast?_append_toString (stem : String) (n : Nat) :
    (stem ++ toString n).toList.getLast?.any Char.isDigit = true := by
  have some := List.getLast?_eq_some_getLast (Nat.toDigits_ne_nil (n := n) (b := 10))
  rw [String.toList_append, Nat.toString_eq_ofList_toDigits, String.toList_ofList,
    List.getLast?_append_of_ne_nil _ Nat.toDigits_ne_nil, some]
  exact Numeral.isDigit_of_mem_toDigits (List.getLast_mem _)

private theorem hue_ne {hue : String × Rgba} (known : hue ∈ hueColors) (stem : String) (n : Nat) :
    hue.1 ≠ stem ++ toString n := by
  intro same
  have letter := hue_names hue known
  rw [same, getLast?_append_toString] at letter
  cases letter

private theorem fallback_eq (rank count : Nat) :
    fallback rank count = (if 5 < count then "primary-" else "accent-") ++ toString rank := by
  unfold fallback ranked
  split <;> rfl

private theorem gray_injective {m n : Nat} (same : "gray-" ++ toString m = "gray-" ++ toString n) : m = n := by
  have characters := congrArg String.toList same
  simp only [String.toList_append, List.append_cancel_left_eq, Nat.toString_eq_ofList_toDigits,
    String.toList_ofList] at characters
  exact Numeral.toDigits_injective characters

private theorem gray_ne_fallback (n rank count : Nat) : "gray-" ++ toString n ≠ fallback rank count := by
  rw [fallback_eq]
  intro same
  have first := congrArg (fun s => s.toList.head?) same
  split at first <;> simp [String.toList_append] at first

private theorem dropWhile_of_single {digits : List Char} (form : bare value = '#' :: digits)
    (single : ¬ ManySigns value) : (bare value).dropWhile (· == '#') = digits := by
  rw [form]
  cases digits with
  | nil => rfl
  | cons c rest =>
    have other : c ≠ '#' := by
      rintro rfl
      refine single ?_
      rw [ManySigns, form]
      exact List.prefix_append ['#', '#'] rest
    rw [List.dropWhile_cons, if_pos (by rfl), List.dropWhile_cons, if_neg (by simpa using other)]

private theorem parse?_of_sign {digits : List Char} (form : bare value = '#' :: digits) :
    Rgba.parse? value = Rgba.ofHex? digits := by
  unfold bare at form
  rw [Rgba.parse?, form]
  rfl

/-- A name that does not come from the rank is given just for the digits of a hue or a gray. -/
private theorem colorName_eq_iff (single : ¬ ManySigns value) {name : String} (apart : name ≠ fallback rank count) :
    colorName value rank count = name ↔
      (∃ hue ∈ hueColors, hue.1 = name ∧ HasPlaces value 6 ∧ Rgba.parse? value = some hue.2) ∨
      (HasPlaces value 3 ∨ HasPlaces value 6) ∧ ∃ c, Rgba.parse? value = some c ∧ c.isGray = true ∧
        name = "gray-" ++ toString (100 * grayBand c.r.toNat) := by
  rw [colorName_eq]
  by_cases signed : ∃ digits, bare value = '#' :: digits
  · obtain ⟨digits, form⟩ := signed
    have places (n : Nat) : HasPlaces value n ↔ digits.length = n := by
      refine ⟨?_, fun length => ⟨digits, form, length⟩⟩
      rintro ⟨others, same, rfl⟩
      rw [form, List.cons.injEq] at same
      rw [same.2]
    have known (found : Option String) : found.getD (fallback rank count) = name ↔ found = some name := by
      cases found with
      | none => simpa using apart.symm
      | some other => simp
    rw [dropWhile_of_single form single, form, List.head?_cons, if_pos rfl, known, nameOf_eq_some_iff,
      parse?_of_sign form]
    simp only [places]
  · have unsigned : (bare value).head? ≠ some '#' := by
      intro head
      obtain ⟨digits, form⟩ := List.head?_eq_some_iff.mp head
      exact signed ⟨digits, form⟩
    have noPlaces (n : Nat) : ¬ HasPlaces value n := fun ⟨digits, form, _⟩ => signed ⟨digits, form⟩
    rw [if_neg unsigned]
    refine iff_of_false apart.symm ?_
    rintro (⟨-, -, -, six, -⟩ | ⟨three | six, -⟩)
    · exact noPlaces 6 six
    · exact noPlaces 3 three
    · exact noPlaces 6 six

private theorem opaque_of_places (places : HasPlaces value 3 ∨ HasPlaces value 6) {c : Rgba}
    (read : Rgba.parse? value = some c) : c.a = 1 := by
  obtain ⟨digits, form, length⟩ | ⟨digits, form, length⟩ := places
  · rw [parse?_of_sign form] at read
    match digits with
    | [x, y, z] =>
      rw [Rgba.ofHex?_of_three] at read
      exact ((Rgba.ofHex?_of_six rfl).mp read).1
  · rw [parse?_of_sign form] at read
    exact ((Rgba.ofHex?_of_six length).mp read).1

end Names

/-- The name of a text with one number sign at most goes with what the text is read as. A text with more of them is read
as no color, though it is named as any text with the same digits behind one sign. -/
theorem colorName_asRead (value : String) (rank count : Nat) :
    (¬ ManySigns value → NamedAsRead value rank count (colorName value rank count)) ∧
    (ManySigns value → Rgba.parse? value = none ∧
      ∀ plain, bare plain = '#' :: (bare value).dropWhile (· == '#') →
        ¬ ManySigns plain ∧ colorName value rank count = colorName plain rank count) := by
  refine ⟨fun single => ⟨fun hue known => ?_, fun n => ?_, fun noHue noGray => ?_⟩, fun many => ⟨?_, ?_⟩⟩
  · have apart : hue.1 ≠ fallback rank count := by
      rw [fallback_eq]
      exact hue_ne known _ rank
    rw [colorName_eq_iff single apart]
    constructor
    · rintro (⟨other, member, named, six, read⟩ | ⟨-, c, -, -, gray⟩)
      · have same : hueColors.lookup other.1 = hueColors.lookup hue.1 := congrArg (hueColors.lookup ·) named
        rw [(hue_facts other member).2.2.2, (hue_facts hue known).2.2.2] at same
        exact ⟨six, read.trans same⟩
      · exact absurd gray (hue_ne known "gray-" _)
    · rintro ⟨six, read⟩
      exact .inl ⟨hue, known, rfl, six, read⟩
  · rw [colorName_eq_iff single (gray_ne_fallback n rank count)]
    constructor
    · rintro (⟨hue, known, named, -⟩ | ⟨places, c, read, gray, same⟩)
      · exact absurd named (hue_ne known "gray-" n)
      · exact ⟨places, c, read, gray, opaque_of_places places read, gray_injective same⟩
    · rintro ⟨places, c, read, gray, -, rfl⟩
      exact .inr ⟨places, c, read, gray, rfl⟩
  · rw [← fallback_eq]
    by_contra apart
    rcases (colorName_eq_iff single apart).mp rfl with ⟨hue, known, named, -⟩ | ⟨-, c, -, -, named⟩
    · exact noHue hue known named.symm
    · exact noGray _ named
  · obtain ⟨rest, form⟩ := many
    have none : Text.hexDigit? '#' = none := by decide
    rw [parse?_of_sign form.symm]
    simp [Rgba.ofHex?, none]
  · intro plain form
    have single : ¬ ManySigns plain := by
      rw [ManySigns, form, List.cons_prefix_cons]
      rintro ⟨-, rest, again⟩
      have stopped := List.head?_dropWhile_not (· == '#') (bare value)
      rw [← again] at stopped
      cases stopped
    refine ⟨single, ?_⟩
    obtain ⟨rest, signs⟩ := many
    have head : (bare value).head? = some '#' := signs ▸ rfl
    rw [colorName_eq, colorName_eq, dropWhile_of_single form single, head, form, List.head?_cons]

/-- Two number signs are taken for one by the name, but not by the paint. -/
theorem not_namedAsRead_signs : ¬ NamedAsRead "##ff0000" 1 1 (colorName "##ff0000" 1 1) := by
  intro named
  have hue := (named.hue ("primary-red", ⟨255, 0, 0, 1⟩) (by decide)).mp (by decide +kernel)
  have unread : Rgba.parse? "##ff0000" = none := by decide +kernel
  rw [unread] at hue
  cases hue.2

end Handoff.Token
