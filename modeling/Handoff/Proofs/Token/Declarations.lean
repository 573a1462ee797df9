import Handoff.Proofs.Token.Naming
import Handoff.Token.StyleSheet

set_option autoImplicit false
set_option relaxedAutoImplicit false

/-!
Which custom properties of a catalog have different names.

The allocator keeps the names of tokens apart, and knows nothing of the names that a typography token gives to its parts.
Such a name is that of its token with an ending. No name with a number has one of these endings, so that only a family
whose words end so, and start like a font size, has a name that stands a second time.
-/

namespace Handoff.Token
open Design Allocator

/-- What the declarations of the parts of a font end with. -/
def partEndings : List String :=
  ["-size", "-family", "-weight"]

section Endings

variable {ending : String} (known : ending ∈ partEndings)
include known

private theorem not_ending_ranked (stem : String) (rank : Nat) : ¬ending.toList <:+ (ranked stem rank).toList := by
  rintro ⟨start, same⟩
  have last := congrArg List.getLast? same
  rw [ranked, String.toList_append, Nat.toString_eq_ofList_toDigits, String.toList_ofList, List.getLast?_append,
    List.getLast?_append, List.getLast?_eq_getLast_of_ne_nil Nat.toDigits_ne_nil, Option.some_or] at last
  have digit := Numeral.isDigit_of_mem_toDigits (List.getLast_mem (Nat.toDigits_ne_nil (n := rank) (b := 10)))
  have letters : ∀ ending ∈ partEndings, ending.toList.getLast?.all Char.isDigit = false := by decide
  have letter := letters ending known
  cases final : ending.toList.getLast? with
  | none =>
    rw [final] at letter
    cases letter
  | some c =>
    rw [final, Option.some_or, Option.some.injEq] at last
    rw [final, Option.all_some, last, digit] at letter
    cases letter

private theorem eq_of_ending {name base : String} (made : MadeFrom name base)
    (ends : ending.toList <:+ name.toList) : name = base := by
  rcases made with same | ⟨n, rfl⟩
  · exact same
  · exact absurd ends (not_ending_ranked known base n)

private theorem not_ending_fontSize {options : Options} {usage : Usage} {d : Draft}
    (member : d ∈ drafts options usage .typography) : ¬ending.toList <:+ d.base.toList := by
  rw [drafts] at member
  obtain ⟨size, -, rank, count, rfl⟩ := exists_use member
  dsimp only
  split
  · unfold fontSizeName
    split
    · rename_i step found
      have none : ∀ ending ∈ partEndings, ∀ step ∈ fontSizeScale, ¬ending.toList <:+ step.2.toList := by decide
      exact none ending known step (List.mem_of_find?_eq_some found)
    · exact not_ending_ranked known "font-size" rank
  · exact not_ending_ranked known "font-size" rank

end Endings

section Parts

def declaredNames (entry : TokenClass × String × DesignToken) : List String :=
  (entry.2.2.value.declarations entry.2.1).map Declaration.name

theorem map_name_declarations (catalog : Catalog) :
    catalog.declarations.map Declaration.name = catalog.toList.flatMap declaredNames := by
  rw [Catalog.declarations, List.map_flatMap]
  rfl

theorem mem_toList {catalog : Catalog} {c : TokenClass} {entry : String × DesignToken} :
    (c, entry) ∈ catalog.toList ↔ entry ∈ catalog.get c := by
  rw [Catalog.toList, List.mem_flatMap]
  constructor
  · rintro ⟨d, -, member⟩
    obtain ⟨other, there, same⟩ := List.mem_map.mp member
    cases same
    exact there
  · exact fun member => ⟨c, c.mem_all, List.mem_map_of_mem member⟩

private theorem names_partOf (name : String) (part : Option String) :
    ((partOf name part).map Declaration.name).Sublist [name] := by
  cases part with
  | none => exact List.nil_sublist _
  | some value => exact List.Sublist.refl _

theorem names_typography (name : String) (t : Typography) :
    (((Value.typography t).declarations name).map Declaration.name).Sublist (partEndings.map (name ++ ·)) := by
  rw [Value.declarations, List.map_append, List.map_cons]
  exact ((names_partOf _ t.fontFamily).cons_cons _).append (names_partOf _ t.fontWeight)

private theorem nodup_declaredNames (entry : TokenClass × String × DesignToken) : (declaredNames entry).Nodup := by
  unfold declaredNames
  cases entry.2.2.value with
  | number x => exact List.nodup_singleton _
  | text s => exact List.nodup_singleton _
  | typography t =>
    have distinct : (partEndings.map (entry.2.1 ++ ·)).Nodup :=
      List.Nodup.map (fun s t same => by simpa using same) (by decide)
    exact distinct.sublist (names_typography entry.2.1 t)

variable {options : Options} {tree : Tree} {c : TokenClass} {entry : String × DesignToken}
  (member : entry ∈ (extract options tree).get c)
include member

private theorem declaredNames_single (other : c ≠ .typography) : declaredNames (c, entry) = [entry.1] := by
  obtain ⟨sighting, -, carries⟩ := exists_carries member
  unfold declaredNames
  cases value : entry.2.value with
  | number x => rfl
  | text s => rfl
  | typography t =>
    rw [value] at carries
    cases carries
    exact absurd rfl other

private theorem exists_ending (font : c = .typography) {name : String} (declared : name ∈ declaredNames (c, entry)) :
    ∃ ending ∈ partEndings, name = entry.1 ++ ending := by
  subst font
  obtain ⟨sighting, -, carries⟩ := exists_carries member
  unfold declaredNames at declared
  cases value : entry.2.value with
  | number x =>
    rw [value] at carries
    cases carries
  | text s =>
    rw [value] at carries
    cases carries
  | typography t =>
    rw [value] at declared
    obtain ⟨ending, known, rfl⟩ := List.mem_map.mp ((names_typography entry.1 t).subset declared)
    exact ⟨ending, known, rfl⟩

end Parts

section Clashes

variable {options : Options} {tree : Tree}

private theorem eq_of_append_ending {first second name other : String} (known : first ∈ partEndings)
    (also : second ∈ partEndings) (same : name ++ first = other ++ second) : name = other := by
  have ends : first.toList <:+ (other ++ second).toList := by
    rw [← same, String.toList_append]
    exact List.suffix_append ..
  have apart : ∀ first ∈ partEndings, ∀ second ∈ partEndings,
      first.toList <:+ second.toList ∨ second.toList <:+ first.toList → first = second := by decide
  rw [String.toList_append] at ends
  obtain rfl := apart _ known _ also (List.suffix_or_suffix_of_suffix ends (List.suffix_append ..))
  simpa using same

private theorem exists_stem {c : TokenClass} {entry : String × DesignToken}
    (member : entry ∈ (extract options tree).get c) :
    ∃ stem ∈ stems c, stem.toList <+: entry.1.toList := by
  obtain ⟨d, there, -, made⟩ := exists_of_forall₂ (madeFrom_get_extract options tree c) member
  obtain ⟨stem, known, starts, -⟩ := shaped_draft there
  exact ⟨stem, known, prefix_of_madeFrom made starts⟩

/-- A token that is called like a part of a font is that of a family, and has the words of the part. -/
private theorem family_of_part {font : String × DesignToken} (member : font ∈ (extract options tree).get .typography)
    {name : String} (declared : name ∈ declaredNames (.typography, font)) {c : TokenClass}
    {other : String × DesignToken} (there : other ∈ (extract options tree).get c) (same : other.1 = name) :
    c = .fontFamily ∧ ∃ slug ∈ slugs options (.ofTree tree) .fontFamily, name = "font-" ++ slug := by
  obtain ⟨ending, known, rfl⟩ := exists_ending member rfl declared
  obtain ⟨d, drafted, -, made⟩ := exists_of_forall₂ (madeFrom_get_extract options tree c) there
  have ends : ending.toList <:+ other.1.toList := by
    rw [same, String.toList_append]
    exact List.suffix_append ..
  have whole := eq_of_ending known made ends
  obtain ⟨stem, first, starts⟩ := exists_stem member
  obtain ⟨begins, second, begun⟩ := exists_stem there
  rw [same, String.toList_append] at begun
  have near := List.prefix_or_prefix_of_prefix (starts.trans (List.prefix_append _ ending.toList)) begun
  have apart : ∀ c, c ≠ .typography → c ≠ .fontFamily → ∀ a ∈ stems .typography, ∀ b ∈ stems c,
      ¬(a.toList <+: b.toList ∨ b.toList <+: a.toList) := by
    rintro (_ | _ | _ | _ | _ | _ | _) <;> decide
  by_cases font : c = .typography
  · subst font
    rw [whole] at ends
    exact absurd ends (not_ending_fontSize known drafted)
  · by_cases family : c = .fontFamily
    · subst family
      refine ⟨rfl, ?_⟩
      rcases base_family drafted with ⟨rank, unnamed⟩ | ⟨slug, told, -, named⟩
      · rw [whole, unnamed] at ends
        exact absurd ends (not_ending_ranked known _ rank)
      · exact ⟨slug, told, same.symm.trans (whole.trans named)⟩
    · exact absurd near (apart c font family stem first begins second)

/-- What a design's slugs make of families are names of parts of fonts. -/
private def Clash (options : Options) (tree : Tree) : Prop :=
  ∃ slug ∈ slugs options (.ofTree tree) .fontFamily, ∃ font ∈ (extract options tree).typography,
    "font-" ++ slug ∈ declaredNames (.typography, font)

private theorem disjoint_declaredNames (clear : ¬Clash options tree) {first second : TokenClass × String × DesignToken}
    (one : first ∈ (extract options tree).toList) (two : second ∈ (extract options tree).toList)
    (other : first.2.1 ≠ second.2.1) : (declaredNames first).Disjoint (declaredNames second) := by
  obtain ⟨c, entry⟩ := first
  obtain ⟨e, token⟩ := second
  rw [mem_toList] at one two
  intro name here there
  by_cases font : c = .typography
  · by_cases also : e = .typography
    · obtain ⟨ending, known, rfl⟩ := exists_ending one font here
      obtain ⟨last, final, same⟩ := exists_ending two also there
      exact other (eq_of_append_ending known final same)
    · subst font
      rw [declaredNames_single two also, List.mem_singleton] at there
      obtain ⟨-, slug, told, rfl⟩ := family_of_part one here two there.symm
      exact clear ⟨slug, told, entry, one, here⟩
  · rw [declaredNames_single one font, List.mem_singleton] at here
    by_cases also : e = .typography
    · subst also
      obtain ⟨-, slug, told, rfl⟩ := family_of_part two there one here.symm
      exact clear ⟨slug, told, token, two, there⟩
    · rw [declaredNames_single two also, List.mem_singleton] at there
      exact other (here.symm.trans there)

private theorem nodup_iff : ((extract options tree).declarations.map Declaration.name).Nodup ↔ ¬Clash options tree := by
  rw [map_name_declarations, List.nodup_flatMap]
  constructor
  · rintro ⟨-, apart⟩ ⟨slug, told, font, member, declared⟩
    have some : slug ≠ "" := by
      rintro rfl
      obtain ⟨ending, known, same⟩ := exists_ending (c := .typography) member rfl declared
      have none : ∀ ending ∈ partEndings, ¬ending.toList <:+ ("font-" ++ "").toList := by decide
      refine none ending known ?_
      rw [same, String.toList_append]
      exact List.suffix_append ..
    obtain ⟨d, drafted, stem, known, base⟩ := exists_draft_of_slug told some
    obtain rfl := List.mem_singleton.mp known
    obtain ⟨other, there, same⟩ := List.mem_map.mp (mem_names_extract options tree drafted)
    rw [base] at same
    obtain ⟨c, entry⟩ := other
    obtain ⟨rfl, -⟩ := family_of_part (c := c) member declared (mem_toList.mp there) same
    have : Std.Symm (Function.onFun List.Disjoint declaredNames) := ⟨fun _ _ h => h.symm⟩
    have mine : (.typography, font) ∈ (extract options tree).toList := mem_toList.mpr member
    refine apart.forall mine there (fun equal => by cases equal) declared ?_
    rw [declaredNames_single (mem_toList.mp there) nofun]
    exact List.mem_singleton.mpr same.symm
  · intro clear
    refine ⟨fun entry _ => nodup_declaredNames entry, ?_⟩
    have distinct := nodup_names_extract options tree
    rw [List.Nodup, List.pairwise_map] at distinct
    exact distinct.imp_of_mem fun one two other => disjoint_declaredNames clear one two other

private theorem prefix_of_clash {font : String × DesignToken} (member : font ∈ (extract options tree).get .typography)
    {slug : String} (declared : "font-" ++ slug ∈ declaredNames (.typography, font)) {start : List Char}
    (starts : start <+: font.1.toList) : start <+: "font-".toList ++ slug.toList := by
  obtain ⟨ending, -, same⟩ := exists_ending member rfl declared
  rw [← String.toList_append, same, String.toList_append]
  exact starts.trans (List.prefix_append ..)

private theorem not_text {slug : String} : ¬"text-".toList <+: "font-".toList ++ slug.toList := by
  intro starts
  have near := List.prefix_or_prefix_of_prefix starts (List.prefix_append _ slug.toList)
  exact absurd near (by decide)

private theorem text_of_small {font : String × DesignToken} (member : font ∈ (extract options tree).get .typography)
    (semantic : options.semantic = true) (small : ∀ size ∈ (Usage.ofTree tree).fontSizes, size ≤ 48) :
    "text-".toList <+: font.1.toList := by
  obtain ⟨d, drafted, -, made⟩ := exists_of_forall₂ (madeFrom_get_extract options tree .typography) member
  refine prefix_of_madeFrom made ?_
  rw [drafts] at drafted
  obtain ⟨size, used, rank, count, rfl⟩ := exists_use drafted
  dsimp only
  rw [if_pos semantic, fontSizeName]
  split
  · rename_i step found
    have all : ∀ step ∈ fontSizeScale, "text-".toList <+: step.2.toList := by decide
    exact all step (List.mem_of_find?_eq_some found)
  · rename_i none
    have last := List.find?_eq_none.mp none (48, "text-5xl") (by simp [fontSizeScale])
    exact absurd (decide_eq_true (small size used)) last

end Clashes

/-- The custom properties of a catalog have different names exactly when no family has words that make it the name of a
part of a font. That is so at least where all texts have sizes of the scale, and where the words of no family start with
a size. -/
theorem nodup_declarations (options : Options) (tree : Tree) :
    (((extract options tree).declarations.map Declaration.name).Nodup ↔
      ∀ slug ∈ slugs options (.ofTree tree) .fontFamily, ∀ font ∈ (extract options tree).typography,
        ∀ d ∈ font.2.value.declarations font.1, d.name ≠ "font-" ++ slug) ∧
    ((∀ size ∈ (Usage.ofTree tree).fontSizes, size ≤ 48) →
      ((extract options tree).declarations.map Declaration.name).Nodup) ∧
    ((∀ slug ∈ slugs options (.ofTree tree) .fontFamily, ¬"size-".toList <+: slug.toList) →
      ((extract options tree).declarations.map Declaration.name).Nodup) := by
  refine ⟨?_, fun small => nodup_iff.mpr ?_, fun plain => nodup_iff.mpr ?_⟩
  · rw [nodup_iff]
    constructor
    · intro clear slug told font member d declared same
      exact clear ⟨slug, told, font, member, List.mem_map.mpr ⟨d, declared, same⟩⟩
    · rintro apart ⟨slug, told, font, member, declared⟩
      obtain ⟨d, there, same⟩ := List.mem_map.mp declared
      exact apart slug told font member d there same
  · rintro ⟨slug, told, font, member, declared⟩
    obtain ⟨semantic, -⟩ := mem_slugs_family.mp told
    exact not_text (prefix_of_clash member declared (text_of_small member semantic small))
  · rintro ⟨slug, told, font, member, declared⟩
    obtain ⟨stem, known, starts⟩ := exists_stem (c := .typography) member
    have both := prefix_of_clash member declared starts
    rcases List.mem_pair.mp known with rfl | rfl
    · exact not_text both
    · exact plain slug told ((List.prefix_append_right_inj "font-".toList).mp both)

/-- A title of a size of the scale beside a note in a family that is called like a part of a font. -/
theorem nodup_declarations_scale :
    let tree : Tree := { root := .container { id := "page" } (.panel .frame {}) [
      .leaf { id := "title" } (.text { text := "Title", fontSize := some 48 }),
      .leaf { id := "note" } (.text { text := "Note", fontFamily := some "Size 1 Size" })] }
    (∀ size ∈ (Usage.ofTree tree).fontSizes, size ≤ 48) ∧
      ((extract {} tree).declarations.map Declaration.name).Nodup := by
  intro tree
  have small : ∀ size ∈ (Usage.ofTree tree).fontSizes, size ≤ 48 := by decide +kernel
  exact ⟨small, (nodup_declarations {} tree).2.1 small⟩

/-- With a larger title the family has the name of its size. -/
theorem not_nodup_declarations :
    let tree : Tree := { root := .container { id := "page" } (.panel .frame {}) [
      .leaf { id := "title" } (.text { text := "Title", fontSize := some 64 }),
      .leaf { id := "note" } (.text { text := "Note", fontFamily := some "Size 1 Size" })] }
    (extract {} tree).declarations =
        [⟨"font-size-1-size", "64px"⟩, ⟨"font-size-1-size", "Size 1 Size"⟩, ⟨"opacity-100", "1"⟩] ∧
      ¬((extract {} tree).declarations.map Declaration.name).Nodup := by
  intro tree
  have twice : (extract {} tree).declarations =
      [⟨"font-size-1-size", "64px"⟩, ⟨"font-size-1-size", "Size 1 Size"⟩, ⟨"opacity-100", "1"⟩] := by
    decide +kernel
  refine ⟨twice, ?_⟩
  rw [twice]
  decide

end Handoff.Token
