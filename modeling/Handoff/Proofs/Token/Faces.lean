import Handoff.Proofs.Token.Naming

set_option autoImplicit false
set_option relaxedAutoImplicit false

/-!
The faces of font sizes.

The tokens of typography come from the text nodes that give a size themselves, and from no other nodes. The face of a
size is what the texts of that size use most often; of families and weights used as often, it is the one used first.
-/

namespace Handoff.Token
open Design Allocator

/-- What a text with a finite size of its own says about its font. -/
structure SizedText where
  size : Float
  family : Option String
  weight : Option FontWeight

def SizedText.ofNode? : Node → Option SizedText
  | .leaf _ (.text a) => (a.fontSize.filter Float.isFinite).map fun size => ⟨size, a.fontFamily, a.fontWeight⟩
  | _ => none

/-- The texts of a design that give a finite size themselves, in preorder. -/
def sizedTexts (tree : Tree) : List SizedText :=
  tree.root.preorder.filterMap SizedText.ofNode?

def familiesAt (texts : List SizedText) (size : Float) : List String :=
  (texts.filter (·.size == size)).filterMap fun text => text.family.filter fun s => !Text.isBlankText s

/-- The weights that texts of a size give, as they are printed. -/
def weightsAt (texts : List SizedText) (size : Float) : List String :=
  (texts.filter (·.size == size)).filterMap fun text => text.weight.map FontWeight.text

/-- The face of a size: the family and the weight used most often by the texts of that size, each absent when no such
text has one. -/
structure FaceOf (texts : List SizedText) (size : Float) (face : Typography) : Prop where
  length : face.fontSize = pxText size
  family : ∀ s, face.fontFamily = some s ↔ IsMode (familiesAt texts size) s
  noFamily : face.fontFamily = none ↔
    ∀ text ∈ texts, text.size == size → ∀ s ∈ text.family, Text.isBlankText s = true
  weight : ∀ s, face.fontWeight = some s ↔ IsMode (weightsAt texts size) s
  noWeight : face.fontWeight = none ↔ ∀ text ∈ texts, text.size == size → text.weight = none

section Sizes

/-- What a text with a size adds to the uses. -/
def SizedText.font (text : SizedText) : Font :=
  ⟨some (unsignedZero text.size), text.family.filter fun s => !Text.isBlankText s, text.weight.map FontWeight.text⟩

private theorem sized_font (node : Node) :
    (Use.font node).filter (·.size.isSome) = (SizedText.ofNode? node).toList.map SizedText.font := by
  cases node with
  | container header kind children => rfl
  | leaf header kind =>
    cases kind with
    | text a =>
      cases size : a.fontSize with
      | none => simp [Use.font, finite, SizedText.ofNode?, size]
      | some x =>
        cases finite : x.isFinite <;>
          simp [Use.font, Token.finite, SizedText.ofNode?, SizedText.font, Label.namedFamily, size, Option.filter, finite]
    | _ => rfl

private theorem sized_fonts (tree : Tree) :
    (Usage.ofTree tree).fonts.filter (·.size.isSome) = (sizedTexts tree).map SizedText.font := by
  have all (nodes : List Node) : (nodes.flatMap Use.font).filter (·.size.isSome) =
      (nodes.filterMap SizedText.ofNode?).map SizedText.font := by
    induction nodes with
    | nil => rfl
    | cons node rest ih =>
      rw [List.flatMap_cons, List.filter_append, ih, sized_font, List.filterMap_cons]
      cases SizedText.ofNode? node <;> rfl
  rw [Usage.ofTree, sizedTexts, ← tree.root.walk_eq_preorder]
  exact all _

private theorem isFinite_of_mem {tree : Tree} : ∀ text ∈ sizedTexts tree, text.size.isFinite = true := by
  intro text member
  obtain ⟨node, -, sized⟩ := List.mem_filterMap.mp member
  unfold SizedText.ofNode? at sized
  split at sized
  · obtain ⟨size, given, rfl⟩ := Option.map_eq_some_iff.mp sized
    exact (Option.filter_eq_some_iff.mp given).2
  · cases sized

private theorem unsignedZero_eq_iff {x y : Float} (hx : x.isFinite = true) (hy : Plain y) :
    unsignedZero x = y ↔ (x == y) = true := by
  have place : placeOf (unsignedZero x) = placeOf x := by
    unfold unsignedZero
    split
    · rename_i zero
      exact ((beq_iff_placeOf hx rfl).mp zero).symm
    · rfl
  obtain ⟨finite, unsigned⟩ := plain_unsignedZero hx
  rw [beq_iff_placeOf hx hy.1, ← place]
  exact ⟨congrArg placeOf, eq_of_placeOf_eq finite hy.1 unsigned hy.2⟩

end Sizes

section Typography

variable {options : Options} {tree : Tree}

private theorem fontSizes_eq (tree : Tree) :
    (Usage.ofTree tree).fontSizes = (sizedTexts tree).map fun text => unsignedZero text.size := by
  have sized (fonts : List Font) : fonts.filterMap Font.size = (fonts.filter (·.size.isSome)).filterMap Font.size := by
    rw [List.filterMap_filter]
    refine List.filterMap_congr fun font _ => ?_
    cases font.size <;> rfl
  rw [Usage.fontSizes, sized, sized_fonts, List.filterMap_map]
  exact congrFun (List.filterMap_eq_map (f := fun text : SizedText => unsignedZero text.size)) _

private theorem fontsOf_eq (tree : Tree) (size : Float) :
    (Usage.ofTree tree).fontsOf size = ((sizedTexts tree).map SizedText.font).filter (·.size = some size) := by
  rw [← sized_fonts, List.filter_filter]
  refine List.filter_congr fun font _ => ?_
  cases font.size <;> simp

private theorem filterMap_fontsOf {size : Float} (plain : Plain size) (say : Font → Option String) :
    ((Usage.ofTree tree).fontsOf size).filterMap say =
      ((sizedTexts tree).filter (·.size == size)).filterMap fun text => say text.font := by
  have same : (sizedTexts tree).filter (fun text => decide (text.font.size = some size)) =
      (sizedTexts tree).filter (·.size == size) := by
    refine List.filter_congr fun text member => ?_
    rw [Bool.eq_iff_iff, decide_eq_true_iff, SizedText.font, Option.some.injEq]
    exact unsignedZero_eq_iff (isFinite_of_mem text member) plain
  rw [fontsOf_eq, List.filter_map, List.filterMap_map, ← same]
  rfl

private theorem faceOf_typographyOf (tree : Tree) {size : Float} (plain : Plain size) :
    FaceOf (sizedTexts tree) size (typographyOf (.ofTree tree) size) := by
  have families : ((Usage.ofTree tree).fontsOf size).filterMap Font.family = familiesAt (sizedTexts tree) size :=
    filterMap_fontsOf plain Font.family
  have weights : ((Usage.ofTree tree).fontsOf size).filterMap Font.weight = weightsAt (sizedTexts tree) size :=
    filterMap_fontsOf plain Font.weight
  refine ⟨rfl, fun s => ?_, ?_, fun s => ?_, ?_⟩
  · rw [typographyOf, families, mostCommon_eq_some_iff]
  · rw [typographyOf, families, mostCommon_eq_none_iff, familiesAt, List.filterMap_eq_nil_iff]
    simp [Option.filter_eq_none_iff]
  · rw [typographyOf, weights, mostCommon_eq_some_iff]
  · rw [typographyOf, weights, mostCommon_eq_none_iff, weightsAt, List.filterMap_eq_nil_iff]
    simp

private theorem exists_typography_iff (options : Options) (tree : Tree) (value : Value) :
    (∃ entry ∈ (extract options tree).typography, entry.2.value = value) ↔
      ∃ text ∈ sizedTexts tree, value = .typography (typographyOf (.ofTree tree) (unsignedZero text.size)) := by
  have used (size : Float) : size ∈ (Usage.ofTree tree).fontSizes ↔
      ∃ text ∈ sizedTexts tree, unsignedZero text.size = size := by
    rw [fontSizes_eq, List.mem_map]
  have tokens := map_snd_get_extract options tree .typography
  constructor
  · rintro ⟨entry, member, rfl⟩
    have drafted := List.mem_map_of_mem (f := Prod.snd) member
    rw [show (extract options tree).typography = (extract options tree).get .typography from rfl, tokens] at drafted
    obtain ⟨d, there, token⟩ := List.mem_map.mp drafted
    rw [drafts] at there
    obtain ⟨size, sized, rank, count, rfl⟩ := exists_use there
    obtain ⟨text, known, rfl⟩ := (used size).mp sized
    exact ⟨text, known, by rw [← token]; rfl⟩
  · rintro ⟨text, known, rfl⟩
    have drafted : ∃ d ∈ drafts options (.ofTree tree) .typography,
        d.token.value = .typography (typographyOf (.ofTree tree) (unsignedZero text.size)) := by
      rw [drafts]
      obtain ⟨rank, count, there⟩ := exists_draft ((used _).mpr ⟨text, known, rfl⟩)
      exact ⟨_, there, rfl⟩
    obtain ⟨d, there, value⟩ := drafted
    have token := List.mem_map_of_mem (f := Draft.token) there
    rw [← tokens] at token
    obtain ⟨entry, member, same⟩ := List.mem_map.mp token
    exact ⟨entry, member, by rw [same, value]⟩

private theorem drafts_typography_eq {other : Tree} (same : sizedTexts other = sizedTexts tree) :
    drafts options (.ofTree other) .typography = drafts options (.ofTree tree) .typography := by
  have face : typographyOf (.ofTree other) = typographyOf (.ofTree tree) := by
    funext size
    rw [typographyOf, typographyOf, fontsOf_eq, fontsOf_eq, same]
  rw [drafts, drafts, fontSizes_eq, fontSizes_eq, face, same]

private theorem agreeOn_colors {d : Draft} (member : d ∈ drafts options (.ofTree tree) .typography) (other : Tree) :
    AgreeOn d.base (nameDrafts {} (drafts options (.ofTree other) .color)).2 {} := by
  intro name made
  refine iff_of_false (fun taken => ?_) List.not_mem_nil
  rcases ((gives_nameDrafts {} (drafts options (.ofTree other) .color)).taken name).mp taken with given | none
  · obtain ⟨entry, there, rfl⟩ := List.mem_map.mp given
    obtain ⟨color, drafted, -, also⟩ := exists_of_forall₂ (madeFrom_nameDrafts {} _) there
    obtain ⟨stem, first, starts, -⟩ := shaped_draft member
    obtain ⟨begins, second, begun, -⟩ := shaped_draft drafted
    have near := List.prefix_or_prefix_of_prefix (prefix_of_madeFrom made starts) (prefix_of_madeFrom also begun)
    have apart : ∀ a ∈ stems .typography, ∀ b ∈ stems .color,
        ¬(a.toList <+: b.toList ∨ b.toList <+: a.toList) := by
      decide
    exact apart stem first begins second near
  · cases none

end Typography

/-- A token of typography carries the face of its size. Its value is the same whatever the options are, and all of the
tokens come from the texts with a finite size of their own alone. -/
theorem typography_faces (options : Options) (tree : Tree) :
    (∀ entry ∈ (extract options tree).typography, ∃ face, entry.2.value = .typography face ∧
      (∃ text ∈ sizedTexts tree, ∃ size, (text.size == size) = true ∧ face.fontSize = pxText size) ∧
      ∀ size : Float, size.isFinite = true → face.fontSize = pxText size → FaceOf (sizedTexts tree) size face) ∧
    (∀ others : Options, ∀ value,
      (∃ entry ∈ (extract options tree).typography, entry.2.value = value) ↔
        ∃ entry ∈ (extract others tree).typography, entry.2.value = value) ∧
    ∀ other : Tree, sizedTexts other = sizedTexts tree →
      (extract options other).typography = (extract options tree).typography := by
  refine ⟨fun entry member => ?_, fun others value => ?_, fun other same => ?_⟩
  · obtain ⟨text, known, value⟩ := (exists_typography_iff options tree _).mp ⟨entry, member, rfl⟩
    have finite := isFinite_of_mem text known
    have plain := plain_unsignedZero finite
    have face := faceOf_typographyOf tree plain
    refine ⟨_, value, ⟨text, known, _, (unsignedZero_eq_iff finite plain).mp rfl, face.length⟩, ?_⟩
    intro size bounded length
    obtain rfl := pxText_injective plain.1 bounded (face.length.symm.trans length)
    exact face
  · rw [exists_typography_iff, exists_typography_iff]
  · rw [typography_extract, typography_extract, drafts_typography_eq same]
    refine nameDrafts_eq_of_agree fun d member name made => ?_
    rw [agreeOn_colors member other name made, agreeOn_colors member tree name made]

end Handoff.Token
