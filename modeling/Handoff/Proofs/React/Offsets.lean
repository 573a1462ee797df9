import Handoff.Proofs.Design.Position
import Handoff.Proofs.React.Elements

set_option autoImplicit false
set_option relaxedAutoImplicit false

/-!
How far the elements of a component are from the corner of the page.

An absolute element is at its `left` and `top` in the one around it, which is positioned as well. These offsets are
added up along elements that stand in one another.
-/

namespace Handoff.React
open Design

def sides : List String :=
  ["left", "top"]

/-- The keys of a style that say where an element is and how large. -/
def boxKeys : List String :=
  sides ++ ["width", "height"]

/-- The classes that say how an element comes to its place. -/
def placementClasses : List String :=
  ["relative", "absolute"]

namespace Tag

/-- The whole number that an entry of the inline style is given. -/
def side? (tag : Tag) (key : String) : Option ℤ :=
  match List.lookup key tag.style with
  | some (.word w) => w.toInt?
  | _ => none

/-- The offsets of a positioned element in the one around it. A relative element without sides stays where it is. -/
def offset? (tag : Tag) : Option (ℤ × ℤ) :=
  if "absolute" ∈ tag.classes then (tag.side? "left").bind fun x => (tag.side? "top").map fun y => (x, y)
  else if "relative" ∈ tag.classes ∧ ∀ key ∈ sides, List.lookup key tag.style = none then some 0
  else none

end Tag

/-- The offsets of the last of some elements that stand in one another, added up from the first one on. -/
def fromPage? (nest : List Tag) : Option (ℤ × ℤ) :=
  (nest.mapM Tag.offset?).map List.sum

section Classes

/-- True of classes that do not say how an element comes to its place. -/
private def Unplaced (classes : List String) : Prop :=
  ∀ name ∈ placementClasses, name ∉ classes

private instance (classes : List String) : Decidable (Unplaced classes) :=
  inferInstanceAs (Decidable (∀ name ∈ placementClasses, name ∉ classes))

private theorem unplaced_append {first second : List String} :
    Unplaced (first ++ second) ↔ Unplaced first ∧ Unplaced second := by
  simp only [Unplaced, List.mem_append, not_or, forall_and]

private theorem unplaced_rounded (radius : Option Float) : Unplaced (roundedClass radius) := by
  unfold roundedClass
  split <;> decide

private theorem unplaced_toList {α : Type} {name : α → String} (other : ∀ a, Unplaced [name a]) (a : Option α) :
    Unplaced (a.map name).toList := by
  cases a with
  | none => exact fun _ _ => List.not_mem_nil
  | some a => exact other a

/-- The classes of an element are those of its placement and others that do not place it. -/
theorem classes_tagOf (placement : Placement) {node : Node} (known : isKnown node = true) :
    ∃ others, (tagOf placement node).classes = placement.classes ++ others ∧
      ∀ name ∈ placementClasses, name ∉ others := by
  cases node with
  | container h kind children =>
    cases kind with
    | panel role a =>
      rw [classes_lookOf rfl, List.append_assoc]
      refine ⟨_, rfl, unplaced_append.mpr ⟨?_, unplaced_rounded _⟩⟩
      cases role <;> decide
    | stack a =>
      rw [classes_lookOf rfl, List.append_assoc, List.append_assoc]
      refine ⟨_, rfl, unplaced_append.mpr ⟨?_, unplaced_append.mpr ⟨?_, ?_⟩⟩⟩
      · cases a.direction <;> decide
      · exact unplaced_toList (by rintro (_ | _) <;> decide) _
      · exact unplaced_toList (by rintro (_ | _) <;> decide) _
    | grid a =>
      have other : ∀ name ∈ placementClasses, name.toList.head? ≠ some 'g' := by decide
      exact ⟨_, classes_lookOf rfl, fun name member => not_mem_gridClasses (other name member) _⟩
  | leaf h kind =>
    cases kind with
    | rect a => exact ⟨_, classes_lookOf rfl, unplaced_rounded _⟩
    | ellipse a => exact ⟨_, classes_lookOf rfl, by decide⟩
    | text a =>
      rw [classes_lookOf rfl, List.append_assoc, List.append_assoc]
      refine ⟨_, rfl, unplaced_append.mpr ⟨?_, unplaced_append.mpr ⟨?_, ?_⟩⟩⟩
      · split <;> decide
      · split <;> decide
      · exact unplaced_toList (by rintro (_ | _) <;> decide) _
    | image a =>
      rw [classes_image, List.append_assoc]
      refine ⟨_, rfl, unplaced_append.mpr ⟨?_, unplaced_rounded _⟩⟩
      exact unplaced_toList (by rintro (_ | _) <;> decide) _
    | line | path => exact ⟨_, classes_lookOf rfl, by decide⟩
    | unknown => cases known

end Classes

section Style

/-- True of a style that says nothing of where an element is or how large. -/
private def Still (style : Style) : Prop :=
  ∀ entry ∈ style, entry.1 ∉ boxKeys

private theorem still_append {first second : Style} : Still (first ++ second) ↔ Still first ∧ Still second :=
  List.forall_mem_append

private theorem still_background (paint : Option String) : Still (background paint) :=
  (keysIn_text _ _).apart (by decide)

private theorem still_border (stroke : Option String) (width : Option Float) : Still (border stroke width) :=
  (keysIn_border stroke width).apart (by decide)

private theorem still_corner (radius : Option Float) : Still (cornerEntry radius) :=
  (keysIn_number _ _).apart (by decide)

private theorem still_padding (padding : Option Padding) : Still (paddingEntry padding) :=
  (keysIn_padding padding).apart (by decide)

private theorem still_gap (gap : Option Float) : Still (numberEntry "gap" gap) :=
  (keysIn_number _ _).apart (by decide)

private theorem still_opacity (h : Header) : Still (opacityEntry h) :=
  (keysIn_number _ _).apart (by decide)

/-- The style of an element is the geometry of its node and what says nothing of it. -/
theorem style_tagOf (placement : Placement) {node : Node} (known : isKnown node = true) :
    ∃ others, (tagOf placement node).style = (geometry node.header placement ++ others).map Jsx.entryView ∧
      ∀ entry ∈ others, entry.1 ∉ boxKeys := by
  have of_form {name : String} {classes : List String} {whole : Style} (others : Style)
      (form : whole = geometry node.header placement ++ others) (still : Still others) :
      ∃ others, (tagView name (look classes whole)).style =
        (geometry node.header placement ++ others).map Jsx.entryView ∧ ∀ entry ∈ others, entry.1 ∉ boxKeys :=
    ⟨others, by rw [style_look, form], still⟩
  cases node with
  | container h kind children =>
    cases kind with
    | panel role a =>
      refine of_form _ (by simp only [List.append_assoc]; rfl) ?_
      simp only [still_append]
      exact ⟨still_background _, still_padding _, still_corner _, still_opacity h⟩
    | stack a | grid a =>
      refine of_form _ (by simp only [List.append_assoc]; rfl) ?_
      simp only [still_append]
      exact ⟨still_gap _, still_background _, still_padding _, still_opacity h⟩
  | leaf h kind =>
    cases kind with
    | rect a =>
      refine of_form _ (by simp only [List.append_assoc]; rfl) ?_
      simp only [still_append]
      exact ⟨still_background _, still_border _ _, still_corner _, still_opacity h⟩
    | ellipse a =>
      refine of_form _ (by simp only [List.append_assoc]; rfl) ?_
      simp only [still_append]
      exact ⟨still_background _, still_border _ _, still_opacity h⟩
    | text a =>
      refine of_form _ (by simp only [List.append_assoc]; rfl) ?_
      simp only [still_append]
      exact ⟨(keysIn_text _ _).apart (by decide), (keysIn_text _ _).apart (by decide),
        (keysIn_size a).apart (by decide), (keysIn_weight _).apart (by decide), still_opacity h⟩
    | image a =>
      refine ⟨_, by rw [style_image, List.append_assoc]; rfl, ?_⟩
      exact still_append.mpr ⟨still_corner _, still_opacity h⟩
    | line | path => exact of_form _ rfl (still_opacity h)
    | unknown => cases known

/-- Only the geometry of a node says where its element is and how large. -/
theorem lookup_tagOf (placement : Placement) {node : Node} (known : isKnown node = true) {key : String}
    (box : key ∈ boxKeys) :
    List.lookup key (tagOf placement node).style =
      List.lookup key ((geometry node.header placement).map Jsx.entryView) := by
  obtain ⟨others, style, still⟩ := style_tagOf placement known
  have none : List.lookup key (others.map Jsx.entryView) = none := by
    rw [List.lookup_eq_none_iff, List.forall_mem_map]
    intro entry member
    have other : key ≠ entry.1 := fun same => still entry member (same ▸ box)
    exact bne_iff_ne.mpr other
  rw [style, List.map_append, List.lookup_append, none, Option.or_none]

end Style

section Nesting

theorem offset?_root {node : Node} (known : isKnown node = true) : (tagOf .root node).offset? = some 0 := by
  obtain ⟨others, classes, still⟩ := classes_tagOf .root known
  have absolute : "absolute" ∉ (tagOf .root node).classes := by
    rw [classes, List.mem_append, not_or]
    exact ⟨by decide, still _ (by decide)⟩
  have relative : "relative" ∈ (tagOf .root node).classes := by
    rw [classes]
    exact List.mem_append_left _ (by decide)
  have unmoved : ∀ key ∈ sides, List.lookup key (tagOf .root node).style = none := by
    intro key side
    rw [lookup_tagOf .root known (List.mem_append_left _ side), geometry, if_neg (by decide)]
    have either : key = "left" ∨ key = "top" := by simpa [sides] using side
    rcases either with rfl | rfl <;> cases node.header.size <;> rfl
  rw [Tag.offset?, if_neg absolute, if_pos ⟨relative, unmoved⟩]

/-- The element of a node below a panel is where its position says, seen from the element around it. -/
theorem offset?_absolute {node : Node} (known : isKnown node = true) {own : ℤ × ℤ} (stands : node.StandsAt own) :
    (tagOf .absolute node).offset? = some own := by
  obtain ⟨others, classes, -⟩ := classes_tagOf .absolute known
  have absolute : "absolute" ∈ (tagOf .absolute node).classes := by
    rw [classes]
    exact List.mem_append_left _ (by decide)
  have left : (tagOf .absolute node).side? "left" = some own.1 := by
    rw [Tag.side?, lookup_tagOf .absolute known (by decide), geometry, if_pos rfl,
      ← Int.toInt?_repr own.1, ← stands.text_x]
    rfl
  have top : (tagOf .absolute node).side? "top" = some own.2 := by
    rw [Tag.side?, lookup_tagOf .absolute known (by decide), geometry, if_pos rfl,
      ← Int.toInt?_repr own.2, ← stands.text_y]
    rfl
  rw [Tag.offset?, if_pos absolute, left, top]
  rfl

theorem fromPage?_concat {nest : List Tag} {tag : Tag} {above own : ℤ × ℤ} (around : fromPage? nest = some above)
    (offset : tag.offset? = some own) : fromPage? (nest ++ [tag]) = some (above + own) := by
  obtain ⟨offsets, all, rfl⟩ := Option.map_eq_some_iff.mp around
  simp [fromPage?, List.mapM_append, all, offset, List.sum_append]

private theorem placementUnder_panel {node : Node} (panel : node.isPanel = true) :
    placementUnder (some node) = .absolute := by
  obtain ⟨h, role, a, children, rfl⟩ := Node.exists_of_isPanel panel
  rfl

private theorem isKnown_panel {node : Node} (panel : node.isPanel = true) : isKnown node = true := by
  obtain ⟨h, role, a, children, rfl⟩ := Node.exists_of_isPanel panel
  rfl

/-- Below panels, an element is as far from the page's corner as the positions of its node and of those above it add up
to. -/
theorem fromPage?_of_stands {root : Node} (origin : root.StandsAt 0) :
    ∀ t ∈ root.trails [] [], isKnown t.node = true → ∀ above own, t.Stands above own →
      fromPage? (nestOf t) = some (above.sum + own) := by
  refine Node.trails_induction ?_ ?_
  · intro known above own stands
    obtain rfl := List.forall₂_nil_left_iff.mp stands.positions
    obtain rfl := stands.own.unique origin
    have offset := offset?_root known
    simp [fromPage?, nestOf, Trail.way, tagsAlong, placementUnder, offset]
  · intro p member ih t later i address way known above own stands
    obtain ⟨before, last, rfl, parent, panel⟩ := stands.parent way
    have around := ih (isKnown_panel panel) before last parent
    have last_ : t.above.getLast? = some p.node := by
      rw [way, Trail.way, List.getLast?_concat]
    rw [nestOf_eq, last_, placementUnder_panel panel, way, List.sum_append, List.sum_singleton]
    exact fromPage?_concat around (offset?_absolute known stands.own)

end Nesting

/-- True of a component whose elements are at certain places: those of the nodes that stand somewhere below panels, at
what `place` makes of the positions above a node and its own. -/
def ShownAt (options : Options) (tree : Tree) (place : List (ℤ × ℤ) → ℤ × ℤ → ℤ × ℤ) : Prop :=
  List.Forall₂ (fun t nest => ∀ above own, t.Stands above own → fromPage? nest = some (place above own))
    ((tree.root.trails [] []).filter fun t => isKnown t.node) (Jsx.nestsOf (generate options tree))

theorem shownAt_iff (options : Options) {tree : Tree} (origin : tree.root.StandsAt 0)
    (place : List (ℤ × ℤ) → ℤ × ℤ → ℤ × ℤ) :
    ShownAt options tree place ↔ ∀ t ∈ tree.root.trails [] [], isKnown t.node = true →
      ∀ above own, t.Stands above own → place above own = above.sum + own := by
  rw [ShownAt, nestsOf_eq_map_trails, List.forall₂_map_right_iff, List.forall₂_same]
  constructor
  · intro shown t member known above own stands
    have seen := shown t (List.mem_filter.mpr ⟨member, known⟩) above own stands
    rw [fromPage?_of_stands origin t member known above own stands, Option.some.injEq] at seen
    exact seen.symm
  · intro equal t member above own stands
    obtain ⟨member, known⟩ := List.mem_filter.mp member
    rw [fromPage?_of_stands origin t member known above own stands, equal t member known above own stands]

end Handoff.React
