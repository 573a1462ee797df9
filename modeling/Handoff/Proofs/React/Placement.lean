import Handoff.Proofs.Design.Parent
import Handoff.Proofs.React.Offsets

set_option autoImplicit false
set_option relaxedAutoImplicit false

/-!
How the elements of a component come to their places.

What decides is the node right above an element's own: the root's element stays where it is and holds those below it,
elements below panels are at their positions, and stacks and grids place theirs themselves.
-/

namespace Handoff.React
open Design

namespace Tag

/-- True of an element that nothing moves from its place. -/
def Unmoved (tag : Tag) : Prop :=
  ∀ key ∈ sides, List.lookup key tag.style = none

/-- True of an element that is moved to a position. -/
def MovedTo (tag : Tag) (position : Point) : Prop :=
  List.lookup "left" tag.style = some (.word (pixelText position.x)) ∧
    List.lookup "top" tag.style = some (.word (pixelText position.y))

end Tag

/-- True of an element that comes to its place as the node above its own says, and is as large as its own node. -/
structure PlacedUnder (parent : Option Node) (node : Node) (tag : Tag) : Prop where
  apart : "relative" ∈ tag.classes → "absolute" ∉ tag.classes
  relative : "relative" ∈ tag.classes ∧ tag.Unmoved ↔ parent = none
  absolute : "absolute" ∈ tag.classes ∧ tag.MovedTo node.header.positionOrOrigin ↔ ∃ p ∈ parent, p.isPanel = true
  flow : "relative" ∉ tag.classes ∧ "absolute" ∉ tag.classes ∧ tag.Unmoved ↔
    ∃ p ∈ parent, p.isStack = true ∨ p.isGrid = true
  width : List.lookup "width" tag.style = node.header.size.map fun size => .word (pixelText size.width)
  height : List.lookup "height" tag.style = node.header.size.map fun size => .word (pixelText size.height)

section Parents

variable {parent : Option Node}

theorem placementUnder_eq_root : placementUnder parent = .root ↔ parent = none := by
  match parent with
  | none => exact iff_of_true rfl rfl
  | some (.leaf _ _) => exact iff_of_false nofun nofun
  | some (.container _ kind _) => cases kind <;> exact iff_of_false nofun nofun

theorem placementUnder_eq_absolute : placementUnder parent = .absolute ↔ ∃ p ∈ parent, p.isPanel = true := by
  match parent with
  | none => simp [placementUnder]
  | some (.leaf _ _) => simp [placementUnder, Node.isPanel]
  | some (.container _ kind _) => cases kind <;> simp [placementUnder, childPlacement, Node.isPanel]

theorem placementUnder_eq_flow
    (kinds : ∀ p ∈ parent, p.isPanel = true ∨ p.isStack = true ∨ p.isGrid = true) :
    placementUnder parent = .flow ↔ ∃ p ∈ parent, p.isStack = true ∨ p.isGrid = true := by
  match parent with
  | none => simp [placementUnder]
  | some (.leaf h kind) =>
    have holds := kinds (.leaf h kind) rfl
    simp [Node.isPanel, Node.isStack, Node.isGrid] at holds
  | some (.container _ kind _) => cases kind <;> simp [placementUnder, childPlacement, Node.isStack, Node.isGrid]

end Parents

section Elements

theorem Placement.relative_mem_classes {placement : Placement} :
    "relative" ∈ placement.classes ↔ placement = .root := by
  cases placement <;> decide

theorem Placement.absolute_mem_classes {placement : Placement} :
    "absolute" ∈ placement.classes ↔ placement = .absolute := by
  cases placement <;> decide

variable (placement : Placement) {node : Node}

theorem mem_classes_tagOf (known : isKnown node = true) {name : String} (placed : name ∈ placementClasses) :
    name ∈ (tagOf placement node).classes ↔ name ∈ placement.classes := by
  obtain ⟨others, classes, unplaced⟩ := classes_tagOf placement known
  rw [classes, List.mem_append, or_iff_left (unplaced name placed)]

theorem unmoved_tagOf (known : isKnown node = true) (other : placement ≠ .absolute) :
    (tagOf placement node).Unmoved := by
  intro key side
  rw [lookup_tagOf placement known (List.mem_append_left _ side), geometry, if_neg other]
  have either : key = "left" ∨ key = "top" := by simpa [sides] using side
  rcases either with rfl | rfl <;> cases node.header.size <;> rfl

theorem movedTo_tagOf (known : isKnown node = true) :
    (tagOf .absolute node).MovedTo node.header.positionOrOrigin := by
  constructor
  all_goals
    rw [lookup_tagOf .absolute known (by decide), geometry, if_pos rfl]
    rfl

theorem size_tagOf (known : isKnown node = true) :
    List.lookup "width" (tagOf placement node).style =
        node.header.size.map (fun size => .word (pixelText size.width)) ∧
      List.lookup "height" (tagOf placement node).style =
        node.header.size.map (fun size => .word (pixelText size.height)) := by
  constructor
  all_goals
    rw [lookup_tagOf placement known (by decide), geometry]
    cases node.header.size <;> split <;> rfl

/-- The element of a node has what its place below another node asks for. -/
theorem placedUnder_tagOf (known : isKnown node = true) {parent : Option Node}
    (kinds : ∀ p ∈ parent, p.isPanel = true ∨ p.isStack = true ∨ p.isGrid = true) :
    PlacedUnder parent node (tagOf (placementUnder parent) node) := by
  have relative := mem_classes_tagOf (placementUnder parent) known (show "relative" ∈ placementClasses by decide)
  have absolute := mem_classes_tagOf (placementUnder parent) known (show "absolute" ∈ placementClasses by decide)
  rw [Placement.relative_mem_classes] at relative
  rw [Placement.absolute_mem_classes] at absolute
  have unmoved := unmoved_tagOf (placementUnder parent) known
  have moved : placementUnder parent = .absolute →
      (tagOf (placementUnder parent) node).MovedTo node.header.positionOrOrigin := by
    intro same
    rw [same]
    exact movedTo_tagOf known
  obtain ⟨width, height⟩ := size_tagOf (placementUnder parent) known
  refine ⟨?_, ?_, ?_, ?_, width, height⟩
  · rw [relative, absolute]
    exact fun root => by rw [root]; nofun
  · rw [relative, ← placementUnder_eq_root]
    exact ⟨And.left, fun root => ⟨root, unmoved (by rw [root]; nofun)⟩⟩
  · rw [absolute, ← placementUnder_eq_absolute]
    exact ⟨And.left, fun absolute => ⟨absolute, moved absolute⟩⟩
  · rw [relative, absolute, ← placementUnder_eq_flow kinds]
    constructor
    · rintro ⟨root, absolute, -⟩
      cases placement : placementUnder parent with
      | root => exact absurd placement root
      | absolute => exact absurd placement absolute
      | flow => rfl
    · intro flow
      exact ⟨by rw [flow]; nofun, by rw [flow]; nofun, unmoved (by rw [flow]; nofun)⟩

end Elements

/-- Every element of a component comes to its place as the node above its own says. -/
theorem placedUnder_generate (options : Options) (tree : Tree) :
    List.Forall₂ (fun t nest => ∃ tag ∈ nest.getLast?, PlacedUnder t.parent? t.node tag)
      ((tree.root.trails [] []).filter fun t => isKnown t.node) (Jsx.nestsOf (generate options tree)) := by
  rw [nestsOf_eq_map_trails, List.forall₂_map_right_iff, List.forall₂_same]
  intro t member
  obtain ⟨member, known⟩ := List.mem_filter.mp member
  have kinds : ∀ p ∈ t.parent?, p.isPanel = true ∨ p.isStack = true ∨ p.isGrid = true := by
    intro p held
    obtain ⟨place, child⟩ := Node.exists_isChild member held
    exact child.kinds
  refine ⟨_, ?_, placedUnder_tagOf known kinds⟩
  rw [nestOf_eq, List.getLast?_concat]
  rfl

end Handoff.React
