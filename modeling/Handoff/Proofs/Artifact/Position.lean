import Handoff.Proofs.React.Offsets
import Handoff.Proofs.Roblox.Offsets

set_option autoImplicit false
set_option relaxedAutoImplicit false

/-!
Where the outputs of a design put its nodes.

The positions in a design are absolute. Both outputs give them as they are, though, to elements and instances that are
placed within the one of the node above: what is seen of a node is its position with those of all panels above added.
-/

namespace Handoff
open Design

private theorem isKnown_of_drawn {node : Node} (drawn : (Roblox.mainClass? node).isSome = true) :
    React.isKnown node = true := by
  cases node with
  | container h kind children => rfl
  | leaf h kind =>
    cases kind with
    | rect | ellipse | text | image => rfl
    | line | path | unknown => cases drawn

/-- Below panels, both outputs put a node where the positions above it and its own add up to. They put all nodes where
they are in the design only if the positions above each of them add up to nothing. -/
theorem positions_add_up (react : React.Options) (roblox : Roblox.Options) (tree : Tree)
    (origin : tree.root.StandsAt 0) :
    (React.ShownAt react tree (fun above own => above.sum + own) ∧
      Roblox.ShownAt roblox tree (fun above own => above.sum + own)) ∧
    ((React.ShownAt react tree (fun _ own => own) ∧ Roblox.ShownAt roblox tree (fun _ own => own)) ↔
      ∀ t ∈ tree.root.trails [] [], React.isKnown t.node = true → ∀ above own, t.Stands above own → above.sum = 0) := by
  have component := React.shownAt_iff react origin
  have script := Roblox.shownAt_iff roblox tree
  refine ⟨⟨(component _).mpr fun _ _ _ _ _ _ => rfl, (script _).mpr fun _ _ _ _ _ _ => rfl⟩, ?_, ?_⟩
  · rintro ⟨shown, -⟩ t member known above own stands
    exact add_eq_right.mp ((component _).mp shown t member known above own stands).symm
  · intro zero
    have equal (t : Trail) (member : t ∈ tree.root.trails [] []) (known : React.isKnown t.node = true)
        (above : List (ℤ × ℤ)) (own : ℤ × ℤ) (stands : t.Stands above own) : own = above.sum + own := by
      rw [zero t member known above own stands, zero_add]
    exact ⟨(component _).mpr equal, (script _).mpr fun t member drawn => equal t member (isKnown_of_drawn drawn)⟩

section Nested

private def headerAt (id : String) (x y width height : ℤ) : Header :=
  { id, position := some ⟨Json.wholeFloat x, Json.wholeFloat y⟩,
    size := some ⟨Json.wholeFloat width, Json.wholeFloat height⟩ }

private def nestedPanel : Node :=
  .container (headerAt "panel" 100 50 200 100) (.panel .frame {}) [.leaf (headerAt "rect" 120 70 40 20) (.rect {})]

/-- A rectangle in a panel that is not at the origin. -/
def nested : Tree :=
  { root := .container (headerAt "root" 0 0 400 300) (.panel .frame {}) [nestedPanel] }

/-- The way to the rectangle. -/
def nestedRect : Trail :=
  { address := [0, 0], above := [nested.root, nestedPanel], node := .leaf (headerAt "rect" 120 70 40 20) (.rect {}) }

private theorem standsAt_header {node : Node} {id : String} {position : ℤ × ℤ} {width height : ℤ}
    (header : node.header = headerAt id position.1 position.2 width height) (x : IsModerate position.1)
    (y : IsModerate position.2) : node.StandsAt position := by
  have short {n : ℤ} (moderate : IsModerate n) : n.natAbs < 2 ^ 53 := by
    unfold IsModerate at moderate
    omega
  refine ⟨?_, ?_, x, y⟩
  · rw [header]
    exact isWhole_wholeFloat (short x)
  · rw [header]
    exact isWhole_wholeFloat (short y)

theorem nested_origin : nested.root.StandsAt 0 :=
  standsAt_header rfl (by unfold IsModerate; decide) (by unfold IsModerate; decide)

theorem nestedRect_mem : nestedRect ∈ nested.root.trails [] [] :=
  List.mem_cons_of_mem _ (List.mem_cons_of_mem _ List.mem_cons_self)

theorem nestedRect_stands : nestedRect.Stands [(0, 0), (100, 50)] (120, 70) := by
  refine ⟨?_, .cons nested_origin (.cons (standsAt_header rfl ?_ ?_) .nil), standsAt_header rfl ?_ ?_⟩
  · simp [nestedRect, nested, nestedPanel, Node.isPanel]
  all_goals
    unfold IsModerate
    decide

/-- In both outputs the rectangle is at (220, 120). -/
theorem positions_add_up_nested :
    nested.root.StandsAt 0 ∧ nestedRect ∈ nested.root.trails [] [] ∧
      nestedRect.Stands [(0, 0), (100, 50)] (120, 70) ∧
      ([(0, 0), (100, 50)] : List (ℤ × ℤ)).sum + (120, 70) = (220, 120) ∧
      React.ShownAt {} nested (fun above own => above.sum + own) ∧
      Roblox.ShownAt {} nested (fun above own => above.sum + own) :=
  ⟨nested_origin, nestedRect_mem, nestedRect_stands, rfl, (positions_add_up {} {} nested nested_origin).1⟩

/-- Neither output has the rectangle where the design has it, at (120, 70). -/
theorem not_shownAt_nested :
    ¬ React.ShownAt {} nested (fun _ own => own) ∧ ¬ Roblox.ShownAt {} nested (fun _ own => own) := by
  constructor
  · intro shown
    have seen := (React.shownAt_iff {} nested_origin _).mp shown nestedRect nestedRect_mem rfl _ _ nestedRect_stands
    revert seen
    decide
  · intro shown
    have seen := (Roblox.shownAt_iff {} nested _).mp shown nestedRect nestedRect_mem rfl _ _ nestedRect_stands
    revert seen
    decide

end Nested

end Handoff
