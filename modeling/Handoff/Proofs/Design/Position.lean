import Mathlib.Data.List.Forall2
import Handoff.Proofs.Decimal.WholeText
import Handoff.Proofs.Design.Preorder

set_option autoImplicit false
set_option relaxedAutoImplicit false

/-!
Nodes whose positions are whole numbers, along the way from the root.
-/

namespace Handoff.Design

/-- True of the containers that leave their children where they are. -/
def Node.isPanel : Node → Bool
  | .container _ (.panel _ _) _ => true
  | _ => false

theorem Node.exists_of_isPanel {node : Node} (panel : node.isPanel = true) :
    ∃ h role a children, node = .container h (.panel role a) children := by
  cases node with
  | leaf h kind => cases panel
  | container h kind children =>
    cases kind with
    | panel role a => exact ⟨h, role, a, children, rfl⟩
    | stack a | grid a => cases panel

/-- True of a node whose position is in whole numbers of moderate size. A node without a position is at the origin. -/
structure Node.StandsAt (node : Node) (position : ℤ × ℤ) : Prop where
  x : IsWhole node.header.positionOrOrigin.x position.1
  y : IsWhole node.header.positionOrOrigin.y position.2
  moderate_x : IsModerate position.1
  moderate_y : IsModerate position.2

/-- True of a node at `own` below panels at `above`, the root's position first. -/
structure Trail.Stands (t : Trail) (above : List (ℤ × ℤ)) (own : ℤ × ℤ) : Prop where
  panels : ∀ node ∈ t.above, node.isPanel = true
  positions : List.Forall₂ Node.StandsAt t.above above
  own : t.node.StandsAt own

theorem Node.StandsAt.unique {node : Node} {first second : ℤ × ℤ} (h : node.StandsAt first)
    (h' : node.StandsAt second) : first = second :=
  Prod.ext (h.x.unique h'.x) (h.y.unique h'.y)

theorem Node.StandsAt.text_x {node : Node} {position : ℤ × ℤ} (h : node.StandsAt position) :
    pixelText node.header.positionOrOrigin.x = position.1.repr :=
  pixelText_whole h.x h.moderate_x

theorem Node.StandsAt.text_y {node : Node} {position : ℤ × ℤ} (h : node.StandsAt position) :
    pixelText node.header.positionOrOrigin.y = position.2.repr :=
  pixelText_whole h.y h.moderate_y

private theorem forall₂_concat {α β : Type} {R : α → β → Prop} {as : List α} {a : α} {bs : List β}
    (all : List.Forall₂ R (as ++ [a]) bs) :
    ∃ before last, bs = before ++ [last] ∧ List.Forall₂ R as before ∧ R a last := by
  induction as generalizing bs with
  | nil =>
    obtain ⟨b, rest, own, none, rfl⟩ := List.forall₂_cons_left_iff.mp all
    obtain rfl := List.forall₂_nil_left_iff.mp none
    exact ⟨[], b, rfl, .nil, own⟩
  | cons first as ih =>
    obtain ⟨b, rest, own, others, rfl⟩ := List.forall₂_cons_left_iff.mp all
    obtain ⟨before, last, rfl, held, ends⟩ := ih others
    exact ⟨b :: before, last, rfl, .cons own held, ends⟩

namespace Trail.Stands

variable {t p : Trail} {above : List (ℤ × ℤ)} {own : ℤ × ℤ}

/-- Above a node there are the panel that holds it and those above that. -/
theorem parent (h : t.Stands above own) (way : t.above = p.way) :
    ∃ before last, above = before ++ [last] ∧ p.Stands before last ∧ p.node.isPanel = true := by
  obtain ⟨panels, positions, -⟩ := h
  rw [way] at panels positions
  obtain ⟨before, last, rfl, held, ends⟩ := forall₂_concat positions
  obtain ⟨higher, panel⟩ := List.forall_mem_append.mp panels
  exact ⟨before, last, rfl, ⟨higher, held, ends⟩, panel _ (List.mem_singleton_self _)⟩

end Trail.Stands

end Handoff.Design
