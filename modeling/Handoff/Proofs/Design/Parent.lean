import Handoff.Proofs.Design.Position

set_option autoImplicit false
set_option relaxedAutoImplicit false

/-!
The node right above another one, its parent, and the place that a node has among the parent's children.
-/

namespace Handoff.Design

def Node.isStack : Node → Bool
  | .container _ (.stack _) _ => true
  | _ => false

def Node.isGrid : Node → Bool
  | .container _ (.grid _) _ => true
  | _ => false

namespace Trail

/-- The node right above the last one of a trail. The root has none. -/
def parent? (t : Trail) : Option Node :=
  t.above.getLast?

/-- True of a trail that ends with the child that a node has at a place. -/
structure IsChild (t : Trail) (parent : Node) (place : Nat) : Prop where
  held : t.parent? = some parent
  address : t.address.getLast? = some place
  child : parent.children[place]? = some t.node

variable {t : Trail}

theorem IsChild.kinds {parent : Node} {place : Nat} (h : t.IsChild parent place) :
    parent.isPanel = true ∨ parent.isStack = true ∨ parent.isGrid = true := by
  cases parent with
  | leaf header kind => cases h.child
  | container header kind children =>
    cases kind with
    | panel role a => exact .inl rfl
    | stack a => exact .inr (.inl rfl)
    | grid a => exact .inr (.inr rfl)

end Trail

namespace Node

mutual

/-- A trail is the first one, or ends with a child of the node right above. -/
theorem start_or_child_of_mem_trails (above : List Node) (address : Address) (node : Node) :
    ∀ t ∈ trails above address node, t = ⟨address, above, node⟩ ∨ ∃ parent place, t.IsChild parent place := by
  intro t member
  cases node with
  | leaf header kind => exact .inl (List.mem_singleton.mp member)
  | container header kind children =>
    rcases List.mem_cons.mp member with first | below
    · exact .inl first
    · exact .inr (child_of_mem_trailsAll _ address (.container header kind children) List.getLast?_concat 0 children
        List.drop_zero t below)

/-- The trails below the children of a node that are from a place on. -/
theorem child_of_mem_trailsAll (above : List Node) (address : Address) (parent : Node)
    (last : above.getLast? = some parent) (place : Nat) (nodes : List Node)
    (children : parent.children.drop place = nodes) :
    ∀ t ∈ trailsAll above address place nodes, ∃ parent place, t.IsChild parent place := by
  intro t member
  cases nodes with
  | nil => exact absurd member List.not_mem_nil
  | cons node rest =>
    rcases List.mem_append.mp member with here | later
    · rcases start_or_child_of_mem_trails above (address ++ [place]) node t here with rfl | below
      · have child : parent.children[place]? = some node := by
          rw [← List.head?_drop, children, List.head?_cons]
        exact ⟨parent, place, last, List.getLast?_concat, child⟩
      · exact below
    · have after : parent.children.drop (place + 1) = rest := by
        rw [← List.tail_drop, children, List.tail_cons]
      exact child_of_mem_trailsAll above address parent last (place + 1) rest after t later

end

/-- Below the root, every node is a child of the one right above it. -/
theorem exists_isChild {root : Node} {t : Trail} (member : t ∈ trails [] [] root) {parent : Node}
    (held : t.parent? = some parent) : ∃ place, t.IsChild parent place := by
  rcases start_or_child_of_mem_trails [] [] root t member with rfl | ⟨other, place, child⟩
  · cases held
  · obtain rfl := Option.some.inj (held.symm.trans child.held)
    exact ⟨place, child⟩

end Node

end Handoff.Design
