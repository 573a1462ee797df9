import Handoff.Design.Node

set_option autoImplicit false
set_option relaxedAutoImplicit false

/-!
Visiting the nodes of a design from the root down, a node before its children and these from left to right.

The walk keeps the nodes still to visit; `preorder` is the order that it visits them in.
-/

namespace Handoff.Design
namespace Node

mutual

/-- The number of nodes from a node down. -/
def size : Node → Nat
  | .leaf _ _ => 1
  | .container _ _ children => sizes children + 1

def sizes : List Node → Nat
  | [] => 0
  | node :: rest => size node + sizes rest

end

mutual

/-- A node, then those below it child by child. -/
def preorder : Node → List Node
  | .leaf header kind => [.leaf header kind]
  | .container header kind children => .container header kind children :: preorders children

def preorders : List Node → List Node
  | [] => []
  | node :: rest => preorder node ++ preorders rest

end

theorem sizes_append (xs ys : List Node) : sizes (xs ++ ys) = sizes xs + sizes ys := by
  induction xs with
  | nil => simp [sizes]
  | cons x xs ih => simp [sizes, ih, Nat.add_assoc]

theorem size_eq (node : Node) : size node = sizes node.children + 1 := by
  cases node <;> simp [size, sizes, children]

end Node

/-- The nodes still to visit, the next one first. -/
structure Walk where
  pending : List Node

namespace Walk

def start (node : Node) : Walk :=
  ⟨[node]⟩

/-- The next node, and the walk after it: its children come before all others. -/
def next? (walk : Walk) : Option (Node × Walk) :=
  match walk.pending with
  | [] => none
  | node :: rest => some (node, ⟨node.children ++ rest⟩)

theorem sizes_next {walk after : Walk} {node : Node} (h : walk.next? = some (node, after)) :
    Node.sizes after.pending < Node.sizes walk.pending := by
  unfold next? at h
  split at h
  · cases h
  · rename_i n rest hp
    cases h
    rw [hp, Node.sizes_append, Node.sizes, Node.size_eq]
    omega

/-- All the nodes that the walk visits. -/
def toList (walk : Walk) : List Node :=
  match _h : walk.next? with
  | none => []
  | some (node, after) => node :: after.toList
termination_by Node.sizes walk.pending
decreasing_by exact sizes_next _h

end Walk

namespace Node

/-- The nodes from a node down, in the order of visits. -/
def walk (node : Node) : List Node :=
  (Walk.start node).toList

end Node

namespace Tree

def nodeCount (tree : Tree) : Nat :=
  tree.root.walk.length

/-- The first node with an id. -/
def find? (tree : Tree) (id : String) : Option Node :=
  tree.root.walk.find? fun node => node.id == id

end Tree
end Handoff.Design
