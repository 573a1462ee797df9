import Handoff.Proofs.Design.Preorder

set_option autoImplicit false
set_option relaxedAutoImplicit false

/-!
A walk as a loop over a stack. It comes to its end, and it visits each node from the first one down once, in preorder.
-/

namespace Handoff.Design

/-- What comes off a stack of nodes until it is empty: each time the last node, after which its children are put on the
stack, the last child first. -/
inductive Unstacked : List Node → List Node → Prop
  | empty : Unstacked [] []
  | next {stack visits : List Node} {node : Node} (later : Unstacked (stack ++ node.children.reverse) visits) :
      Unstacked (stack ++ [node]) (node :: visits)

namespace Walk

/-- A walk that is still to visit the nodes of a stack. -/
def ofStack (stack : List Node) : Walk :=
  ⟨stack.reverse⟩

theorem next?_ofStack (stack : List Node) (node : Node) :
    (ofStack (stack ++ [node])).next? = some (node, ofStack (stack ++ node.children.reverse)) := by
  simp [ofStack, next?]

theorem toList_ofStack (stack : List Node) (node : Node) :
    (ofStack (stack ++ [node])).toList = node :: (ofStack (stack ++ node.children.reverse)).toList := by
  simp only [ofStack, List.reverse_append, List.reverse_singleton, List.singleton_append, List.reverse_reverse,
    toList_cons]

end Walk

/-- The loop over a stack comes to its end, with the visits of the walk and no others. -/
theorem unstacked_iff {stack visits : List Node} : Unstacked stack visits ↔ visits = (Walk.ofStack stack).toList := by
  constructor
  · intro run
    induction run with
    | empty => exact Walk.toList_nil.symm
    | next _ ih => rw [Walk.toList_ofStack, ih]
  · rintro rfl
    -- what is pending below all nodes of the stack gets less with each visit, though the stack may grow
    induction pending : Node.sizes (Walk.ofStack stack).pending using Nat.strongRecOn generalizing stack with
    | ind n ih =>
      subst pending
      rcases List.eq_nil_or_concat stack with rfl | ⟨rest, node, form⟩
      · rw [Walk.ofStack, List.reverse_nil, Walk.toList_nil]
        exact .empty
      · rw [List.concat_eq_append] at form
        subst form
        rw [Walk.toList_ofStack]
        exact .next (ih _ (Walk.sizes_next (Walk.next?_ofStack rest node)) rfl)

namespace Node

/-- The node at an address below a node: each place on the way is that of a child. -/
def atAddress? : Address → Node → Option Node
  | [], node => some node
  | place :: rest, node => (node.children[place]?).bind (atAddress? rest)

@[simp] theorem atAddress?_nil (node : Node) : node.atAddress? [] = some node := by
  rw [atAddress?]

@[simp] theorem atAddress?_cons (node : Node) (place : Nat) (rest : Address) :
    node.atAddress? (place :: rest) = (node.children[place]?).bind (atAddress? rest) := by
  rw [atAddress?]

mutual

/-- What is located from a node down are the nodes at the addresses below its own. -/
theorem mem_located_iff (address : Address) (node : Node) {a : Address} {found : Node} :
    (a, found) ∈ located address node ↔ ∃ way, a = address ++ way ∧ node.atAddress? way = some found := by
  constructor
  · intro member
    cases node with
    | leaf header kind =>
      cases List.mem_singleton.mp member
      exact ⟨[], (List.append_nil _).symm, atAddress?_nil _⟩
    | container header kind children =>
      rcases List.mem_cons.mp member with here | below
      · cases here
        exact ⟨[], (List.append_nil _).symm, atAddress?_nil _⟩
      · obtain ⟨i, way, rfl, leads⟩ := (mem_locatedAll_iff address 0 children).mp below
        exact ⟨i :: way, by rw [Nat.zero_add], by rw [atAddress?_cons, ← leads]; rfl⟩
  · rintro ⟨way, rfl, leads⟩
    cases way with
    | nil =>
      obtain rfl := Option.some.inj ((atAddress?_nil node).symm.trans leads)
      rw [List.append_nil]
      cases node <;> exact List.mem_cons_self
    | cons i way =>
      rw [atAddress?_cons] at leads
      cases node with
      | leaf header kind => cases leads
      | container header kind children =>
        refine List.mem_cons_of_mem _ ((mem_locatedAll_iff address 0 children).mpr ⟨i, way, ?_, leads⟩)
        rw [Nat.zero_add]

theorem mem_locatedAll_iff (above : Address) (place : Nat) (nodes : List Node) {a : Address} {found : Node} :
    (a, found) ∈ locatedAll above place nodes ↔
      ∃ i way, a = above ++ (place + i) :: way ∧ (nodes[i]?).bind (atAddress? way) = some found := by
  cases nodes with
  | nil => simp [locatedAll]
  | cons node rest =>
    rw [locatedAll, List.mem_append, mem_located_iff, mem_locatedAll_iff]
    constructor
    · rintro (⟨way, rfl, leads⟩ | ⟨i, way, rfl, leads⟩)
      · exact ⟨0, way, by simp, leads⟩
      · exact ⟨i + 1, way, by rw [Nat.add_assoc, Nat.add_comm 1 i], leads⟩
    · rintro ⟨i, way, rfl, leads⟩
      cases i with
      | zero => exact .inl ⟨way, by simp, leads⟩
      | succ i => exact .inr ⟨i, way, by rw [Nat.add_assoc, Nat.add_comm 1 i], leads⟩

end

mutual

theorem length_preorder (node : Node) : node.preorder.length = node.size := by
  cases node with
  | leaf header kind => rfl
  | container header kind children => rw [preorder, List.length_cons, length_preorders, size]

theorem length_preorders (nodes : List Node) : (preorders nodes).length = sizes nodes := by
  cases nodes with
  | nil => rfl
  | cons node rest => rw [preorders, List.length_append, length_preorder, length_preorders, sizes]

end

/-- Visits of nodes from a node down, each at the address of the visited node: no address twice, all that there are, and
in ascending order, so that a node comes before those below it and these come from left to right. -/
structure VisitsAll (node : Node) (addresses : List Address) (visits : List Node) : Prop where
  distinct : addresses.Nodup
  complete : ∀ address, address ∈ addresses ↔ (node.atAddress? address).isSome = true
  visited : addresses.map (atAddress? · node) = visits.map some
  ascending : addresses.Pairwise (· < ·)

theorem visitsAll_preorder (node : Node) : VisitsAll node ((located [] node).map Prod.fst) node.preorder where
  distinct := nodup_located [] node
  complete address := by
    rw [Option.isSome_iff_exists]
    constructor
    · intro member
      obtain ⟨⟨_, found⟩, there, rfl⟩ := List.mem_map.mp member
      obtain ⟨way, rfl, leads⟩ := (mem_located_iff [] node).mp there
      exact ⟨found, leads⟩
    · rintro ⟨found, leads⟩
      exact List.mem_map_of_mem ((mem_located_iff [] node).mpr ⟨address, rfl, leads⟩)
  visited := by
    rw [← map_snd_located [] node, List.map_map, List.map_map]
    refine List.map_congr_left ?_
    rintro ⟨_, found⟩ member
    obtain ⟨way, rfl, leads⟩ := (mem_located_iff [] node).mp member
    exact leads
  ascending := ascending_located [] node

theorem mem_preorder_iff (node : Node) {found : Node} :
    found ∈ node.preorder ↔ ∃ address, node.atAddress? address = some found := by
  rw [← map_snd_located [] node, List.mem_map]
  constructor
  · rintro ⟨⟨_, _⟩, member, rfl⟩
    obtain ⟨address, -, leads⟩ := (mem_located_iff [] node).mp member
    exact ⟨address, leads⟩
  · rintro ⟨address, leads⟩
    exact ⟨(address, found), (mem_located_iff [] node).mpr ⟨address, rfl, leads⟩, rfl⟩

end Node

namespace Tree

theorem find?_eq_some_iff (tree : Tree) (id : String) (node : Node) :
    tree.find? id = some node ↔ node.id = id ∧
      ∃ before after, tree.root.preorder = before ++ node :: after ∧ ∀ other ∈ before, other.id ≠ id := by
  rw [find?, Node.walk_eq_preorder, List.find?_eq_some_iff_append]
  simp

theorem find?_eq_none_iff (tree : Tree) (id : String) :
    tree.find? id = none ↔ ∀ address node, tree.root.atAddress? address = some node → node.id ≠ id := by
  rw [find?, Node.walk_eq_preorder, List.find?_eq_none]
  simp only [Node.mem_preorder_iff, beq_iff_eq]
  constructor
  · intro none address node leads
    exact none node ⟨address, leads⟩
  · rintro none node ⟨address, leads⟩
    exact none address node leads

end Tree

/-- Walks. From every node down, the loop over a stack that holds just this node at first comes to its end, with the
visits of the walk and no others. They are in preorder, and there is one for each address below the node. So a tree has
as many nodes as its walk has visits, and what is found by an id is the first node in preorder that has it, if there is
one anywhere in the tree. -/
theorem walk_visits :
    (∀ node : Node, (∀ visits, Unstacked [node] visits ↔ visits = node.walk) ∧ node.walk = node.preorder ∧
      ∃ addresses, node.VisitsAll addresses node.walk) ∧
    ∀ tree : Tree, tree.nodeCount = tree.root.size ∧ ∀ id,
      (∀ node, tree.find? id = some node ↔ node.id = id ∧
        ∃ before after, tree.root.preorder = before ++ node :: after ∧ ∀ other ∈ before, other.id ≠ id) ∧
      (tree.find? id = none ↔ ∀ address node, tree.root.atAddress? address = some node → node.id ≠ id) := by
  refine ⟨fun node => ⟨fun visits => unstacked_iff, node.walk_eq_preorder, ?_⟩, fun tree => ⟨?_, fun id => ?_⟩⟩
  · rw [node.walk_eq_preorder]
    exact ⟨_, node.visitsAll_preorder⟩
  · rw [Tree.nodeCount, Node.walk_eq_preorder, Node.length_preorder]
  · exact ⟨tree.find?_eq_some_iff id, tree.find?_eq_none_iff id⟩

end Handoff.Design
