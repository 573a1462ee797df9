import Handoff.Design.Walk

set_option autoImplicit false
set_option relaxedAutoImplicit false

/-!
The walk visits the nodes in preorder, and each node has an address: the places of the children on the way to it.
-/

namespace Handoff.Design

namespace Node

theorem preorder_eq (node : Node) : node.preorder = node :: preorders node.children := by
  cases node with
  | leaf header kind => simp [preorder, preorders, children]
  | container header kind below => simp [preorder, children]

theorem preorders_append (xs ys : List Node) :
    preorders (xs ++ ys) = preorders xs ++ preorders ys := by
  induction xs with
  | nil => rfl
  | cons node rest ih => simp only [List.cons_append, preorders, ih, List.append_assoc]

end Node

@[simp] theorem Walk.toList_nil : Walk.toList ⟨[]⟩ = [] := by
  rw [Walk.toList]
  rfl

/-- A walk visits the first of its nodes, and then goes on with the children of that one before all others. -/
theorem Walk.toList_cons (node : Node) (rest : List Node) :
    Walk.toList ⟨node :: rest⟩ = node :: Walk.toList ⟨node.children ++ rest⟩ := by
  rw [Walk.toList]
  rfl

/-- A walk visits what is pending node by node, each with all that is below it. -/
theorem Walk.toList_eq (walk : Walk) : walk.toList = Node.preorders walk.pending := by
  obtain ⟨pending⟩ := walk
  induction h : Node.sizes pending using Nat.strongRecOn generalizing pending with
  | ind n ih =>
    subst h
    cases pending with
    | nil => exact Walk.toList_nil
    | cons node rest =>
      have step : Walk.next? ⟨node :: rest⟩ = some (node, ⟨node.children ++ rest⟩) := rfl
      have visits := ih _ (Walk.sizes_next step) (node.children ++ rest) rfl
      rw [Walk.toList_cons, visits, Node.preorders_append, Node.preorders, Node.preorder_eq, List.cons_append]

namespace Node

theorem walk_eq_preorder (node : Node) : node.walk = node.preorder := by
  rw [walk, Walk.toList_eq]
  simp [Walk.start, preorders]

end Node

/-- The way from the root to a node: the place of a child at each step. -/
abbrev Address := List Nat

namespace Node

mutual

/-- The nodes from a node down with their addresses, in the order of visits. -/
def located (address : Address) : Node → List (Address × Node)
  | .leaf header kind => [(address, .leaf header kind)]
  | .container header kind children =>
    (address, .container header kind children) :: locatedAll address 0 children

/-- The nodes from siblings down; the first sibling stands at a place below an address. -/
def locatedAll (above : Address) (place : Nat) : List Node → List (Address × Node)
  | [] => []
  | node :: rest => located (above ++ [place]) node ++ locatedAll above (place + 1) rest

end

mutual

theorem map_snd_located (address : Address) (node : Node) :
    (located address node).map Prod.snd = node.preorder := by
  cases node with
  | leaf header kind => rfl
  | container header kind children =>
    simp only [located, preorder, List.map_cons, map_snd_locatedAll]

theorem map_snd_locatedAll (above : Address) (place : Nat) (nodes : List Node) :
    (locatedAll above place nodes).map Prod.snd = preorders nodes := by
  cases nodes with
  | nil => rfl
  | cons node rest =>
    simp only [locatedAll, preorders, List.map_append, map_snd_located, map_snd_locatedAll]

end

mutual

theorem prefix_of_mem_located (address : Address) (node : Node) :
    ∀ entry ∈ located address node, address <+: entry.1 := by
  intro entry member
  cases node with
  | leaf header kind =>
    obtain rfl := List.mem_singleton.mp member
    exact List.prefix_refl _
  | container header kind children =>
    rcases List.mem_cons.mp member with rfl | member
    · exact List.prefix_refl _
    · obtain ⟨i, -, below⟩ := prefix_of_mem_locatedAll address 0 children entry member
      exact (List.prefix_append address [i]).trans below

theorem prefix_of_mem_locatedAll (above : Address) (place : Nat) (nodes : List Node) :
    ∀ entry ∈ locatedAll above place nodes, ∃ i, place ≤ i ∧ above ++ [i] <+: entry.1 := by
  intro entry member
  cases nodes with
  | nil => exact absurd member List.not_mem_nil
  | cons node rest =>
    rcases List.mem_append.mp member with member | member
    · exact ⟨place, Nat.le_refl place, prefix_of_mem_located _ node entry member⟩
    · obtain ⟨i, le, below⟩ := prefix_of_mem_locatedAll above (place + 1) rest entry member
      exact ⟨i, Nat.le_of_succ_le le, below⟩

end

private theorem lt_of_prefix {above a b : Address} {i j : Nat} (less : i < j) (ha : above ++ [i] <+: a)
    (hb : above ++ [j] <+: b) : a < b := by
  obtain ⟨s, rfl⟩ := ha
  obtain ⟨t, rfl⟩ := hb
  rw [List.append_assoc, List.append_assoc]
  exact List.append_left_lt (List.cons_lt_cons_iff.mpr (.inl less))

private theorem lt_of_below {above a : Address} {i : Nat} (h : above ++ [i] <+: a) : above < a := by
  obtain ⟨s, rfl⟩ := h
  have less : above ++ [] < above ++ i :: s := List.append_left_lt (List.nil_lt_cons i s)
  rwa [List.append_nil, List.append_cons] at less

mutual

theorem ascending_located (address : Address) (node : Node) :
    ((located address node).map Prod.fst).Pairwise (· < ·) := by
  cases node with
  | leaf header kind => simp [located]
  | container header kind children =>
    rw [located, List.map_cons, List.pairwise_cons]
    refine ⟨?_, ascending_locatedAll address 0 children⟩
    intro a member
    obtain ⟨entry, below, rfl⟩ := List.mem_map.mp member
    obtain ⟨i, -, way⟩ := prefix_of_mem_locatedAll address 0 children entry below
    exact lt_of_below way

theorem ascending_locatedAll (above : Address) (place : Nat) (nodes : List Node) :
    ((locatedAll above place nodes).map Prod.fst).Pairwise (· < ·) := by
  cases nodes with
  | nil => simp [locatedAll]
  | cons node rest =>
    rw [locatedAll, List.map_append, List.pairwise_append]
    refine ⟨ascending_located _ node, ascending_locatedAll above (place + 1) rest, ?_⟩
    intro a ha b hb
    obtain ⟨entry, here, rfl⟩ := List.mem_map.mp ha
    obtain ⟨other, there, rfl⟩ := List.mem_map.mp hb
    obtain ⟨i, le, way⟩ := prefix_of_mem_locatedAll above (place + 1) rest other there
    exact lt_of_prefix le (prefix_of_mem_located _ node entry here) way

end

theorem nodup_located (address : Address) (node : Node) : ((located address node).map Prod.fst).Nodup := by
  refine (ascending_located address node).imp ?_
  rintro a _ less rfl
  exact List.lt_irrefl a less

end Node

/-- A node with its address and the nodes above it, the root first. -/
structure Trail where
  address : Address
  above : List Node
  node : Node

def Trail.way (t : Trail) : List Node :=
  t.above ++ [t.node]

namespace Node

mutual

/-- The nodes from a node down in the order of visits, each with those above it. -/
def trails (above : List Node) (address : Address) : Node → List Trail
  | .leaf header kind => [⟨address, above, .leaf header kind⟩]
  | .container header kind children =>
    ⟨address, above, .container header kind children⟩
      :: trailsAll (above ++ [.container header kind children]) address 0 children

def trailsAll (above : List Node) (address : Address) (place : Nat) : List Node → List Trail
  | [] => []
  | node :: rest => trails above (address ++ [place]) node ++ trailsAll above address (place + 1) rest

end

mutual

theorem map_trails (above : List Node) (address : Address) (node : Node) :
    (trails above address node).map (fun t => (t.address, t.node)) = located address node := by
  cases node with
  | leaf header kind => rfl
  | container header kind children =>
    rw [trails, located, List.map_cons, map_trailsAll]

theorem map_trailsAll (above : List Node) (address : Address) (place : Nat) (nodes : List Node) :
    (trailsAll above address place nodes).map (fun t => (t.address, t.node)) = locatedAll address place nodes := by
  cases nodes with
  | nil => rfl
  | cons node rest => rw [trailsAll, locatedAll, List.map_append, map_trails, map_trailsAll]

end

theorem mem_located {node : Node} {t : Trail} (member : t ∈ trails [] [] node) :
    (t.address, t.node) ∈ located [] node := by
  rw [← map_trails []]
  exact List.mem_map_of_mem member

theorem nodup_trails (node : Node) : ((trails [] [] node).map Trail.address).Nodup := by
  have addresses : (trails [] [] node).map Trail.address = (located [] node).map Prod.fst := by
    rw [← map_trails [], List.map_map]
    rfl
  rw [addresses]
  exact nodup_located [] node

theorem start_mem_trails (above : List Node) (address : Address) (node : Node) :
    ⟨address, above, node⟩ ∈ trails above address node := by
  cases node <;> exact List.mem_cons_self

mutual

/-- A trail is the first one, or goes on by one node from another. -/
theorem start_or_step_of_mem_trails (above : List Node) (address : Address) (node : Node) :
    ∀ t ∈ trails above address node, t = ⟨address, above, node⟩ ∨
      ∃ p ∈ trails above address node, ∃ i, t.address = p.address ++ [i] ∧ t.above = p.way := by
  intro t member
  cases node with
  | leaf header kind => exact .inl (List.mem_singleton.mp member)
  | container header kind children =>
    rcases List.mem_cons.mp member with first | below
    · exact .inl first
    right
    rcases start_or_step_of_mem_trailsAll _ address 0 children t below with ⟨i, here, way⟩ | ⟨p, held, step⟩
    · exact ⟨_, List.mem_cons_self, i, here, way⟩
    · exact ⟨p, List.mem_cons_of_mem _ held, step⟩

theorem start_or_step_of_mem_trailsAll (above : List Node) (address : Address) (place : Nat) (nodes : List Node) :
    ∀ t ∈ trailsAll above address place nodes, (∃ i, t.address = address ++ [i] ∧ t.above = above) ∨
      ∃ p ∈ trailsAll above address place nodes, ∃ i, t.address = p.address ++ [i] ∧ t.above = p.way := by
  intro t member
  cases nodes with
  | nil => exact absurd member List.not_mem_nil
  | cons node rest =>
    rcases List.mem_append.mp member with here | later
    · rcases start_or_step_of_mem_trails above (address ++ [place]) node t here with rfl | ⟨p, held, step⟩
      · exact .inl ⟨place, rfl, rfl⟩
      · exact .inr ⟨p, List.mem_append_left _ held, step⟩
    · rcases start_or_step_of_mem_trailsAll above address (place + 1) rest t later with start | ⟨p, held, step⟩
      · exact .inl start
      · exact .inr ⟨p, List.mem_append_right _ held, step⟩

end

/-- What holds of the first trail, and of each one that goes on from one of which it holds, holds of all. -/
theorem trails_induction {node : Node} {P : Trail → Prop} (start : P ⟨[], [], node⟩)
    (step : ∀ p ∈ trails [] [] node, P p → ∀ t ∈ trails [] [] node, ∀ i, t.address = p.address ++ [i] →
      t.above = p.way → P t) : ∀ t ∈ trails [] [] node, P t := by
  intro t member
  induction depth : t.above.length generalizing t with
  | zero =>
    rcases start_or_step_of_mem_trails [] [] node t member with rfl | ⟨p, held, i, -, way⟩
    · exact start
    · rw [way, Trail.way, List.length_append, List.length_singleton] at depth
      omega
  | succ n ih =>
    rcases start_or_step_of_mem_trails [] [] node t member with rfl | ⟨p, held, i, here, way⟩
    · cases depth
    · rw [way, Trail.way, List.length_append, List.length_singleton] at depth
      exact step p held (ih p held (by omega)) t member i here way

end Node

end Handoff.Design
