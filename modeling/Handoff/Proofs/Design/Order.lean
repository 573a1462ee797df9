import Handoff.Proofs.Design.Unmodelled

set_option autoImplicit false
set_option relaxedAutoImplicit false

/-!
The order of what a design has no use for.

A node is written with the members that its type has no use for in the order in which they were given, but for one:
the last of the members that are not common comes into the place of the type when that is taken out. `Node.Arranged`
says so of one node, and when it makes a difference.
-/

namespace Handoff.Design

namespace Shape

/-- The members that the nodes of a type have no use for, in their order. -/
def unmodelled (type : String) (members : Members) : Members :=
  members.without (modelled type)

end Shape

/-- The type of a node is given before two members at least that it has no use for, the last of which is the last of
all that are not common. -/
def Node.Displaced (type : String) (given : Members) : Prop :=
  ∃ before between last, given.without headerRecord.keys = before ++ ("type", .string type) :: (between ++ [last]) ∧
    last.1 ∉ Shape.modelled type ∧ ∃ entry ∈ between, entry.1 ∉ Shape.modelled type

/-- How a node of a type is written with the members that its type has no use for: the last of those behind the type
stands in its place. They are in the order in which they were given unless the type is before two of them. -/
structure Node.Arranged (type : String) (given written : Members) : Prop where
  moved : ∃ before after, given.without headerRecord.keys = before ++ ("type", .string type) :: after ∧
    Shape.unmodelled type written = Shape.unmodelled type (before ++ (after.getLast?.toList ++ after.dropLast))
  kept_iff : Shape.unmodelled type written = Shape.unmodelled type given ↔ ¬Node.Displaced type given

/-- A relation of the members of a node of some type to those that it is written with holds of a node and, where its
type is that of a container, of all nodes below it. -/
inductive Node.Throughout (R : String → Members → Members → Prop) : Json → Json → Prop
  | object {type : String} {given written : Members} (typed : given.lookup "type" = some (.string type))
      (here : R type given written)
      (below : "children" ∈ (Shape.fieldsOf type).map Prod.fst →
        List.Forall₂ (Node.Throughout R) (childrenOf given) (childrenOf written)) :
      Node.Throughout R (.object given) (.object written)

/-- The same for documents, whose own members that a design has no use for are in the order in which they were given. -/
structure Tree.Throughout (R : String → Members → Members → Prop) (given written : Members) : Prop where
  unmodelled : written.without treeRecord.keys = given.without treeRecord.keys
  root : ∃ v w, given.lookup "root" = some v ∧ written.lookup "root" = some w ∧ Node.Throughout R v w

section Taken

variable {type : String} {given written rest : Members}

private theorem unmodelled_append (first second : Members) :
    Shape.unmodelled type (first ++ second) = Shape.unmodelled type first ++ Shape.unmodelled type second :=
  Entries.without_append ..

private theorem unmodelled_eq_nil_iff {members : Members} :
    Shape.unmodelled type members = [] ↔ ∀ entry ∈ members, entry.1 ∈ Shape.modelled type := by
  simp [Shape.unmodelled, Entries.without, List.filter_eq_nil_iff]

private theorem unmodelled_given (given : Members) :
    Shape.unmodelled type (given.without headerRecord.keys) = Shape.unmodelled type given := by
  refine Entries.without_without (fun key common => ?_) given
  rw [Shape.modelled, List.map_append, List.append_assoc]
  exact List.mem_append_left _ common

private theorem unmodelled_split (before : Members) (value : Json) (after : Members) :
    Shape.unmodelled type (before ++ ("type", value) :: after) =
      Shape.unmodelled type before ++ Shape.unmodelled type after := by
  have known : "type" ∈ Shape.modelled type := List.mem_append_right _ (List.mem_singleton_self _)
  have alone : Shape.unmodelled type [("type", value)] = [] :=
    unmodelled_eq_nil_iff.mpr (List.forall_mem_singleton.mpr known)
  rw [unmodelled_append, ← List.singleton_append, unmodelled_append, alone, List.nil_append]

/-- The last of some different members may come before the others only where it is of use, or all of them are. -/
private theorem unmodelled_rotate_iff {between : Members} {last : String × Json} (new : last ∉ between) :
    Shape.unmodelled type (last :: between) = Shape.unmodelled type (between ++ [last]) ↔
      last.1 ∈ Shape.modelled type ∨ ∀ entry ∈ between, entry.1 ∈ Shape.modelled type := by
  rw [← List.singleton_append, unmodelled_append, unmodelled_append, ← unmodelled_eq_nil_iff]
  by_cases known : last.1 ∈ Shape.modelled type
  · have alone : Shape.unmodelled type [last] = [] := unmodelled_eq_nil_iff.mpr (List.forall_mem_singleton.mpr known)
    rw [alone, List.nil_append, List.append_nil]
    exact iff_of_true rfl (.inl known)
  · have alone : Shape.unmodelled type [last] = [last] :=
      Entries.without_of_not_mem (List.forall_mem_singleton.mpr known)
    rw [alone, or_iff_right known]
    cases form : Shape.unmodelled type between with
    | nil => exact iff_of_true rfl rfl
    | cons first others =>
      refine iff_of_false (fun same => ?_) (List.cons_ne_nil _ _)
      obtain ⟨rfl, -⟩ := List.cons.inj same
      exact new (List.mem_filter.mp (form ▸ List.mem_cons_self ..)).1

/-- What is left when the type is taken out from before some members is in order only where the last of them is of use
or all others are. -/
private theorem unmodelled_taken_iff {before between : Members} {last : String × Json}
    (distinct : (given.map Prod.fst).Nodup)
    (split : given.without headerRecord.keys = before ++ ("type", .string type) :: (between ++ [last]))
    (taken : (Entries.without given headerRecord.keys).takeOut "type" = some (.string type, rest)) :
    Shape.unmodelled type rest = Shape.unmodelled type given ↔
      last.1 ∈ Shape.modelled type ∨ ∀ entry ∈ between, entry.1 ∈ Shape.modelled type := by
  have apart := Entries.nodup_without distinct headerRecord.keys
  rw [split, List.map_append, List.map_cons, List.nodup_append, List.nodup_cons, List.map_append] at apart
  have first : "type" ∉ before.map Prod.fst := fun member =>
    apart.2.2 "type" member "type" (List.mem_cons_self ..) rfl
  have new : last ∉ between := fun member =>
    (List.nodup_append.mp apart.2.1.2).2.2 _ (List.mem_map_of_mem member) _ (List.mem_singleton_self _) rfl
  rw [split, Entries.takeOut_append first] at taken
  obtain rfl : _ = rest := (Prod.mk.inj (Option.some.inj taken)).2
  rw [← unmodelled_given given, split, unmodelled_split, unmodelled_append, List.getLast?_concat,
    List.dropLast_concat, List.append_cancel_left_eq]
  exact unmodelled_rotate_iff new

private theorem arranged_of_takeOut (distinct : (given.map Prod.fst).Nodup)
    (taken : (Entries.without given headerRecord.keys).takeOut "type" = some (.string type, rest))
    (same : Shape.unmodelled type written = Shape.unmodelled type rest) : Node.Arranged type given written := by
  obtain ⟨before, after, split, left⟩ := Entries.exists_of_takeOut taken
  refine ⟨⟨before, after, split, left ▸ same⟩, ?_⟩
  rw [same]
  constructor
  · rintro kept ⟨before, between, last, split, out, entry, member, other⟩
    rcases (unmodelled_taken_iff distinct split taken).mp kept with known | all
    · exact out known
    · exact other (all entry member)
  · intro placed
    rcases List.eq_nil_or_concat' after with rfl | ⟨between, last, rfl⟩
    · rw [left, ← unmodelled_given given, split, unmodelled_split, unmodelled_append]
      rfl
    · refine (unmodelled_taken_iff distinct split taken).mpr (or_iff_not_imp_left.mpr fun out => ?_)
      by_contra! found
      exact placed ⟨before, between, last, split, out, found⟩

end Taken

section Written

variable {v : Json}

/-- A node that was read is written with the members that its type has no use for arranged, and so are those below. -/
theorem Node.arranged_of_decode (sound : v.Sound) {node : Node} (h : Node.decode v = .ok node) :
    Node.Throughout Node.Arranged v node.encode := by
  refine Node.decode_induction (P := fun v node => Node.Throughout Node.Arranged v node.encode) ?_ v sound node h
  intro members sound below node h
  obtain ⟨type, read⟩ := exists_read sound below h
  obtain ⟨rest, taken, extra⟩ := read.rest
  have modelled := modelled_eq read.wf
  have fields := Node.kindKeys_eq read.wf
  rw [read.named] at modelled fields
  have same : Shape.unmodelled type node.members = Shape.unmodelled type rest := by
    have own : node.kindKeys ⊆ Shape.modelled type := by
      rw [modelled]
      exact fun key member => List.mem_append_left _ (List.mem_append_right _ member)
    calc Shape.unmodelled type node.members
      _ = node.header.extra := by rw [Shape.unmodelled, modelled, Node.without_members read.wf]
      _ = Shape.unmodelled type node.header.extra :=
          (Entries.without_of_not_mem (modelled ▸ read.wf.header.apart)).symm
      _ = Shape.unmodelled type rest := by rw [extra, Shape.unmodelled, Entries.without_without own, Shape.unmodelled]
  rw [Node.encode_eq read.wf]
  refine .object read.typed (arranged_of_takeOut sound.distinct taken same) fun container => ?_
  obtain ⟨_, _, nodes, rfl, below⟩ := read.below (fields ▸ container)
  exact forall_children read.wf below

theorem Tree.arranged_of_decode (sound : v.Sound) {tree : Tree} (h : Tree.decode v = .ok tree) :
    ∃ given written, v = .object given ∧ tree.encode = .object written ∧
      Tree.Throughout Node.Arranged given written := by
  have wf := Tree.wellFormed_of_decode sound h
  cases v with
  | null | bool _ | int _ | float _ | string _ | array _ => nomatch h
  | object members =>
    obtain ⟨extra, -, -, v, root, read⟩ := lookups_of_decode sound h
    refine ⟨members, _, rfl, Tree.encode_eq wf, (Tree.without_members wf _).trans extra, v, tree.root.encode, root, ?_,
      Node.arranged_of_decode (sound.of_lookup root) read⟩
    exact Tree.lookup_members tree tree.root.encode "root"

end Written

end Handoff.Design
