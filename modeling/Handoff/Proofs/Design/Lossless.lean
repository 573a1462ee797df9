import Handoff.Proofs.Design.Unmodelled
import Handoff.Proofs.Design.Preorder
import Handoff.Proofs.Json.Alike

set_option autoImplicit false
set_option relaxedAutoImplicit false

/-!
Numbers that a design's value cannot hold.

A number that is not finite is written as null. A well-formed design has no null among the attributes that its nodes
have a use for, so that a node whose value is like that of a well-formed one has finite numbers only.
-/

namespace Handoff

namespace Json

mutual

def NullFree : Json → Prop
  | .null => False
  | .array items => NullFreeItems items
  | .object members => NullFreeMembers members
  | _ => True

def NullFreeItems : List Json → Prop
  | [] => True
  | v :: vs => v.NullFree ∧ NullFreeItems vs

def NullFreeMembers : List (String × Json) → Prop
  | [] => True
  | (_, v) :: ms => v.NullFree ∧ NullFreeMembers ms

end

theorem nullFreeItems_iff {items : List Json} : NullFreeItems items ↔ ∀ v ∈ items, v.NullFree := by
  induction items with
  | nil => simp [NullFreeItems]
  | cons v vs ih => simp [NullFreeItems, ih]

theorem nullFreeMembers_iff {members : Members} : NullFreeMembers members ↔ ∀ v ∈ members.map Prod.snd, v.NullFree := by
  induction members with
  | nil => simp [NullFreeMembers]
  | cons entry rest ih =>
    obtain ⟨key, v⟩ := entry
    simp only [NullFreeMembers, ih, List.map_cons, List.forall_mem_cons]

@[simp]
theorem nullFree_ofFloat {x : Float} : (ofFloat x).NullFree ↔ x.isFinite = true := by
  unfold ofFloat
  split
  · rename_i finite
    exact iff_of_true trivial finite
  · rename_i other
    exact iff_of_false id other

@[simp]
theorem nullFree_string {s : String} : (string s).NullFree :=
  trivial

theorem eq_of_alike_string {s t : String} (alike : (string s).Alike (string t)) : s = t := by
  cases alike
  rfl

private theorem forall_of_forall₂ {R : Json → Json → Prop} {xs ys : List Json} (h : List.Forall₂ R xs ys)
    (each : ∀ x ∈ xs, ∀ y, R x y → y.NullFree → x.NullFree) (all : ∀ y ∈ ys, y.NullFree) : ∀ x ∈ xs, x.NullFree := by
  induction h with
  | nil => exact all
  | cons first _ ih =>
    rw [List.forall_mem_cons] at each all ⊢
    exact ⟨each.1 _ first all.1, ih each.2 all.2⟩

theorem nullFree_of_alike (v w : Json) (alike : v.Alike w) (free : w.NullFree) : v.NullFree := by
  induction v using parts_induction generalizing w with
  | null =>
    cases alike
    exact free
  | bool | int | float | string => trivial
  | array items ih =>
    cases alike with
    | array same => exact nullFreeItems_iff.mpr (forall_of_forall₂ same ih (nullFreeItems_iff.mp free))
  | object members ih =>
    cases alike with
    | object keys values moved =>
      refine nullFreeMembers_iff.mpr (forall_of_forall₂ values (List.forall_mem_map.mpr ih) ?_)
      intro v member
      exact nullFreeMembers_iff.mp free v ((moved.map Prod.snd).mem_iff.mp member)

end Json

namespace Design

/-- The numbers of a node, without those of its children. -/
def Node.numbers : Node → List Float
  | .leaf header kind => header.numbers ++ kind.numbers
  | .container header kind _ => header.numbers ++ kind.numbers

section Attributes

/-- Some attributes have no null in their values, but for the children. -/
private def NoNulls (attributes : Members) : Prop :=
  ∀ entry ∈ attributes, entry.1 ≠ "children" → entry.2.NullFree

private theorem noNulls_append {first second : Members} : NoNulls (first ++ second) ↔ NoNulls first ∧ NoNulls second :=
  List.forall_mem_append

private theorem noNulls_cons {key : String} {v : Json} {rest : Members} (other : key ≠ "children") :
    NoNulls ((key, v) :: rest) ↔ v.NullFree ∧ NoNulls rest := by
  rw [NoNulls, List.forall_mem_cons]
  exact and_congr_left fun _ => ⟨fun h => h other, fun h _ => h⟩

private theorem noNulls_nil : NoNulls [] :=
  nofun

private theorem noNulls_member {α : Type} {key : String} {encode : α → Json} (numbers : α → List Float) {o : Option α}
    (other : key ≠ "children") (each : ∀ a, (encode a).NullFree ↔ AllFinite (numbers a)) :
    NoNulls (member key encode o) ↔ AllFinite (o.toList.flatMap numbers) := by
  cases o with
  | none => exact iff_of_true noNulls_nil nofun
  | some a =>
    rw [member, noNulls_cons other, each, and_iff_left noNulls_nil]
    simp [AllFinite]

private theorem noNulls_number {key : String} {o : Option Float} (other : key ≠ "children") :
    NoNulls (member key .ofFloat o) ↔ AllFinite o.toList := by
  rw [noNulls_member (fun x => [x]) other (by simp [AllFinite])]
  simp

private theorem noNulls_plain {α : Type} {key : String} {encode : α → Json} {o : Option α}
    (free : ∀ a, (encode a).NullFree) : NoNulls (member key encode o) := by
  cases o with
  | none => exact noNulls_nil
  | some a => exact fun _ held _ => List.mem_singleton.mp held ▸ free a

private theorem nullFree_point (p : Point) : p.encode.NullFree ↔ AllFinite [p.x, p.y] := by
  simp [Point.encode, Json.NullFree, Json.NullFreeMembers, AllFinite]

private theorem nullFree_size (s : Size) : s.encode.NullFree ↔ AllFinite [s.width, s.height] := by
  simp [Size.encode, Json.NullFree, Json.NullFreeMembers, AllFinite]

private theorem nullFree_padding (p : Padding) : p.encode.NullFree ↔ AllFinite p.numbers := by
  cases p <;> simp [Padding.encode, Padding.numbers, Json.NullFree, Json.NullFreeMembers, AllFinite]

private theorem nullFree_fontWeight (w : FontWeight) : w.encode.NullFree ↔ AllFinite w.numbers := by
  cases w <;> simp [FontWeight.encode, FontWeight.numbers, AllFinite]

private theorem nullFree_segment (s : Segment) : s.encode.NullFree ↔ AllFinite [s.x1, s.y1, s.x2, s.y2] := by
  simp [Segment.encode, Json.NullFree, Json.NullFreeItems, AllFinite]

private theorem nullFree_floats (xs : List Float) : (Json.array (xs.map .ofFloat)).NullFree ↔ AllFinite xs := by
  simp [Json.NullFree, Json.nullFreeItems_iff, AllFinite]

private theorem allFinite_append {xs ys : List Float} : AllFinite (xs ++ ys) ↔ AllFinite xs ∧ AllFinite ys :=
  List.forall_mem_append

private theorem noNulls_header (h : Header) : NoNulls h.members ↔ AllFinite h.numbers := by
  have name : NoNulls (member "name" .string h.name) := noNulls_plain fun _ => trivial
  simp only [Header.members, Header.numbers, List.cons_append, noNulls_append, allFinite_append, name, true_and,
    noNulls_cons (by decide : "id" ≠ "children"), Json.nullFree_string,
    noNulls_member _ (by decide : "position" ≠ "children") nullFree_point,
    noNulls_member _ (by decide : "size" ≠ "children") nullFree_size,
    noNulls_number (by decide : "opacity" ≠ "children")]

private theorem noNulls_text (key : String) (o : Option String) : NoNulls (member key .string o) :=
  noNulls_plain fun _ => trivial

private theorem noNulls_word {α : Type} (key : String) (name : α → String) (o : Option α) :
    NoNulls (member key (fun a => .string (name a)) o) :=
  noNulls_plain fun _ => trivial

private theorem noNulls_leaf (kind : Leaf) : NoNulls kind.members ↔ AllFinite kind.numbers := by
  have strokeWidth (o : Option Float) := @noNulls_number "strokeWidth" o (by decide)
  have radius (o : Option Float) := @noNulls_number "radius" o (by decide)
  cases kind with
  | rect a =>
    simp only [Leaf.members, Leaf.numbers, noNulls_append, allFinite_append, noNulls_text, true_and, strokeWidth,
      radius]
  | ellipse a => simp only [Leaf.members, Leaf.numbers, noNulls_append, noNulls_text, true_and, strokeWidth]
  | text a =>
    simp only [Leaf.members, Leaf.numbers, List.cons_append, noNulls_append, allFinite_append, noNulls_text,
      noNulls_word, noNulls_cons (by decide : "text" ≠ "children"), Json.nullFree_string,
      noNulls_number (by decide : "fontSize" ≠ "children"),
      noNulls_member _ (by decide : "fontWeight" ≠ "children") nullFree_fontWeight, true_and, and_true]
  | image a =>
    simp only [Leaf.members, Leaf.numbers, List.cons_append, noNulls_append, noNulls_text, noNulls_word,
      noNulls_cons (by decide : "src" ≠ "children"), Json.nullFree_string, radius, true_and, and_true]
  | line a =>
    rw [Leaf.numbers, allFinite_append]
    simp only [Leaf.members, List.cons_append, noNulls_append, noNulls_text,
      noNulls_cons (by decide : "points" ≠ "children"), nullFree_segment, strokeWidth, true_and]
  | path role a =>
    have closed : NoNulls (if a.closed then [("closed", Json.bool true)] else []) := by
      split
      · exact (noNulls_cons (by decide)).mpr ⟨trivial, noNulls_nil⟩
      · exact noNulls_nil
    simp only [Leaf.members, Leaf.numbers, List.cons_append, noNulls_append, allFinite_append, noNulls_text, closed,
      noNulls_cons (by decide : "points" ≠ "children"), nullFree_floats, strokeWidth, true_and]
  | unknown type => exact iff_of_true noNulls_nil (List.forall_mem_nil _)

private theorem noNulls_container (children : List Json) (kind : Container) :
    NoNulls (kind.members children) ↔ AllFinite kind.numbers := by
  have below : NoNulls (childrenMember children) := by
    unfold childrenMember
    split
    · exact noNulls_nil
    · exact fun _ held other => absurd (List.mem_singleton.mp held ▸ rfl) other
  have gap (o : Option Float) := @noNulls_number "gap" o (by decide)
  have padding (o : Option Padding) :=
    @noNulls_member _ "padding" _ Padding.numbers o (by decide) nullFree_padding
  cases kind with
  | panel role a =>
    simp only [Container.members, Container.numbers, noNulls_append, allFinite_append, below, noNulls_text, padding,
      noNulls_number (by decide : "radius" ≠ "children"), true_and]
  | stack a =>
    simp only [Container.members, Container.numbers, List.cons_append, noNulls_append, allFinite_append, below,
      noNulls_text, noNulls_word, noNulls_cons (by decide : "direction" ≠ "children"), Json.nullFree_string, gap,
      padding, true_and, and_true]
  | grid a =>
    have columns : (Json.int a.columns.toNat).NullFree := trivial
    simp only [Container.members, Container.numbers, List.cons_append, noNulls_append, allFinite_append, below,
      noNulls_text, noNulls_cons (by decide : "columns" ≠ "children"), columns, gap, padding, true_and, and_true]

private theorem noNulls_attributes (node : Node) :
    NoNulls (node.header.members ++ node.attributes) ↔ AllFinite node.numbers := by
  cases node with
  | leaf header kind =>
    exact noNulls_append.trans ((and_congr (noNulls_header header) (noNulls_leaf kind)).trans allFinite_append.symm)
  | container header kind children =>
    exact noNulls_append.trans
      ((and_congr (noNulls_header header) (noNulls_container _ kind)).trans allFinite_append.symm)

end Attributes

section Values

/-- No extra member of a node stands under a name that the node or its kind has a use for. One may be called `type`, and
is written over. -/
def Node.Apart (node : Node) : Prop :=
  ∀ entry ∈ node.header.extra, entry.1 ∉ headerRecord.keys ++ node.kindKeys

private theorem Node.Sound.distinct {node : Node} (sound : node.Sound) : (node.header.extra.map Prod.fst).Nodup := by
  cases node with
  | leaf header kind => exact Json.Sound.distinct sound
  | container header kind children => exact Json.Sound.distinct sound.1

private theorem Node.nodup_attributes (node : Node) : (node.attributes.map Prod.fst).Nodup := by
  have distinct := node.nodup_keys
  rw [nodeKeys, List.append_assoc, List.nodup_append] at distinct
  exact (List.nodup_append.mp distinct.2.1).1.sublist node.keys_attributes

/-- What the value of a node looks up: its type, else an extra member, else an attribute of its kind, else one of those
that all nodes have. -/
private theorem Node.lookup_encode {node : Node} (sound : node.Sound) :
    ∃ members, node.encode = .object members ∧ (members.map Prod.fst).Nodup ∧ ∀ key, members.lookup key =
      (List.lookup key [("type", Json.string node.typeName)]).or ((node.header.extra.lookup key).or
        ((node.attributes.lookup key).or (node.header.members.lookup key))) := by
  have form : node.members = node.header.members ++ kindMembers node.attributes node.header.extra node.typeName := by
    cases node <;> rfl
  have common : (node.header.members.map Prod.fst).Nodup := List.Nodup.sublist (keys_headerMembers _) (by decide)
  refine ⟨Entries.putAll [] node.members, rfl, Entries.nodup_putAll_nil _, fun key => ?_⟩
  have kind : (kindMembers node.attributes node.header.extra node.typeName).lookup key =
      (List.lookup key [("type", Json.string node.typeName)]).or
        ((node.header.extra.lookup key).or (node.attributes.lookup key)) := by
    have alone : ([("type", Json.string node.typeName)].map Prod.fst).Nodup := List.nodup_singleton _
    rw [kindMembers, Entries.putAll_append, Entries.putAll_append, Entries.lookup_putAll alone,
      Entries.lookup_putAll sound.distinct, Entries.lookup_putAll node.nodup_attributes, List.lookup_nil,
      Option.or_none]
  have other : ((kindMembers node.attributes node.header.extra node.typeName).map Prod.fst).Nodup :=
    Entries.nodup_putAll_nil _
  rw [form, Entries.putAll_append, Entries.lookup_putAll other, kind, Entries.lookup_putAll common, List.lookup_nil,
    Option.or_none, Option.or_assoc, Option.or_assoc]

private theorem Node.lookup_of_mem {node : Node} (apart : node.Apart) {entry : String × Json}
    (member : entry ∈ node.header.members ++ node.attributes) {members : Members}
    (look : ∀ key, members.lookup key = (List.lookup key [("type", Json.string node.typeName)]).or
      ((node.header.extra.lookup key).or ((node.attributes.lookup key).or (node.header.members.lookup key)))) :
    entry.1 ∈ headerRecord.keys ++ node.kindKeys ∧ members.lookup entry.1 = some entry.2 := by
  have distinct := node.nodup_keys
  rw [nodeKeys, List.nodup_append] at distinct
  obtain ⟨both, -, other⟩ := distinct
  have keys : ((node.header.members ++ node.attributes).map Prod.fst).Sublist (headerRecord.keys ++ node.kindKeys) := by
    rw [List.map_append]
    exact (keys_headerMembers _).append node.keys_attributes
  have known := keys.subset (List.mem_map_of_mem member)
  have type : entry.1 ≠ "type" := fun same => other _ known _ (List.mem_singleton_self _) same
  have extra : node.header.extra.lookup entry.1 = none := by
    refine Entries.lookup_eq_none_iff.mpr fun held => ?_
    obtain ⟨beside, there, same⟩ := List.mem_map.mp held
    exact apart beside there (same ▸ known)
  have found : List.lookup entry.1 (node.attributes ++ node.header.members) = some entry.2 := by
    refine Entries.lookup_of_mem ?_ (List.mem_append.mpr (List.mem_append.mp member).symm)
    have swapped : (node.header.members ++ node.attributes).Perm (node.attributes ++ node.header.members) :=
      List.perm_append_comm
    exact (swapped.map Prod.fst).nodup_iff.mp (both.sublist keys)
  refine ⟨known, ?_⟩
  rw [look, List.lookup_cons, beq_false_of_ne type, extra, ← Entries.lookup_append, found]
  rfl

private theorem Node.kindKeys_subset (node : Node) : node.kindKeys ⊆ (Shape.fieldsOf node.typeName).map Prod.fst := by
  cases node with
  | container header kind children =>
    cases kind with
    | panel role a => cases role <;> exact List.Subset.refl _
    | stack a | grid a => exact List.Subset.refl _
  | leaf header kind =>
    cases kind with
    | path role a => cases role <;> exact List.Subset.refl _
    | unknown type => exact List.nil_subset _
    | rect a | ellipse a | text a | image a | line a => exact List.Subset.refl _

variable {node again : Node}

private theorem exists_attribute (sound : node.Sound) (apart : node.Apart) (wf : again.WellFormed)
    (alike : node.encode.Alike again.encode) {entry : String × Json}
    (member : entry ∈ node.header.members ++ node.attributes) :
    ∃ w, (entry.1, w) ∈ again.header.members ++ again.attributes ∧ entry.2.Alike w := by
  obtain ⟨members, encoded, distinct, look⟩ := Node.lookup_encode sound
  obtain ⟨known, here⟩ := Node.lookup_of_mem apart member look
  rw [encoded, Node.encode_eq wf, Json.alike_object_iff distinct (Node.members_eq wf).2] at alike
  have type : node.typeName = again.typeName :=
    Json.eq_of_alike_string (alike.2 "type" _ _ (look "type") (Node.lookup_type wf))
  obtain ⟨w, there⟩ := Entries.mem_keys_iff.mp ((alike.1 entry.1).mp (Entries.mem_keys_iff.mpr ⟨_, here⟩))
  refine ⟨w, ?_, alike.2 _ _ _ here there⟩
  rcases List.mem_append.mp known with common | own
  · rw [Node.lookup_common wf common] at there
    exact List.mem_append_left _ (Entries.mem_of_lookup there)
  · have own : entry.1 ∈ again.kindKeys := by
      rw [Node.kindKeys_eq wf, ← type]
      exact node.kindKeys_subset own
    rw [Node.lookup_attribute wf own] at there
    exact List.mem_append_right _ (Entries.mem_of_lookup there)

private theorem allFinite_of_wellFormed (wf : again.WellFormed) : AllFinite again.numbers := by
  cases again with
  | leaf header kind => exact allFinite_append.mpr ⟨wf.1.finite, wf.2.finite⟩
  | container header kind children => exact allFinite_append.mpr ⟨wf.1.finite, wf.2.1⟩

private theorem allFinite_of_alike (sound : node.Sound) (apart : node.Apart) (wf : again.WellFormed)
    (alike : node.encode.Alike again.encode) : AllFinite node.numbers := by
  refine (noNulls_attributes node).mp fun entry member other => ?_
  obtain ⟨w, there, same⟩ := exists_attribute sound apart wf alike member
  have free := (noNulls_attributes again).mpr (allFinite_of_wellFormed wf) _ there other
  exact Json.nullFree_of_alike _ w same free

private theorem Node.WellFormed.below (wf : again.WellFormed) : Node.AllWellFormed again.children := by
  cases again with
  | leaf header kind => trivial
  | container header kind children => exact wf.2.2

private theorem eq_encodeAll {v : Json} (member : ("children", v) ∈ again.header.members ++ again.attributes) :
    v = .array (Node.encodeAll again.children) := by
  rcases List.mem_append.mp member with common | own
  · have known := (keys_headerMembers _).subset (List.mem_map_of_mem common)
    exact absurd known (by decide : "children" ∉ headerRecord.keys)
  · cases again with
    | leaf header kind =>
      exact absurd ((Node.keys_attributes _).subset (List.mem_map_of_mem own)) (not_mem_leafKeys kind)
    | container header kind children =>
      have found := Entries.lookup_of_mem (Node.nodup_attributes _) own
      rw [Node.attributes, lookup_containerMembers] at found
      split at found
      · cases found
      · exact (Option.some.inj found).symm

mutual

/-- All nodes of one with a value like that of a well-formed node have finite numbers. -/
theorem Node.allFinite_of_alike (node again : Node) (sound : node.Sound) (apart : ∀ n ∈ node.preorder, n.Apart)
    (wf : again.WellFormed) (alike : node.encode.Alike again.encode) : ∀ n ∈ node.preorder, AllFinite n.numbers :=
  match node with
  | .leaf header kind => by
    rw [Node.preorder, List.forall_mem_singleton] at apart ⊢
    exact Design.allFinite_of_alike sound apart wf alike
  | .container header kind children => by
    rw [Node.preorder, List.forall_mem_cons] at apart ⊢
    refine ⟨Design.allFinite_of_alike sound apart.1 wf alike, ?_⟩
    cases children with
    | nil => exact nofun
    | cons first rest =>
      have found := lookup_containerMembers (Node.encodeAll (first :: rest)) kind
      have member := List.mem_append_right header.members (Entries.mem_of_lookup found)
      obtain ⟨w, there, same⟩ := exists_attribute sound apart.1 wf alike member
      rw [eq_encodeAll there, Json.alike_array_iff] at same
      exact allFinite_of_alike_all _ _ sound.2 apart.2 wf.below same

private theorem allFinite_of_alike_all (nodes others : List Node) (sound : Node.AllSound nodes)
    (apart : ∀ n ∈ Node.preorders nodes, n.Apart) (wf : Node.AllWellFormed others)
    (alike : List.Forall₂ Json.Alike (Node.encodeAll nodes) (Node.encodeAll others)) :
    ∀ n ∈ Node.preorders nodes, AllFinite n.numbers :=
  match nodes with
  | [] => nofun
  | node :: rest => by
    cases others with
    | nil => cases alike
    | cons other more =>
      obtain ⟨first, later⟩ := List.forall₂_cons.mp alike
      rw [Node.preorders, List.forall_mem_append] at apart ⊢
      exact ⟨Node.allFinite_of_alike node other sound.1 apart.1 wf.1 first,
        allFinite_of_alike_all rest more sound.2 apart.2 wf.2 later⟩

end

end Values

end Design

end Handoff
