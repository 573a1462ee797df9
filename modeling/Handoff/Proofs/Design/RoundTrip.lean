import Handoff.Proofs.Design.WellFormed

set_option autoImplicit false
set_option relaxedAutoImplicit false

/-!
A well-formed design is what its value is decoded as.
-/

namespace Handoff.Design

section Keys

variable {α : Type}

private theorem keys_member (key : String) (encode : α → Json) (o : Option α) :
    ((member key encode o).map Prod.fst).Sublist [key] := by
  cases o with
  | none => exact List.nil_sublist _
  | some a => exact List.Sublist.refl _

theorem lookup_member (name key : String) (encode : α → Json) (o : Option α) :
    List.lookup name (member key encode o) = if name = key then o.map encode else none := by
  cases o with
  | none => simp [member]
  | some a =>
    by_cases same : name = key
    · simp [member, same]
    · simp [member, List.lookup_cons, same, beq_false_of_ne]

theorem keys_headerMembers (h : Header) : (h.members.map Prod.fst).Sublist headerRecord.keys := by
  simp only [Header.members, List.cons_append, List.map_cons, List.map_append]
  exact (((((keys_member ..).append (keys_member ..)).append (keys_member ..)).append (keys_member ..))).cons_cons _

private theorem keys_childrenMember (children : List Json) :
    ((childrenMember children).map Prod.fst).Sublist ["children"] := by
  unfold childrenMember
  split
  · exact List.nil_sublist _
  · exact List.Sublist.refl _

private theorem keys_leafMembers (kind : Leaf) : (kind.members.map Prod.fst).Sublist kind.keys := by
  cases kind with
  | rect a =>
    simp only [Leaf.members, List.map_append]
    exact (((keys_member ..).append (keys_member ..)).append (keys_member ..)).append (keys_member ..)
  | ellipse a =>
    simp only [Leaf.members, List.map_append]
    exact ((keys_member ..).append (keys_member ..)).append (keys_member ..)
  | text a =>
    simp only [Leaf.members, List.cons_append, List.map_cons, List.map_append]
    exact (((((((keys_member ..).append (keys_member ..)).append (keys_member ..)).append
      (keys_member ..)).append (keys_member ..)).append (keys_member ..)).append (keys_member ..)).cons_cons _
  | image a =>
    simp only [Leaf.members, List.cons_append, List.map_cons, List.map_append]
    exact (((keys_member ..).append (keys_member ..)).append (keys_member ..)).cons_cons _
  | line a =>
    simp only [Leaf.members, List.cons_append, List.map_cons, List.map_append]
    exact ((keys_member ..).append (keys_member ..)).cons_cons _
  | path role a =>
    have closed : ((if a.closed then [("closed", Json.bool true)] else []).map Prod.fst).Sublist ["closed"] := by
      cases a.closed with
      | false => exact List.nil_sublist _
      | true => exact List.Sublist.refl _
    simp only [Leaf.members, List.cons_append, List.map_cons, List.map_append]
    exact (((closed.append (keys_member ..)).append (keys_member ..)).append (keys_member ..)).cons_cons _
  | unknown type => exact List.Sublist.refl _

private theorem keys_containerMembers (children : List Json) (kind : Container) :
    ((kind.members children).map Prod.fst).Sublist kind.keys := by
  have below := keys_childrenMember children
  cases kind with
  | panel role a =>
    simp only [Container.members, List.map_append]
    exact ((below.append (keys_member ..)).append (keys_member ..)).append (keys_member ..)
  | stack a =>
    simp only [Container.members, List.cons_append, List.map_cons, List.map_append]
    exact ((((((keys_member ..).append (keys_member ..)).append (keys_member ..)).append
      (keys_member ..)).append (keys_member ..)).append below).cons_cons _
  | grid a =>
    simp only [Container.members, List.cons_append, List.map_cons, List.map_append]
    exact ((((keys_member ..).append (keys_member ..)).append (keys_member ..)).append below).cons_cons _

private theorem nodup_leafKeys (kind : Leaf) : (nodeKeys kind.keys).Nodup :=
  match kind with
  | .rect _ => (by decide : (nodeKeys rectRecord.keys).Nodup)
  | .ellipse _ => (by decide : (nodeKeys ellipseRecord.keys).Nodup)
  | .text _ => (by decide : (nodeKeys labelRecord.keys).Nodup)
  | .image _ => (by decide : (nodeKeys imageRecord.keys).Nodup)
  | .line _ => (by decide : (nodeKeys lineRecord.keys).Nodup)
  | .path _ _ => (by decide : (nodeKeys pathRecord.keys).Nodup)
  | .unknown _ => (by decide : (nodeKeys []).Nodup)

private theorem nodup_containerKeys (kind : Container) : (nodeKeys kind.keys).Nodup :=
  match kind with
  | .panel _ _ => (by decide : (nodeKeys (panelRecord .frame (.ok [])).keys).Nodup)
  | .stack _ => (by decide : (nodeKeys (stackRecord (.ok [])).keys).Nodup)
  | .grid _ => (by decide : (nodeKeys (gridRecord (.ok [])).keys).Nodup)

end Keys

section Parts

variable {header : Header} {kindKeys : List String} {attributes : Members}

/-- The members of a node in their order: the common ones, the attributes of its kind, the extra ones, its type. -/
private def parts (header : Header) (attributes : Members) (type : String) : Members :=
  header.members ++ (attributes ++ header.extra ++ [("type", .string type)])

private theorem nodup_parts (wf : header.WellFormed kindKeys) (own : (attributes.map Prod.fst).Sublist kindKeys)
    (distinct : (nodeKeys kindKeys).Nodup) (type : String) : ((parts header attributes type).map Prod.fst).Nodup := by
  have shuffled : (nodeKeys kindKeys ++ header.extra.map Prod.fst).Perm
      (headerRecord.keys ++ (kindKeys ++ header.extra.map Prod.fst ++ ["type"])) := by
    simp only [nodeKeys, List.append_assoc]
    refine List.Perm.append_left _ (List.Perm.append_left _ List.perm_append_comm)
  have all : (headerRecord.keys ++ (kindKeys ++ header.extra.map Prod.fst ++ ["type"])).Nodup := by
    refine shuffled.nodup_iff.mp (List.nodup_append.mpr ⟨distinct, wf.sound.distinct, ?_⟩)
    intro key known other member same
    obtain ⟨entry, held, rfl⟩ := List.mem_map.mp member
    exact wf.apart entry held (same ▸ known)
  refine all.sublist ?_
  simp only [parts, List.map_append, List.map_singleton]
  exact (keys_headerMembers header).append ((own.append (List.Sublist.refl _)).append (List.Sublist.refl _))

end Parts

/-- The attributes of a node's kind. -/
def Node.attributes : Node → Members
  | .leaf _ kind => kind.members
  | .container _ kind children => kind.members (Node.encodeAll children)

def Node.kindKeys : Node → List String
  | .leaf _ kind => kind.keys
  | .container _ kind _ => kind.keys

section Nodes

theorem Node.keys_attributes (node : Node) : (node.attributes.map Prod.fst).Sublist node.kindKeys :=
  match node with
  | .leaf _ kind => keys_leafMembers kind
  | .container _ kind children => keys_containerMembers (Node.encodeAll children) kind

theorem Node.nodup_keys (node : Node) : (nodeKeys node.kindKeys).Nodup :=
  match node with
  | .leaf _ kind => nodup_leafKeys kind
  | .container _ kind _ => nodup_containerKeys kind

theorem Node.WellFormed.header {node : Node} (wf : node.WellFormed) : node.header.WellFormed node.kindKeys := by
  cases node with
  | leaf header kind => exact wf.1
  | container header kind children => exact wf.1

/-- A well-formed node has no two members of one name: the common ones, its attributes, the extra ones, its type. -/
theorem Node.members_eq {node : Node} (wf : node.WellFormed) :
    node.members = node.header.members ++ (node.attributes ++ node.header.extra ++ [("type", .string node.typeName)]) ∧
      (node.members.map Prod.fst).Nodup := by
  have all := nodup_parts wf.header node.keys_attributes node.nodup_keys node.typeName
  have form : node.members = node.header.members ++ kindMembers node.attributes node.header.extra node.typeName := by
    cases node <;> rfl
  have kind : kindMembers node.attributes node.header.extra node.typeName =
      node.attributes ++ node.header.extra ++ [("type", .string node.typeName)] := by
    refine Entries.putAll_new [] _ ?_
    rw [parts, List.map_append] at all
    exact (List.nodup_append.mp all).2.1
  rw [form, kind]
  exact ⟨rfl, all⟩

theorem Node.encode_eq {node : Node} (wf : node.WellFormed) : node.encode = .object node.members :=
  congrArg Json.object (Entries.putAll_new [] _ (Node.members_eq wf).2)

end Nodes

section Document

private theorem Tree.members_append (tree : Tree) (root : Json) :
    tree.members root =
      member "version" .string tree.version ++ member "name" .string tree.name ++ [("root", root)] ++ tree.extra := by
  simp only [Tree.members, List.append_assoc, List.singleton_append]

private theorem Tree.keys_members (tree : Tree) (root : Json) :
    ((member "version" .string tree.version ++ member "name" .string tree.name ++ [("root", root)]).map Prod.fst).Sublist
      treeRecord.keys := by
  rw [List.map_append, List.map_append, List.map_singleton]
  exact ((keys_member ..).append (keys_member ..)).append (List.Sublist.refl _)

section Apart

variable {tree : Tree} (sound : (Json.object tree.extra).Sound)
  (apart : ∀ entry ∈ tree.extra, entry.1 ∉ treeRecord.keys)
include sound apart

/-- A design has no two members of one name where its extra members have names of their own. -/
theorem Tree.nodup_members_of_apart (root : Json) : ((tree.members root).map Prod.fst).Nodup := by
  have keys := Tree.keys_members tree root
  rw [Tree.members_append, List.map_append, List.nodup_append]
  refine ⟨List.Nodup.sublist keys (by decide), sound.distinct, ?_⟩
  rintro key mine other extra rfl
  obtain ⟨entry, held, rfl⟩ := List.mem_map.mp extra
  exact apart entry held (keys.subset mine)

theorem Tree.encode_eq_of_apart : tree.encode = .object (tree.members tree.root.encode) :=
  congrArg Json.object (Entries.putAll_new [] _ (Tree.nodup_members_of_apart sound apart _))

end Apart

theorem Tree.nodup_members {tree : Tree} (wf : tree.WellFormed) (root : Json) :
    ((tree.members root).map Prod.fst).Nodup :=
  Tree.nodup_members_of_apart wf.sound wf.apart root

/-- The extra members of a design are what is left of its members beside its own. -/
theorem Tree.without_members {tree : Tree} (wf : tree.WellFormed) (root : Json) :
    Entries.without (tree.members root) treeRecord.keys = tree.extra := by
  have own := Tree.keys_members tree root
  rw [Tree.members_append, Entries.without_append, Entries.without_of_mem, Entries.without_of_not_mem, List.nil_append]
  · exact wf.apart
  · exact fun entry member => own.subset (List.mem_map_of_mem member)

theorem Tree.encode_eq {tree : Tree} (wf : tree.WellFormed) : tree.encode = .object (tree.members tree.root.encode) :=
  Tree.encode_eq_of_apart wf.sound wf.apart

/-- No extra member of a well-formed design has a name that the design makes use of. -/
theorem Tree.WellFormed.lookup_extra {tree : Tree} (wf : tree.WellFormed) {key : String}
    (known : key ∈ treeRecord.keys) : tree.extra.lookup key = none := by
  refine Entries.lookup_eq_none_iff.mpr fun member => ?_
  obtain ⟨entry, held, rfl⟩ := List.mem_map.mp member
  exact wf.apart entry held known

/-- What a design's members look up: its own attributes, else one of the extra members. -/
theorem Tree.lookup_members (tree : Tree) (root : Json) (key : String) :
    (tree.members root).lookup key =
      (if key = "version" then tree.version.map Json.string else none).or
        ((if key = "name" then tree.name.map Json.string else none).or
          ((if key = "root" then some root else none).or (tree.extra.lookup key))) := by
  have here : List.lookup key [("root", root)] = if key = "root" then some root else none := by
    by_cases same : key = "root" <;> simp [List.lookup_cons, same, beq_false_of_ne]
  rw [Tree.members_append, Entries.lookup_append, Entries.lookup_append, Entries.lookup_append, lookup_member,
    lookup_member, here, Option.or_assoc, Option.or_assoc]

end Document

/-- A check that finds no fault in what its key looks up. -/
private def Check.Passes (check : Check) (members : Members) : Prop :=
  ∀ v, members.lookup check.1 = some v → check.2 v = none

private theorem Record.decode_of_passes {α : Type} {record : Record α} {members : Members}
    (distinct : (members.map Prod.fst).Nodup) (passes : ∀ check ∈ record.checks, Check.Passes check members)
    (required : ∀ key ∈ record.required, ∃ v, members.lookup key = some v) :
    record.decode members = .ok (record.build members) := by
  refine Record.decode_eq_ok.mpr ⟨firstFault_eq_none.mpr ?_, firstMissing_eq_none.mpr required, rfl⟩
  intro entry member
  cases found : record.checks.lookup entry.1 with
  | none => rfl
  | some check => exact passes _ (Entries.mem_of_lookup found) entry.2 (Entries.lookup_of_mem distinct member)

/-- What the members of an object say about a field: a value, or nothing where the value is the default. -/
private structure Field.Reads {α : Type} (field : Field α) (members : Members) (default a : α) : Prop where
  here : ∀ v, members.lookup field.key = some v → field.read v = .ok a
  absent : members.lookup field.key = none → default = a

namespace Field.Reads

variable {α : Type} {field : Field α} {members : Members} {default a : α}

private theorem getD (h : field.Reads members default a) : field.getD members default = a := by
  unfold Field.getD
  cases found : members.lookup field.key with
  | none => exact h.absent found
  | some v => simp only [h.here v found]

private theorem passes (h : field.Reads members default a) : Check.Passes field.check members := by
  intro v found
  exact Field.faultOf_eq_none.mpr ⟨a, h.here v found⟩

private theorem of_some {v : Json} (found : members.lookup field.key = some v) (reads : field.read v = .ok a) :
    field.Reads members default a := by
  refine ⟨?_, ?_⟩
  · intro other here
    obtain rfl := Option.some.inj (here.symm.trans found)
    exact reads
  · intro none
    rw [found] at none
    cases none

private theorem of_optional {β : Type} {key : String} {read : Reader β} {encode : β → Json} {o : Option β}
    (found : members.lookup key = o.map encode)
    (reads : ∀ b, o = some b → readOptional read (encode b) = .ok (some b)) :
    (optionalField key read).Reads members none o := by
  cases o with
  | none =>
    refine ⟨?_, fun _ => rfl⟩
    intro v here
    rw [show members.lookup key = some v from here] at found
    cases found
  | some b => exact of_some found (reads b rfl)

private theorem of_text {key : String} {o : Option String} (found : members.lookup key = o.map .string) :
    (optionalField key readText).Reads members none o :=
  of_optional found fun _ _ => rfl

private theorem of_number {key : String} {o : Option Float} (found : members.lookup key = o.map .ofFloat)
    (finite : ∀ x ∈ o.toList, x.isFinite = true) : (optionalField key readNumber).Reads members none o := by
  refine of_optional found ?_
  intro x same
  rw [Json.ofFloat, if_pos (finite x (Option.mem_toList.mpr same))]
  rfl

private theorem of_word {β : Type} {key : String} {words : List (String × β)} {name : β → String} {o : Option β}
    (found : members.lookup key = o.map fun b => .string (name b)) (known : ∀ b, words.lookup (name b) = some b) :
    (optionalField key (readChoice words)).Reads members none o := by
  refine of_optional found ?_
  intro b _
  change (readChoice words (.string (name b))).map some = _
  rw [readChoice, readWordOf, known]
  rfl

end Field.Reads

section Readers

private theorem readNumber_ofFloat {x : Float} (finite : x.isFinite = true) : readNumber (.ofFloat x) = .ok x := by
  rw [Json.ofFloat, if_pos finite]
  rfl

private theorem readPair_object {α : Type} {first second : String} (differ : second ≠ first) (expected : Expected)
    (build : Float → Float → α) {x y : Float} (hx : x.isFinite = true) (hy : y.isFinite = true) :
    readPair first second expected build (.object [(first, .ofFloat x), (second, .ofFloat y)]) = .ok (build x y) := by
  have one : Field.Reads ⟨first, readNumber⟩ [(first, .ofFloat x), (second, .ofFloat y)] 0 x :=
    .of_some List.lookup_cons_self (readNumber_ofFloat hx)
  have two : Field.Reads ⟨second, readNumber⟩ [(first, .ofFloat x), (second, .ofFloat y)] 0 y := by
    refine .of_some ?_ (readNumber_ofFloat hy)
    rw [List.lookup_cons, beq_false_of_ne differ]
    exact List.lookup_cons_self
  rw [readPair, Record.decode_of_passes]
  · simp only [one.getD, two.getD]
  · simpa using Ne.symm differ
  · exact List.forall_mem_cons.mpr ⟨one.passes, List.forall_mem_singleton.mpr two.passes⟩
  · refine List.forall_mem_cons.mpr ⟨⟨_, List.lookup_cons_self⟩, List.forall_mem_singleton.mpr ⟨.ofFloat y, ?_⟩⟩
    rw [List.lookup_cons, beq_false_of_ne differ]
    exact List.lookup_cons_self

private theorem readPadding_encode {p : Padding} (finite : ∀ x ∈ p.numbers, x.isFinite = true) :
    readPadding p.encode = .ok p := by
  cases p with
  | uniform value =>
    rw [Padding.encode, Json.ofFloat, if_pos (finite value (List.mem_singleton_self _))]
    rfl
  | sides top right bottom left =>
    simp only [Padding.numbers, List.forall_mem_cons] at finite
    obtain ⟨ht, hr, hb, hl, -⟩ := finite
    let members : Members :=
      [("top", .ofFloat top), ("right", .ofFloat right), ("bottom", .ofFloat bottom), ("left", .ofFloat left)]
    have side {key : String} {x : Float} (finite : x.isFinite = true) (found : members.lookup key = some (.ofFloat x)) :
        (sideField key).Reads members 0 x := .of_some found (readNumber_ofFloat finite)
    have first : (sideField "top").Reads members 0 top := side ht rfl
    have second : (sideField "right").Reads members 0 right := side hr rfl
    have third : (sideField "bottom").Reads members 0 bottom := side hb rfl
    have fourth : (sideField "left").Reads members 0 left := side hl rfl
    have sides : paddingRecord.decode members = .ok (.sides top right bottom left) := by
      rw [Record.decode_of_passes]
      · simp only [paddingRecord, first.getD, second.getD, third.getD, fourth.getD]
      · simp [members]
      · simp only [paddingRecord, List.map_cons, List.map_nil, List.forall_mem_cons]
        exact ⟨first.passes, second.passes, third.passes, fourth.passes, List.forall_mem_nil _⟩
      · exact List.forall_mem_nil _
    rw [Padding.encode, readPadding]
    simp only [members] at sides
    rw [sides]

private theorem readFontWeight_encode {w : FontWeight} (finite : ∀ x ∈ w.numbers, x.isFinite = true) :
    readOptional readFontWeight w.encode = .ok (some w) := by
  cases w with
  | numeric value =>
    rw [FontWeight.encode, Json.ofFloat, if_pos (finite value (List.mem_singleton_self _))]
    rfl
  | keyword word => rfl

private theorem readEach_floats {xs : List Float} (finite : ∀ x ∈ xs, x.isFinite = true) :
    readEach readNumber (xs.map .ofFloat) = .ok xs := by
  induction xs with
  | nil => rfl
  | cons x xs ih =>
    rw [List.forall_mem_cons] at finite
    rw [List.map_cons, readEach, readNumber_ofFloat finite.1, ih finite.2]

private theorem readSegment_encode {s : Segment} (finite : ∀ x ∈ [s.x1, s.y1, s.x2, s.y2], x.isFinite = true) :
    readSegment s.encode = .ok s := by
  have each : readEach readNumber [.ofFloat s.x1, .ofFloat s.y1, .ofFloat s.x2, .ofFloat s.y2] =
      .ok [s.x1, s.y1, s.x2, s.y2] := readEach_floats finite
  rw [Segment.encode, readSegment, readTuple]
  simp only [List.take_succ_cons, List.take_zero, each]
  rfl

private theorem readWord_columns (n : UInt32) : readWord (.int n.toNat) = .ok n := by
  have small : n.toNat < UInt32.size := n.toNat_lt
  rw [readWord, if_pos ⟨Int.natCast_nonneg _, small⟩]
  simp

end Readers

section Records

variable {members : Members}

private theorem lookup_closed (name : String) (closed : Bool) :
    List.lookup name (if closed then [("closed", Json.bool true)] else []) =
      if name = "closed" then (if closed then some (.bool true) else none) else none := by
  cases closed with
  | false => simp
  | true => by_cases same : name = "closed" <;> simp [List.lookup_cons, same, beq_false_of_ne]

private theorem lookup_childrenMember (name : String) (children : List Json) :
    List.lookup name (childrenMember children) =
      if name = "children" then (if children.isEmpty then none else some (.array children)) else none := by
  unfold childrenMember
  split
  · simp
  · by_cases same : name = "children" <;> simp [List.lookup_cons, same, beq_false_of_ne]

private theorem reads_point {key : String} {o : Option Point} (found : members.lookup key = o.map Point.encode)
    (finite : ∀ x ∈ o.toList.flatMap fun p => [p.x, p.y], x.isFinite = true) :
    (optionalField key readPoint).Reads members none o := by
  refine .of_optional found ?_
  rintro p rfl
  have read : readPoint p.encode = .ok p :=
    readPair_object (by decide) .point Point.mk (finite p.x (by simp)) (finite p.y (by simp))
  change (readPoint p.encode).map some = _
  rw [read]
  rfl

private theorem reads_size {key : String} {o : Option Size} (found : members.lookup key = o.map Size.encode)
    (finite : ∀ x ∈ o.toList.flatMap fun s => [s.width, s.height], x.isFinite = true) :
    (optionalField key readSize).Reads members none o := by
  refine .of_optional found ?_
  rintro s rfl
  have read : readSize s.encode = .ok s :=
    readPair_object (by decide) .size Size.mk (finite s.width (by simp)) (finite s.height (by simp))
  change (readSize s.encode).map some = _
  rw [read]
  rfl

private theorem reads_padding {key : String} {o : Option Padding} (found : members.lookup key = o.map Padding.encode)
    (finite : ∀ x ∈ o.toList.flatMap Padding.numbers, x.isFinite = true) :
    (optionalField key readPadding).Reads members none o := by
  refine .of_optional found ?_
  rintro p rfl
  have finite : ∀ x ∈ p.numbers, x.isFinite = true := fun x member => finite x (by simpa using member)
  have read := congrArg (Except.map some) (readPadding_encode finite)
  cases p with
  | uniform value =>
    rw [Padding.encode, Json.ofFloat, if_pos (finite value (List.mem_singleton_self _))]
    rfl
  | sides top right bottom left => exact read

private theorem reads_fontWeight {key : String} {o : Option FontWeight}
    (found : members.lookup key = o.map FontWeight.encode)
    (finite : ∀ x ∈ o.toList.flatMap FontWeight.numbers, x.isFinite = true) :
    (optionalField key readFontWeight).Reads members none o := by
  refine .of_optional found ?_
  rintro w rfl
  exact readFontWeight_encode fun x member => finite x (by simpa using member)

/-- Members under different names that look up those of a record as its attributes do. -/
private structure Carries (members : Members) (keys : List String) (attributes : Members) : Prop where
  distinct : (members.map Prod.fst).Nodup
  look : ∀ key ∈ keys, members.lookup key = attributes.lookup key

private theorem decode_header {h : Header} (finite : ∀ x ∈ h.numbers, x.isFinite = true)
    (carries : Carries members headerRecord.keys h.members) :
    headerRecord.decode members = .ok { h with extra := [] } := by
  simp only [Header.numbers, List.forall_mem_append] at finite
  have look (key : String) (known : key ∈ headerRecord.keys) := carries.look key known
  simp only [Header.members, List.cons_append, List.lookup_cons, Entries.lookup_append, lookup_member] at look
  have id : idField.Reads members "" h.id := .of_some (look "id" (by decide)) rfl
  have name : nameField.Reads members none h.name := .of_text (by simpa using look "name" (by decide))
  have position : positionField.Reads members none h.position := reads_point (by simpa using look "position" (by decide)) finite.1.1
  have size : sizeField.Reads members none h.size := reads_size (by simpa using look "size" (by decide)) finite.1.2
  have opacity : opacityField.Reads members none h.opacity := .of_number (by simpa using look "opacity" (by decide)) finite.2
  rw [Record.decode_of_passes carries.distinct]
  · simp only [headerRecord, id.getD, name.getD, position.getD, size.getD, opacity.getD]
  · simp only [headerRecord, List.forall_mem_cons]
    exact ⟨id.passes, name.passes, position.passes, size.passes, opacity.passes, List.forall_mem_nil _⟩
  · exact List.forall_mem_singleton.mpr ⟨_, look "id" (by decide)⟩

private theorem decode_rect {a : Rect} (finite : ∀ x ∈ (Leaf.rect a).numbers, x.isFinite = true)
    (carries : Carries members rectRecord.keys (Leaf.rect a).members) : rectRecord.decode members = .ok a := by
  simp only [Leaf.numbers, List.forall_mem_append] at finite
  have look := carries.look
  simp only [Leaf.members, Entries.lookup_append, lookup_member] at look
  have fill : fillField.Reads members none a.fill := .of_text (by simpa using look "fill" (by decide))
  have stroke : strokeField.Reads members none a.stroke := .of_text (by simpa using look "stroke" (by decide))
  have strokeWidth : strokeWidthField.Reads members none a.strokeWidth :=
    .of_number (by simpa using look "strokeWidth" (by decide)) finite.1
  have radius : radiusField.Reads members none a.radius :=
    .of_number (by simpa using look "radius" (by decide)) finite.2
  rw [Record.decode_of_passes carries.distinct]
  · simp only [rectRecord, fill.getD, stroke.getD, strokeWidth.getD, radius.getD]
  · simp only [rectRecord, List.forall_mem_cons]
    exact ⟨fill.passes, stroke.passes, strokeWidth.passes, radius.passes, List.forall_mem_nil _⟩
  · exact List.forall_mem_nil _

private theorem decode_ellipse {a : Ellipse} (finite : ∀ x ∈ (Leaf.ellipse a).numbers, x.isFinite = true)
    (carries : Carries members ellipseRecord.keys (Leaf.ellipse a).members) : ellipseRecord.decode members = .ok a := by
  have look := carries.look
  simp only [Leaf.members, Entries.lookup_append, lookup_member] at look
  have fill : fillField.Reads members none a.fill := .of_text (by simpa using look "fill" (by decide))
  have stroke : strokeField.Reads members none a.stroke := .of_text (by simpa using look "stroke" (by decide))
  have strokeWidth : strokeWidthField.Reads members none a.strokeWidth :=
    .of_number (by simpa using look "strokeWidth" (by decide)) finite
  rw [Record.decode_of_passes carries.distinct]
  · simp only [ellipseRecord, fill.getD, stroke.getD, strokeWidth.getD]
  · simp only [ellipseRecord, List.forall_mem_cons]
    exact ⟨fill.passes, stroke.passes, strokeWidth.passes, List.forall_mem_nil _⟩
  · exact List.forall_mem_nil _

private theorem decode_label {a : Label} (finite : ∀ x ∈ (Leaf.text a).numbers, x.isFinite = true)
    (carries : Carries members labelRecord.keys (Leaf.text a).members) : labelRecord.decode members = .ok a := by
  simp only [Leaf.numbers, List.forall_mem_append] at finite
  have look := carries.look
  simp only [Leaf.members, List.cons_append, List.lookup_cons, Entries.lookup_append, lookup_member] at look
  have text : textField.Reads members "" a.text := .of_some (look "text" (by decide)) rfl
  have color : colorField.Reads members none a.color := .of_text (by simpa using look "color" (by decide))
  have fontFamily : fontFamilyField.Reads members none a.fontFamily :=
    .of_text (by simpa using look "fontFamily" (by decide))
  have fontSize : fontSizeField.Reads members none a.fontSize :=
    .of_number (by simpa using look "fontSize" (by decide)) finite.1
  have fontWeight : fontWeightField.Reads members none a.fontWeight :=
    reads_fontWeight (by simpa using look "fontWeight" (by decide)) finite.2
  have fontStyle : fontStyleField.Reads members none a.fontStyle :=
    .of_word (by simpa using look "fontStyle" (by decide)) (by rintro ⟨⟩ <;> rfl)
  have align : textAlignField.Reads members none a.align :=
    .of_word (by simpa using look "align" (by decide)) (by rintro ⟨⟩ <;> rfl)
  have variant : variantField.Reads members none a.variant :=
    .of_word (by simpa using look "variant" (by decide)) (by rintro ⟨⟩ <;> rfl)
  rw [Record.decode_of_passes carries.distinct]
  · simp only [labelRecord, text.getD, color.getD, fontFamily.getD, fontSize.getD, fontWeight.getD, fontStyle.getD,
      align.getD, variant.getD]
  · simp only [labelRecord, List.forall_mem_cons]
    exact ⟨text.passes, color.passes, fontFamily.passes, fontSize.passes, fontWeight.passes, fontStyle.passes,
      align.passes, variant.passes, List.forall_mem_nil _⟩
  · exact List.forall_mem_nil _

private theorem decode_image {a : Image} (finite : ∀ x ∈ (Leaf.image a).numbers, x.isFinite = true)
    (carries : Carries members imageRecord.keys (Leaf.image a).members) : imageRecord.decode members = .ok a := by
  have look := carries.look
  simp only [Leaf.members, List.cons_append, List.lookup_cons, Entries.lookup_append, lookup_member] at look
  have src : srcField.Reads members "" a.src := .of_some (look "src" (by decide)) rfl
  have alt : altField.Reads members none a.alt := .of_text (by simpa using look "alt" (by decide))
  have radius : radiusField.Reads members none a.radius :=
    .of_number (by simpa using look "radius" (by decide)) finite
  have objectFit : objectFitField.Reads members none a.objectFit :=
    .of_word (by simpa using look "objectFit" (by decide)) (by rintro ⟨⟩ <;> rfl)
  rw [Record.decode_of_passes carries.distinct]
  · simp only [imageRecord, src.getD, alt.getD, radius.getD, objectFit.getD]
  · simp only [imageRecord, List.forall_mem_cons]
    exact ⟨src.passes, alt.passes, radius.passes, objectFit.passes, List.forall_mem_nil _⟩
  · exact List.forall_mem_nil _

private theorem decode_line {a : Line} (finite : ∀ x ∈ (Leaf.line a).numbers, x.isFinite = true)
    (carries : Carries members lineRecord.keys (Leaf.line a).members) : lineRecord.decode members = .ok a := by
  rw [Leaf.numbers, List.forall_mem_append] at finite
  have look := carries.look
  simp only [Leaf.members, List.cons_append, List.lookup_cons, Entries.lookup_append, lookup_member] at look
  have points : segmentField.Reads members {} a.points :=
    .of_some (look "points" (by decide)) (readSegment_encode finite.1)
  have stroke : strokeField.Reads members none a.stroke := .of_text (by simpa using look "stroke" (by decide))
  have strokeWidth : strokeWidthField.Reads members none a.strokeWidth :=
    .of_number (by simpa using look "strokeWidth" (by decide)) finite.2
  rw [Record.decode_of_passes carries.distinct]
  · simp only [lineRecord, points.getD, stroke.getD, strokeWidth.getD]
  · simp only [lineRecord, List.forall_mem_cons]
    exact ⟨points.passes, stroke.passes, strokeWidth.passes, List.forall_mem_nil _⟩
  · exact List.forall_mem_nil _

private theorem decode_path {role : PathRole} {a : Path} (finite : ∀ x ∈ (Leaf.path role a).numbers, x.isFinite = true)
    (carries : Carries members pathRecord.keys (Leaf.path role a).members) : pathRecord.decode members = .ok a := by
  simp only [Leaf.numbers, List.forall_mem_append] at finite
  have look := carries.look
  simp only [Leaf.members, List.cons_append, List.lookup_cons, Entries.lookup_append, lookup_member,
    lookup_closed] at look
  have points : pointsField.Reads members [] a.points :=
    .of_some (look "points" (by decide)) (readEach_floats finite.1)
  have closed : closedField.Reads members false a.closed := by
    have found := look "closed" (by decide)
    cases value : a.closed with
    | true =>
      have here : members.lookup "closed" = some (.bool true) := by simpa [value] using found
      exact .of_some here rfl
    | false =>
      have none : members.lookup "closed" = none := by simpa [value] using found
      refine ⟨?_, fun _ => rfl⟩
      intro v here
      rw [show members.lookup "closed" = some v from here] at none
      cases none
  have fill : fillField.Reads members none a.fill := .of_text (by simpa using look "fill" (by decide))
  have stroke : strokeField.Reads members none a.stroke := .of_text (by simpa using look "stroke" (by decide))
  have strokeWidth : strokeWidthField.Reads members none a.strokeWidth :=
    .of_number (by simpa using look "strokeWidth" (by decide)) finite.2
  rw [Record.decode_of_passes carries.distinct]
  · simp only [pathRecord, points.getD, closed.getD, fill.getD, stroke.getD, strokeWidth.getD]
  · simp only [pathRecord, List.forall_mem_cons]
    exact ⟨points.passes, closed.passes, fill.passes, stroke.passes, strokeWidth.passes, List.forall_mem_nil _⟩
  · exact List.forall_mem_nil _

private theorem passes_kids (nodes : List Node) : Check.Passes (kidsCheck (.ok nodes)) members :=
  fun _ _ => rfl

variable {children : List Json}

private theorem decode_panel {role : PanelRole} {a : Panel} (nodes : List Node)
    (finite : ∀ x ∈ (Container.panel role a).numbers, x.isFinite = true)
    (carries : Carries members (panelRecord .frame (.ok [])).keys ((Container.panel role a).members children)) :
    (panelRecord role (.ok nodes)).decode members = .ok (.panel role a) := by
  simp only [Container.numbers, List.forall_mem_append] at finite
  have look := carries.look
  simp only [Container.members, Entries.lookup_append, lookup_member, lookup_childrenMember] at look
  have background : backgroundField.Reads members none a.background :=
    .of_text (by simpa using look "background" (by decide))
  have padding : paddingField.Reads members none a.padding :=
    reads_padding (by simpa using look "padding" (by decide)) finite.1
  have radius : radiusField.Reads members none a.radius :=
    .of_number (by simpa using look "radius" (by decide)) finite.2
  rw [Record.decode_of_passes carries.distinct]
  · simp only [panelRecord, background.getD, padding.getD, radius.getD]
  · simp only [panelRecord, List.forall_mem_cons]
    exact ⟨passes_kids nodes, background.passes, padding.passes, radius.passes, List.forall_mem_nil _⟩
  · exact List.forall_mem_nil _

private theorem decode_stack {a : Stack} (nodes : List Node)
    (finite : ∀ x ∈ (Container.stack a).numbers, x.isFinite = true)
    (carries : Carries members (stackRecord (.ok [])).keys ((Container.stack a).members children)) :
    (stackRecord (.ok nodes)).decode members = .ok (.stack a) := by
  simp only [Container.numbers, List.forall_mem_append] at finite
  have look := carries.look
  simp only [Container.members, List.cons_append, List.lookup_cons, Entries.lookup_append, lookup_member,
    lookup_childrenMember] at look
  have direction : directionField.Reads members .column a.direction := by
    refine .of_some (look "direction" (by decide)) ?_
    cases a.direction <;> rfl
  have gap : gapField.Reads members none a.gap := .of_number (by simpa using look "gap" (by decide)) finite.1
  have align : alignField.Reads members none a.align :=
    .of_word (by simpa using look "align" (by decide)) (by rintro ⟨⟩ <;> rfl)
  have justify : justifyField.Reads members none a.justify :=
    .of_word (by simpa using look "justify" (by decide)) (by rintro ⟨⟩ <;> rfl)
  have background : backgroundField.Reads members none a.background :=
    .of_text (by simpa using look "background" (by decide))
  have padding : paddingField.Reads members none a.padding :=
    reads_padding (by simpa using look "padding" (by decide)) finite.2
  rw [Record.decode_of_passes carries.distinct]
  · simp only [stackRecord, direction.getD, gap.getD, align.getD, justify.getD, background.getD, padding.getD]
  · simp only [stackRecord, List.forall_mem_cons]
    exact ⟨direction.passes, gap.passes, align.passes, justify.passes, background.passes, padding.passes,
      passes_kids nodes, List.forall_mem_nil _⟩
  · exact List.forall_mem_nil _

private theorem decode_grid {a : Grid} (nodes : List Node)
    (finite : ∀ x ∈ (Container.grid a).numbers, x.isFinite = true)
    (carries : Carries members (gridRecord (.ok [])).keys ((Container.grid a).members children)) :
    (gridRecord (.ok nodes)).decode members = .ok (.grid a) := by
  simp only [Container.numbers, List.forall_mem_append] at finite
  have look := carries.look
  simp only [Container.members, List.cons_append, List.lookup_cons, Entries.lookup_append, lookup_member,
    lookup_childrenMember] at look
  have columns : columnsField.Reads members 1 a.columns :=
    .of_some (look "columns" (by decide)) (readWord_columns a.columns)
  have gap : gapField.Reads members none a.gap := .of_number (by simpa using look "gap" (by decide)) finite.1
  have background : backgroundField.Reads members none a.background :=
    .of_text (by simpa using look "background" (by decide))
  have padding : paddingField.Reads members none a.padding :=
    reads_padding (by simpa using look "padding" (by decide)) finite.2
  rw [Record.decode_of_passes carries.distinct]
  · simp only [gridRecord, columns.getD, gap.getD, background.getD, padding.getD]
  · simp only [gridRecord, List.forall_mem_cons]
    exact ⟨columns.passes, gap.passes, background.passes, padding.passes, passes_kids nodes, List.forall_mem_nil _⟩
  · exact List.forall_mem_nil _

end Records

section Nodes

variable {header : Header} {kindKeys : List String} {attributes : Members}

private theorem not_mem_extra (wf : header.WellFormed kindKeys) {key : String} (known : key ∈ nodeKeys kindKeys) :
    key ∉ header.extra.map Prod.fst := by
  intro member
  obtain ⟨entry, held, rfl⟩ := List.mem_map.mp member
  exact wf.apart entry held known

private theorem not_mem_rest (wf : header.WellFormed kindKeys) (own : (attributes.map Prod.fst).Sublist kindKeys)
    (distinct : (nodeKeys kindKeys).Nodup) (type : String) {key : String} (common : key ∈ headerRecord.keys) :
    key ∉ (attributes ++ header.extra ++ [("type", Json.string type)]).map Prod.fst := by
  have known : key ∈ nodeKeys kindKeys := List.mem_append_left _ (List.mem_append_left _ common)
  rw [nodeKeys, List.append_assoc, List.nodup_append] at distinct
  simp only [List.map_append, List.map_singleton, List.mem_append, List.mem_singleton]
  rintro ((mine | extra) | rfl)
  · exact distinct.2.2 key common key (List.mem_append_left _ (own.subset mine)) rfl
  · exact not_mem_extra wf known extra
  · exact absurd common (by decide)

private theorem decodeMembers_parts (wf : header.WellFormed kindKeys)
    (own : (attributes.map Prod.fst).Sublist kindKeys) (distinct : (nodeKeys kindKeys).Nodup) (type : String)
    (kids : Kids) :
    decodeMembers kids (parts header attributes type) =
      decodeKind type kids { header with extra := [] } (attributes ++ header.extra) := by
  have carries : Carries (parts header attributes type) headerRecord.keys header.members := by
    refine ⟨nodup_parts wf own distinct type, ?_⟩
    intro key common
    rw [parts, Entries.lookup_append, Entries.lookup_eq_none_iff.mpr (not_mem_rest wf own distinct type common),
      Option.or_none]
  have rest : Entries.without (parts header attributes type) headerRecord.keys =
      attributes ++ header.extra ++ [("type", .string type)] := by
    rw [parts, Entries.without_append, Entries.without_of_mem, Entries.without_of_not_mem, List.nil_append]
    · intro entry member common
      exact not_mem_rest wf own distinct type common (List.mem_map_of_mem member)
    · intro entry member
      exact (keys_headerMembers header).subset (List.mem_map_of_mem member)
  have last : "type" ∉ (attributes ++ header.extra).map Prod.fst := by
    rw [nodeKeys, List.nodup_append] at distinct
    rw [List.map_append, List.mem_append]
    rintro (mine | extra)
    · exact distinct.2.2 "type" (List.mem_append_right _ (own.subset mine)) "type" (List.mem_singleton_self _) rfl
    · exact not_mem_extra wf (List.mem_append_right _ (List.mem_singleton_self _)) extra
  rw [decodeMembers, decode_header wf.finite carries]
  simp only [rest, Entries.takeOut_append_self last]

private theorem carries_attributes (wf : header.WellFormed kindKeys)
    (own : (attributes.map Prod.fst).Sublist kindKeys) (distinct : (nodeKeys kindKeys).Nodup) :
    Carries (attributes ++ header.extra) kindKeys attributes ∧
      Entries.without (attributes ++ header.extra) kindKeys = header.extra := by
  have among (key : String) (known : key ∈ kindKeys) : key ∈ nodeKeys kindKeys :=
    List.mem_append_left _ (List.mem_append_right _ known)
  have all := nodup_parts wf own distinct ""
  rw [parts, List.map_append, List.nodup_append, List.map_append, List.nodup_append] at all
  refine ⟨⟨all.2.1.1, ?_⟩, ?_⟩
  · intro key known
    rw [Entries.lookup_append, Entries.lookup_eq_none_iff.mpr (not_mem_extra wf (among key known)), Option.or_none]
  · rw [Entries.without_append, Entries.without_of_mem, Entries.without_of_not_mem, List.nil_append]
    · intro entry member known
      exact wf.apart entry member (among entry.1 known)
    · intro entry member
      exact own.subset (List.mem_map_of_mem member)

section Lookup

variable {node : Node} {key : String}

theorem Node.lookup_common (wf : node.WellFormed) (common : key ∈ headerRecord.keys) :
    node.members.lookup key = node.header.members.lookup key := by
  have rest := not_mem_rest wf.header node.keys_attributes node.nodup_keys node.typeName common
  rw [(Node.members_eq wf).1, Entries.lookup_append, Entries.lookup_eq_none_iff.mpr rest, Option.or_none]

theorem Node.lookup_type (wf : node.WellFormed) : node.members.lookup "type" = some (.string node.typeName) := by
  refine Entries.lookup_of_mem (Node.members_eq wf).2 ?_
  rw [(Node.members_eq wf).1]
  simp

private theorem lookup_own (wf : node.WellFormed) (own : key ∉ headerRecord.keys) :
    node.members.lookup key =
      (List.lookup key (node.attributes ++ node.header.extra)).or (List.lookup key [("type", .string node.typeName)]) := by
  have common : key ∉ node.header.members.map Prod.fst := fun member => own ((keys_headerMembers _).subset member)
  rw [(Node.members_eq wf).1, Entries.lookup_append, Entries.lookup_eq_none_iff.mpr common, Option.none_or,
    Entries.lookup_append]

theorem Node.lookup_attribute (wf : node.WellFormed) (own : key ∈ node.kindKeys) :
    node.members.lookup key = node.attributes.lookup key := by
  have distinct := node.nodup_keys
  rw [nodeKeys, List.append_assoc, List.nodup_append] at distinct
  have other : key ∉ headerRecord.keys :=
    fun common => distinct.2.2 key common key (List.mem_append_left _ own) rfl
  have type : key ≠ "type" := by
    rintro rfl
    exact (List.nodup_append.mp distinct.2.1).2.2 _ own _ (List.mem_singleton_self _) rfl
  rw [lookup_own wf other, (carries_attributes wf.header node.keys_attributes node.nodup_keys).1.look key own,
    List.lookup_cons, beq_false_of_ne type]
  exact Option.or_none

/-- Under any other name than those that a node makes use of, an extra member is looked up. -/
theorem Node.lookup_extra (wf : node.WellFormed) (other : key ∉ nodeKeys node.kindKeys) :
    node.members.lookup key = node.header.extra.lookup key := by
  simp only [nodeKeys, List.mem_append, List.mem_singleton, not_or] at other
  have attributes : key ∉ node.attributes.map Prod.fst := fun member => other.1.2 (node.keys_attributes.subset member)
  rw [lookup_own wf other.1.1, Entries.lookup_append, Entries.lookup_eq_none_iff.mpr attributes, Option.none_or,
    List.lookup_cons, beq_false_of_ne other.2]
  exact Option.or_none

/-- The extra members of a node are what is left of its members beside those that it makes use of. -/
theorem Node.without_members (wf : node.WellFormed) :
    Entries.without node.members (nodeKeys node.kindKeys) = node.header.extra := by
  have common : ∀ entry ∈ node.header.members, entry.1 ∈ nodeKeys node.kindKeys := fun entry member =>
    List.mem_append_left _ (List.mem_append_left _ ((keys_headerMembers _).subset (List.mem_map_of_mem member)))
  have own : ∀ entry ∈ node.attributes, entry.1 ∈ nodeKeys node.kindKeys := fun entry member =>
    List.mem_append_left _ (List.mem_append_right _ (node.keys_attributes.subset (List.mem_map_of_mem member)))
  have type : ∀ entry ∈ [("type", Json.string node.typeName)], entry.1 ∈ nodeKeys node.kindKeys :=
    List.forall_mem_singleton.mpr (List.mem_append_right _ (List.mem_singleton_self _))
  rw [(Node.members_eq wf).1, Entries.without_append, Entries.without_append, Entries.without_append,
    Entries.without_of_mem common, Entries.without_of_mem own, Entries.without_of_mem type,
    Entries.without_of_not_mem wf.header.apart, List.nil_append, List.nil_append, List.append_nil]

end Lookup

private theorem decodeLeaf_eq {α : Type} {record : Record α} {a : α} {members : Members} (leaf : α → Leaf)
    (decoded : record.decode members = .ok a) (left : Entries.without members record.keys = header.extra) :
    decodeLeaf record leaf { header with extra := [] } members = .ok (.leaf header (leaf a)) := by
  rw [decodeLeaf, decoded]
  exact congrArg (fun extra => Except.ok (Node.leaf { header with extra := extra } (leaf a))) left

private theorem decodeContainer_eq {record : Record Container} {kind : Container} {members : Members}
    (nodes : List Node) (decoded : record.decode members = .ok kind)
    (left : Entries.without members record.keys = header.extra) :
    decodeContainer record (.ok nodes) { header with extra := [] } members = .ok (.container header kind nodes) := by
  rw [decodeContainer, decoded]
  exact congrArg (fun extra => Except.ok (Node.container { header with extra := extra } kind nodes)) left

private theorem decodeKind_leaf {kind : Leaf} (wf : header.WellFormed kind.keys) (fine : kind.WellFormed) (kids : Kids) :
    decodeKind kind.typeName kids { header with extra := [] } (kind.members ++ header.extra) =
      .ok (.leaf header kind) := by
  obtain ⟨carries, left⟩ := carries_attributes wf (keys_leafMembers kind) (nodup_leafKeys kind)
  cases kind with
  | rect a => exact decodeLeaf_eq .rect (decode_rect fine.finite carries) left
  | ellipse a => exact decodeLeaf_eq .ellipse (decode_ellipse fine.finite carries) left
  | text a => exact decodeLeaf_eq .text (decode_label fine.finite carries) left
  | image a => exact decodeLeaf_eq .image (decode_image fine.finite carries) left
  | line a => exact decodeLeaf_eq .line (decode_line fine.finite carries) left
  | path role a =>
    have decoded := decodeLeaf_eq (.path role) (decode_path fine.finite carries) left
    cases role <;> exact decoded
  | unknown type => exact decodeKind_unknown (fine.type type rfl) kids _ _

private theorem decodeKind_container {kind : Container} (wf : header.WellFormed kind.keys)
    (finite : ∀ x ∈ kind.numbers, x.isFinite = true) (children : List Json) (nodes : List Node) :
    decodeKind kind.typeName (.ok nodes) { header with extra := [] } (kind.members children ++ header.extra) =
      .ok (.container header kind nodes) := by
  obtain ⟨carries, left⟩ := carries_attributes wf (keys_containerMembers children kind) (nodup_containerKeys kind)
  cases kind with
  | panel role a =>
    have decoded := decodeContainer_eq nodes (decode_panel nodes finite carries) left
    cases role <;> exact decoded
  | stack a => exact decodeContainer_eq nodes (decode_stack nodes finite carries) left
  | grid a => exact decodeContainer_eq nodes (decode_grid nodes finite carries) left

theorem lookup_containerMembers (children : List Json) (kind : Container) :
    (kind.members children).lookup "children" = if children.isEmpty then none else some (.array children) := by
  cases kind <;>
    simp [Container.members, List.lookup_cons, Entries.lookup_append, lookup_member, lookup_childrenMember]

/-- The children of a container are under their name, and there is no such name when there are none. -/
theorem Node.lookup_children {kind : Container} {children : List Node}
    (wf : (Node.container header kind children).WellFormed) :
    (Node.container header kind children).members.lookup "children" =
      if children.isEmpty then none else some (.array (Node.encodeAll children)) := by
  have known : "children" ∈ kind.keys := by
    cases kind with
    | panel role a => exact (by decide : "children" ∈ (panelRecord .frame (.ok [])).keys)
    | stack a => exact (by decide : "children" ∈ (stackRecord (.ok [])).keys)
    | grid a => exact (by decide : "children" ∈ (gridRecord (.ok [])).keys)
  have none : (Node.encodeAll children).isEmpty = children.isEmpty := by cases children <;> rfl
  rw [Node.lookup_attribute wf known, ← none]
  exact lookup_containerMembers (Node.encodeAll children) kind

mutual

theorem Node.decode_encode (node : Node) (wf : node.WellFormed) : Node.decode node.encode = .ok node :=
  match node with
  | .leaf header kind => by
    rw [Node.encode_eq wf, Node.decode, (Node.members_eq wf).1]
    exact (decodeMembers_parts wf.1 (keys_leafMembers kind) (nodup_leafKeys kind) kind.typeName _).trans
      (decodeKind_leaf wf.1 wf.2 _)
  | .container header kind children => by
    have kids : decodeKids (Node.container header kind children).members = .ok children := by
      have below := decodeAll_encodeAll children wf.2.2
      rw [decodeKids_eq, Node.lookup_children wf]
      cases children with
      | nil => rfl
      | cons node rest => exact below
    have own := keys_containerMembers (Node.encodeAll children) kind
    rw [Node.encode_eq wf, Node.decode, kids, (Node.members_eq wf).1]
    exact (decodeMembers_parts wf.1 own (nodup_containerKeys kind) kind.typeName _).trans
      (decodeKind_container wf.1 wf.2.1 _ _)

private theorem decodeAll_encodeAll (nodes : List Node) (wf : Node.AllWellFormed nodes) :
    decodeAll (Node.encodeAll nodes) = .ok nodes :=
  match nodes with
  | [] => rfl
  | node :: rest => by
    have first : Node.decode (merged node.members) = .ok node := Node.decode_encode node wf.1
    rw [Node.encodeAll, decodeAll, first, decodeAll_encodeAll rest wf.2]

end

theorem Tree.decode_encode {tree : Tree} (wf : tree.WellFormed) : Tree.decode tree.encode = .ok tree := by
  let members := tree.members tree.root.encode
  have distinct := Tree.nodup_members wf tree.root.encode
  have look (key : String) := Tree.lookup_members tree tree.root.encode key
  have found : members.lookup "root" = some tree.root.encode := look "root"
  have version : versionField.Reads members none tree.version := by
    refine .of_text ((look "version").trans ?_)
    simp [wf.lookup_extra (by decide : "version" ∈ treeRecord.keys)]
  have name : nameField.Reads members none tree.name := by
    refine .of_text ((look "name").trans ?_)
    simp [wf.lookup_extra (by decide : "name" ∈ treeRecord.keys)]
  have root : rootField.Reads members (.leaf { id := "" } (.unknown "")) tree.root :=
    .of_some found (Node.decode_encode tree.root wf.root)
  have built : treeRecord.build members = { tree with extra := [] } := by
    simp only [treeRecord, version.getD, name.getD, root.getD]
  rw [Tree.encode_eq wf, Tree.decode, Record.decode_of_passes distinct]
  · rw [show treeRecord.build (tree.members _) = _ from built]
    exact congrArg (fun extra => Except.ok { tree with extra := extra }) (Tree.without_members wf _)
  · simp only [treeRecord, List.forall_mem_cons]
    exact ⟨version.passes, name.passes, root.passes, List.forall_mem_nil _⟩
  · exact List.forall_mem_singleton.mpr ⟨_, found⟩

end Nodes

end Handoff.Design
