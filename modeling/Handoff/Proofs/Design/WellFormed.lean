import Handoff.Proofs.Design.Extra

set_option autoImplicit false
set_option relaxedAutoImplicit false

/-!
Designs that keep what they say where it belongs: finite numbers, and no extra member under a name that the design,
the node or its kind has a use for.
-/

namespace Handoff.Design

def Padding.numbers : Padding → List Float
  | .uniform value => [value]
  | .sides top right bottom left => [top, right, bottom, left]

def FontWeight.numbers : FontWeight → List Float
  | .numeric value => [value]
  | .keyword _ => []

/-- The numbers of the attributes that every node may have. -/
def Header.numbers (h : Header) : List Float :=
  (h.position.toList.flatMap fun p => [p.x, p.y]) ++ (h.size.toList.flatMap fun s => [s.width, s.height])
    ++ h.opacity.toList

def Container.numbers : Container → List Float
  | .panel _ a => a.padding.toList.flatMap Padding.numbers ++ a.radius.toList
  | .stack a => a.gap.toList ++ a.padding.toList.flatMap Padding.numbers
  | .grid a => a.gap.toList ++ a.padding.toList.flatMap Padding.numbers

def Leaf.numbers : Leaf → List Float
  | .rect a => a.strokeWidth.toList ++ a.radius.toList
  | .ellipse a => a.strokeWidth.toList
  | .text a => a.fontSize.toList ++ a.fontWeight.toList.flatMap FontWeight.numbers
  | .image a => a.radius.toList
  | .line a => [a.points.x1, a.points.y1, a.points.x2, a.points.y2] ++ a.strokeWidth.toList
  | .path _ a => a.points ++ a.strokeWidth.toList
  | .unknown _ => []

/-- The names of the attributes of a container. -/
def Container.keys : Container → List String
  | .panel role _ => (panelRecord role (.ok [])).keys
  | .stack _ => (stackRecord (.ok [])).keys
  | .grid _ => (gridRecord (.ok [])).keys

/-- The names of the attributes of a leaf. -/
def Leaf.keys : Leaf → List String
  | .rect _ => rectRecord.keys
  | .ellipse _ => ellipseRecord.keys
  | .text _ => labelRecord.keys
  | .image _ => imageRecord.keys
  | .line _ => lineRecord.keys
  | .path _ _ => pathRecord.keys
  | .unknown _ => []

/-- The names that a node whose kind has the given ones makes use of. -/
def nodeKeys (kindKeys : List String) : List String :=
  headerRecord.keys ++ kindKeys ++ ["type"]

/-- Finite numbers, and sound extra members under none of the names of a node. -/
structure Header.WellFormed (kindKeys : List String) (h : Header) : Prop where
  finite : ∀ x ∈ h.numbers, x.isFinite = true
  sound : h.Sound
  apart : ∀ entry ∈ h.extra, entry.1 ∉ nodeKeys kindKeys

/-- Finite numbers, and no type of its own that another kind has. -/
structure Leaf.WellFormed (kind : Leaf) : Prop where
  finite : ∀ x ∈ kind.numbers, x.isFinite = true
  type : ∀ type, kind = .unknown type → type ∉ typeNames

mutual

/-- Every node from a node down is well-formed. -/
def Node.WellFormed : Node → Prop
  | .leaf header kind => header.WellFormed kind.keys ∧ kind.WellFormed
  | .container header kind children =>
    header.WellFormed kind.keys ∧ (∀ x ∈ kind.numbers, x.isFinite = true) ∧ Node.AllWellFormed children

def Node.AllWellFormed : List Node → Prop
  | [] => True
  | node :: rest => node.WellFormed ∧ Node.AllWellFormed rest

end

/-- Well-formed nodes, and sound extra members under none of the names of a design. -/
structure Tree.WellFormed (tree : Tree) : Prop where
  root : tree.root.WellFormed
  sound : (Json.object tree.extra).Sound
  apart : ∀ entry ∈ tree.extra, entry.1 ∉ treeRecord.keys

mutual

theorem Node.WellFormed.sound (node : Node) (h : node.WellFormed) : node.Sound :=
  match node with
  | .leaf _ _ => h.1.sound
  | .container _ _ children => ⟨h.1.sound, Node.AllWellFormed.sound children h.2.2⟩

private theorem Node.AllWellFormed.sound (nodes : List Node) (h : Node.AllWellFormed nodes) : Node.AllSound nodes :=
  match nodes with
  | [] => trivial
  | node :: rest => ⟨Node.WellFormed.sound node h.1, Node.AllWellFormed.sound rest h.2⟩

end

theorem Tree.WellFormed.tree_sound {tree : Tree} (h : tree.WellFormed) : tree.Sound :=
  ⟨Node.WellFormed.sound tree.root h.root, h.sound⟩

section Encoding

private theorem sound_ofFloat (x : Float) : (Json.ofFloat x).Sound := by
  unfold Json.ofFloat
  split
  · rename_i finite
    exact finite
  · trivial

private theorem sound_point (p : Point) : p.encode.Sound :=
  ⟨by simp, sound_ofFloat p.x, sound_ofFloat p.y, trivial⟩

private theorem sound_size (s : Size) : s.encode.Sound :=
  ⟨by simp, sound_ofFloat s.width, sound_ofFloat s.height, trivial⟩

private theorem sound_padding (p : Padding) : p.encode.Sound := by
  cases p with
  | uniform value => exact sound_ofFloat value
  | sides top right bottom left =>
    exact ⟨by simp, sound_ofFloat top, sound_ofFloat right, sound_ofFloat bottom, sound_ofFloat left, trivial⟩

private theorem sound_fontWeight (w : FontWeight) : w.encode.Sound := by
  cases w with
  | numeric value => exact sound_ofFloat value
  | keyword word => trivial

private theorem sound_segment (s : Segment) : s.encode.Sound :=
  ⟨sound_ofFloat s.x1, sound_ofFloat s.y1, sound_ofFloat s.x2, sound_ofFloat s.y2, trivial⟩

private theorem sound_floats (xs : List Float) : (Json.array (xs.map .ofFloat)).Sound := by
  refine Json.soundItems_iff.mpr ?_
  intro v member
  obtain ⟨x, -, rfl⟩ := List.mem_map.mp member
  exact sound_ofFloat x

private theorem sound_columns (n : UInt32) : (Json.int n.toNat).Sound := by
  have bound : n.toNat < 2 ^ 32 := n.toNat_lt
  have size : UInt64.size = 2 ^ 64 := rfl
  constructor <;> omega

private theorem sound_member {α : Type} (key : String) {encode : α → Json} (sound : ∀ a, (encode a).Sound)
    (o : Option α) : ∀ entry ∈ member key encode o, entry.2.Sound := by
  cases o with
  | none => exact nofun
  | some a => exact List.forall_mem_singleton.mpr (sound a)

private theorem sound_word {α : Type} (key : String) (name : α → String) (o : Option α) :
    ∀ entry ∈ member key (fun a => .string (name a)) o, entry.2.Sound := by
  apply sound_member
  exact fun _ => trivial

private theorem sound_text (key : String) (o : Option String) :
    ∀ entry ∈ member key .string o, entry.2.Sound :=
  sound_word key id o

private theorem sound_number (key : String) (o : Option Float) :
    ∀ entry ∈ member key .ofFloat o, entry.2.Sound :=
  sound_member key sound_ofFloat o

private theorem sound_headerMembers (h : Header) : ∀ entry ∈ h.members, entry.2.Sound := by
  simp only [Header.members, List.cons_append, List.forall_mem_cons, List.forall_mem_append]
  exact ⟨trivial, ⟨⟨sound_text _ _, sound_member _ sound_point _⟩, sound_member _ sound_size _⟩, sound_number _ _⟩

private theorem sound_leafMembers (kind : Leaf) : ∀ entry ∈ kind.members, entry.2.Sound := by
  cases kind with
  | rect a =>
    simp only [Leaf.members, List.forall_mem_append]
    exact ⟨⟨⟨sound_text _ _, sound_text _ _⟩, sound_number _ _⟩, sound_number _ _⟩
  | ellipse a =>
    simp only [Leaf.members, List.forall_mem_append]
    exact ⟨⟨sound_text _ _, sound_text _ _⟩, sound_number _ _⟩
  | text a =>
    simp only [Leaf.members, List.cons_append, List.forall_mem_cons, List.forall_mem_append]
    exact ⟨trivial, ⟨⟨⟨⟨⟨sound_text _ _, sound_text _ _⟩, sound_number _ _⟩, sound_member _ sound_fontWeight _⟩,
      sound_word _ _ _⟩, sound_word _ _ _⟩, sound_word _ _ _⟩
  | image a =>
    simp only [Leaf.members, List.cons_append, List.forall_mem_cons, List.forall_mem_append]
    exact ⟨trivial, ⟨sound_text _ _, sound_number _ _⟩, sound_word _ _ _⟩
  | line a =>
    simp only [Leaf.members, List.cons_append, List.forall_mem_cons, List.forall_mem_append]
    exact ⟨sound_segment _, sound_text _ _, sound_number _ _⟩
  | path role a =>
    simp only [Leaf.members, List.cons_append, List.forall_mem_cons, List.forall_mem_append]
    refine ⟨sound_floats _, ⟨⟨?_, sound_text _ _⟩, sound_text _ _⟩, sound_number _ _⟩
    cases a.closed with
    | false => exact nofun
    | true => exact List.forall_mem_singleton.mpr trivial
  | unknown type => exact nofun

private theorem sound_containerMembers {children : List Json} (sound : ∀ v ∈ children, v.Sound) (kind : Container) :
    ∀ entry ∈ kind.members children, entry.2.Sound := by
  have below : ∀ entry ∈ childrenMember children, entry.2.Sound := by
    unfold childrenMember
    split
    · exact List.forall_mem_nil _
    · exact List.forall_mem_singleton.mpr (Json.soundItems_iff.mpr sound)
  cases kind with
  | panel role a =>
    simp only [Container.members, List.forall_mem_append]
    exact ⟨⟨⟨below, sound_text _ _⟩, sound_member _ sound_padding _⟩, sound_number _ _⟩
  | stack a =>
    simp only [Container.members, List.cons_append, List.forall_mem_cons, List.forall_mem_append]
    exact ⟨trivial, ⟨⟨⟨⟨sound_number _ _, sound_word _ _ _⟩, sound_word _ _ _⟩, sound_text _ _⟩, sound_member _ sound_padding _⟩, below⟩
  | grid a =>
    simp only [Container.members, List.cons_append, List.forall_mem_cons, List.forall_mem_append]
    exact ⟨sound_columns _, ⟨⟨sound_number _ _, sound_text _ _⟩, sound_member _ sound_padding _⟩, below⟩

private theorem sound_merged {header : Header} (sound : header.Sound) {attributes : Members}
    (own : ∀ entry ∈ attributes, entry.2.Sound) (type : String) :
    (merged (header.members ++ kindMembers attributes header.extra type)).Sound := by
  refine Json.sound_putAll .nil (List.forall_mem_nil _) (List.forall_mem_append.mpr ⟨sound_headerMembers header, ?_⟩)
  intro entry member
  rcases Entries.mem_of_mem_putAll member with none | member
  · exact absurd none List.not_mem_nil
  · rcases List.mem_append.mp member with member | member
    · rcases List.mem_append.mp member with member | member
      · exact own entry member
      · exact sound.of_mem member
    · exact List.mem_singleton.mp member ▸ trivial

mutual

theorem Node.sound_encode (node : Node) (sound : node.Sound) : node.encode.Sound :=
  match node with
  | .leaf _ kind => sound_merged sound (sound_leafMembers kind) _
  | .container _ kind children =>
    sound_merged sound.1 (sound_containerMembers (sound_encodeAll children sound.2) kind) _

private theorem sound_encodeAll (nodes : List Node) (sound : Node.AllSound nodes) :
    ∀ v ∈ Node.encodeAll nodes, v.Sound :=
  match nodes with
  | [] => nofun
  | node :: rest => List.forall_mem_cons.mpr ⟨Node.sound_encode node sound.1, sound_encodeAll rest sound.2⟩

end

theorem Tree.sound_encode {tree : Tree} (sound : tree.Sound) : tree.encode.Sound := by
  refine Json.sound_putAll .nil (List.forall_mem_nil _) ?_
  simp only [Tree.members, List.forall_mem_cons, List.forall_mem_append]
  exact ⟨⟨sound_text _ _, sound_text _ _⟩, Node.sound_encode tree.root sound.root, fun _ member => sound.extra.of_mem member⟩

end Encoding

end Handoff.Design
