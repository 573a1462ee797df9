import Handoff.Proofs.Decimal.Whole
import Handoff.Proofs.Design.Grammar
import Handoff.Proofs.Design.WellFormed
import Handoff.Proofs.Json.RoundTrip

set_option autoImplicit false
set_option relaxedAutoImplicit false

/-!
Designs that are read are well-formed: what a document writes has finite numbers only, and what a node has no use for
is what is left to its extra members.
-/

namespace Handoff.Design

abbrev AllFinite (xs : List Float) : Prop :=
  ∀ x ∈ xs, x.isFinite = true

def MakesFinite {α : Type} (numbers : α → List Float) (read : Reader α) : Prop :=
  ∀ v a, v.Sound → read v = .ok a → AllFinite (numbers a)

section Readers

variable {α : Type} {numbers : α → List Float}

theorem allFinite_getD (field : Field α) (finite : MakesFinite numbers field.read) {members : Members}
    (sound : (Json.object members).Sound) {default : α} (fallback : AllFinite (numbers default)) :
    AllFinite (numbers (field.getD members default)) := by
  unfold Field.getD
  cases found : members.lookup field.key with
  | none => exact fallback
  | some v =>
    cases read : field.read v with
    | error fault =>
      simp only [read]
      exact fallback
    | ok a =>
      simp only [read]
      exact finite v a (sound.of_lookup found) read

private theorem finite_number : MakesFinite (fun x => [x]) readNumber := by
  intro v x sound h
  cases v with
  | int n =>
    cases h
    exact List.forall_mem_singleton.mpr (Json.isFinite_wholeFloat sound.1 sound.2)
  | float y =>
    cases h
    exact List.forall_mem_singleton.mpr sound
  | null | bool _ | string _ | array _ | object _ => cases h

private theorem finite_optional {read : Reader α} (finite : MakesFinite numbers read) :
    MakesFinite (fun o => o.toList.flatMap numbers) (readOptional read) := by
  intro v o sound h
  have inner (h : (read v).map some = .ok o) : AllFinite (o.toList.flatMap numbers) := by
    cases found : read v with
    | error fault =>
      rw [found] at h
      cases h
    | ok a =>
      rw [found] at h
      cases h
      simpa using finite v a sound found
  cases v with
  | null =>
    cases h
    exact nofun
  | bool _ | int _ | float _ | string _ | array _ | object _ => exact inner h

private theorem finite_optional_number : MakesFinite Option.toList (readOptional readNumber) := by
  intro v o sound h
  have all := finite_optional finite_number v o sound h
  cases o with
  | none => exact nofun
  | some x => exact all

private theorem finite_each {items : List Json} (sound : ∀ v ∈ items, v.Sound) {xs : List Float}
    (h : readEach readNumber items = .ok xs) : AllFinite xs := by
  induction items generalizing xs with
  | nil =>
    cases h
    exact nofun
  | cons v vs ih =>
    rw [List.forall_mem_cons] at sound
    rw [readEach] at h
    split at h
    · cases h
    · rename_i x first
      split at h
      · cases h
      · rename_i rest others
        cases h
        have here := finite_number v x sound.1 first
        exact List.forall_mem_cons.mpr ⟨here x (List.mem_singleton_self x), ih sound.2 others⟩

private theorem finite_numbers : MakesFinite id readNumbers := by
  intro v xs sound h
  cases v with
  | array items => exact finite_each (Json.soundItems_iff.mp sound) h
  | null | bool _ | int _ | float _ | string _ | object _ => cases h

private theorem finite_tuple {count : Nat} {expected : Expected} {items : List Json} (sound : ∀ v ∈ items, v.Sound)
    {xs : List Float} (h : readTuple count expected items = .ok xs) : AllFinite xs := by
  rw [readTuple] at h
  split at h
  · cases h
  · rename_i ys each
    have all := finite_each (fun v member => sound v (List.mem_of_mem_take member)) each
    split at h
    · cases h
    · split at h
      · cases h
      · cases h
        exact all

private theorem finite_side {members : Members} (sound : (Json.object members).Sound) (key : String) :
    (Field.getD ⟨key, readNumber⟩ members 0).isFinite = true := by
  have zero : AllFinite [(0 : Float)] := List.forall_mem_singleton.mpr rfl
  have all := allFinite_getD ⟨key, readNumber⟩ finite_number sound zero
  exact all _ (List.mem_singleton_self _)

private theorem finite_pair {first second : String} {expected : Expected} {build : Float → Float → α}
    (parts : ∀ x y, numbers (build x y) = [x, y]) : MakesFinite numbers (readPair first second expected build) := by
  intro v a sound h
  cases v with
  | null | bool _ | int _ | float _ | string _ => cases h
  | array items =>
    rw [readPair] at h
    split at h
    · cases h
    · rename_i x y tuple
      cases h
      rw [parts]
      exact finite_tuple (Json.soundItems_iff.mp sound) tuple
    · cases h
  | object members =>
    rw [readPair] at h
    obtain ⟨-, -, rfl⟩ := Record.decode_eq_ok.mp h
    rw [parts]
    exact List.forall_mem_cons.mpr ⟨finite_side sound first, List.forall_mem_singleton.mpr (finite_side sound second)⟩

private theorem finite_point : MakesFinite (fun p => [p.x, p.y]) readPoint :=
  finite_pair fun _ _ => rfl

private theorem finite_size : MakesFinite (fun s => [s.width, s.height]) readSize :=
  finite_pair fun _ _ => rfl

private theorem finite_segment : MakesFinite (fun s => [s.x1, s.y1, s.x2, s.y2]) readSegment := by
  intro v s sound h
  cases v with
  | null | bool _ | int _ | float _ | string _ | object _ => cases h
  | array items =>
    rw [readSegment] at h
    split at h
    · cases h
    · rename_i x1 y1 x2 y2 tuple
      cases h
      exact finite_tuple (Json.soundItems_iff.mp sound) tuple
    · cases h

private theorem finite_fontWeight : MakesFinite FontWeight.numbers readFontWeight := by
  intro v w sound h
  cases v with
  | int n =>
    cases h
    exact List.forall_mem_singleton.mpr (Json.isFinite_wholeFloat sound.1 sound.2)
  | float x =>
    cases h
    exact List.forall_mem_singleton.mpr sound
  | string word =>
    cases h
    exact nofun
  | null | bool _ | array _ | object _ => cases h

private theorem finite_padding : MakesFinite Padding.numbers readPadding := by
  intro v p sound h
  cases v with
  | int n =>
    cases h
    exact List.forall_mem_singleton.mpr (Json.isFinite_wholeFloat sound.1 sound.2)
  | float x =>
    cases h
    exact List.forall_mem_singleton.mpr sound
  | null | bool _ | string _ | array _ => cases h
  | object members =>
    rw [readPadding] at h
    split at h
    · rename_i padding decoded
      cases h
      obtain ⟨-, -, rfl⟩ := Record.decode_eq_ok.mp decoded
      have side (key : String) : ((sideField key).getD members 0).isFinite = true := finite_side sound key
      exact List.forall_mem_cons.mpr ⟨side _, List.forall_mem_cons.mpr ⟨side _,
        List.forall_mem_cons.mpr ⟨side _, List.forall_mem_singleton.mpr (side _)⟩⟩⟩
    · cases h

end Readers

section Records

variable {members : Members}

private theorem finite_optionalField {α : Type} {numbers : α → List Float} {read : Reader α}
    (finite : MakesFinite numbers read) (sound : (Json.object members).Sound) (key : String) :
    AllFinite (((optionalField key read).getD members none).toList.flatMap numbers) := by
  have none : AllFinite ((none : Option α).toList.flatMap numbers) := nofun
  exact allFinite_getD (optionalField key read) (finite_optional finite) sound none

private theorem finite_numberField (sound : (Json.object members).Sound) (key : String) :
    AllFinite ((optionalField key readNumber).getD members none).toList := by
  have none : AllFinite (none : Option Float).toList := nofun
  exact allFinite_getD (optionalField key readNumber) finite_optional_number sound none

private theorem finite_paddingField (sound : (Json.object members).Sound) :
    AllFinite ((paddingField.getD members none).toList.flatMap Padding.numbers) :=
  finite_optionalField finite_padding sound "padding"

private theorem finite_header (sound : (Json.object members).Sound) :
    AllFinite (headerRecord.build members).numbers := by
  have position := finite_optionalField finite_point sound "position"
  have size := finite_optionalField finite_size sound "size"
  have opacity := finite_numberField sound "opacity"
  exact List.forall_mem_append.mpr ⟨List.forall_mem_append.mpr ⟨position, size⟩, opacity⟩

private theorem finite_panel (sound : (Json.object members).Sound) (role : PanelRole) (kids : Kids) :
    AllFinite ((panelRecord role kids).build members).numbers :=
  List.forall_mem_append.mpr ⟨finite_paddingField sound, finite_numberField sound "radius"⟩

private theorem finite_stack (sound : (Json.object members).Sound) (kids : Kids) :
    AllFinite ((stackRecord kids).build members).numbers :=
  List.forall_mem_append.mpr ⟨finite_numberField sound "gap", finite_paddingField sound⟩

private theorem finite_grid (sound : (Json.object members).Sound) (kids : Kids) :
    AllFinite ((gridRecord kids).build members).numbers :=
  List.forall_mem_append.mpr ⟨finite_numberField sound "gap", finite_paddingField sound⟩

private theorem finite_rect (sound : (Json.object members).Sound) :
    AllFinite (Leaf.rect (rectRecord.build members)).numbers :=
  List.forall_mem_append.mpr ⟨finite_numberField sound "strokeWidth", finite_numberField sound "radius"⟩

private theorem finite_ellipse (sound : (Json.object members).Sound) :
    AllFinite (Leaf.ellipse (ellipseRecord.build members)).numbers :=
  finite_numberField sound "strokeWidth"

private theorem finite_label (sound : (Json.object members).Sound) :
    AllFinite (Leaf.text (labelRecord.build members)).numbers := by
  have weight := finite_optionalField finite_fontWeight sound "fontWeight"
  exact List.forall_mem_append.mpr ⟨finite_numberField sound "fontSize", weight⟩

private theorem finite_image (sound : (Json.object members).Sound) :
    AllFinite (Leaf.image (imageRecord.build members)).numbers :=
  finite_numberField sound "radius"

private theorem finite_line (sound : (Json.object members).Sound) :
    AllFinite (Leaf.line (lineRecord.build members)).numbers := by
  have origin : AllFinite [({} : Segment).x1, ({} : Segment).y1, ({} : Segment).x2, ({} : Segment).y2] := by decide
  have ends := allFinite_getD segmentField finite_segment sound origin
  exact List.forall_mem_append.mpr ⟨ends, finite_numberField sound "strokeWidth"⟩

private theorem finite_path (sound : (Json.object members).Sound) (role : PathRole) :
    AllFinite (Leaf.path role (pathRecord.build members)).numbers := by
  have none : AllFinite (id []) := nofun
  have points : AllFinite _ := allFinite_getD pointsField finite_numbers sound none
  exact List.forall_mem_append.mpr ⟨points, finite_numberField sound "strokeWidth"⟩

/-- Attributes that are written because the members have them, besides the children and those that always are. -/
def Given (members : Members) (always : List String) (attributes : Members) : Prop :=
  ∀ entry ∈ attributes, entry.1 = "children" ∨ entry.1 ∈ always ∨ ∃ v, members.lookup entry.1 = some v

variable {always : List String}

private theorem given_append {first second : Members} (h : Given members always first)
    (h' : Given members always second) : Given members always (first ++ second) :=
  List.forall_mem_append.mpr ⟨h, h'⟩

private theorem given_always {key : String} {v : Json} {rest : Members} (h : Given members [key] rest) :
    Given members [key] ((key, v) :: rest) :=
  List.forall_mem_cons.mpr ⟨.inr (.inl (List.mem_singleton_self key)), h⟩

private theorem given_field {α : Type} {key : String} {read : Reader α} {encode : α → Json} :
    Given members always (member key encode ((optionalField key read).getD members none)) := by
  cases found : members.lookup key with
  | none =>
    have absent : (optionalField key read).getD members none = none := by
      simp only [Field.getD, optionalField, found]
    rw [absent]
    exact List.forall_mem_nil _
  | some v =>
    cases (optionalField key read).getD members none with
    | none => exact List.forall_mem_nil _
    | some a => exact List.forall_mem_singleton.mpr (.inr (.inr ⟨v, found⟩))

private theorem given_children (children : List Json) : Given members always (childrenMember children) := by
  unfold childrenMember
  split
  · exact List.forall_mem_nil _
  · exact List.forall_mem_singleton.mpr (.inl rfl)

private theorem given_closed :
    Given members always (if closedField.getD members false then [("closed", Json.bool true)] else []) := by
  cases found : members.lookup "closed" with
  | none =>
    have absent : closedField.getD members false = false := by simp only [Field.getD, closedField, found]
    rw [absent]
    exact List.forall_mem_nil _
  | some v =>
    split
    · exact List.forall_mem_singleton.mpr (.inr (.inr ⟨v, found⟩))
    · exact List.forall_mem_nil _

private theorem given_panel (role : PanelRole) (kids : Kids) (children : List Json) :
    Given members [] (((panelRecord role kids).build members).members children) :=
  given_append (given_append (given_append (given_children children) given_field) given_field) given_field

private theorem given_stack (kids : Kids) (children : List Json) :
    Given members ["direction"] (((stackRecord kids).build members).members children) :=
  given_always (given_append (given_append (given_append (given_append (given_append given_field given_field)
    given_field) given_field) given_field) (given_children children))

private theorem given_grid (kids : Kids) (children : List Json) :
    Given members ["columns"] (((gridRecord kids).build members).members children) :=
  given_always (given_append (given_append (given_append given_field given_field) given_field)
    (given_children children))

private theorem given_rect : Given members [] (Leaf.rect (rectRecord.build members)).members :=
  given_append (given_append (given_append given_field given_field) given_field) given_field

private theorem given_ellipse : Given members [] (Leaf.ellipse (ellipseRecord.build members)).members :=
  given_append (given_append given_field given_field) given_field

private theorem given_label : Given members ["text"] (Leaf.text (labelRecord.build members)).members :=
  given_always (given_append (given_append (given_append (given_append (given_append (given_append given_field
    given_field) given_field) given_field) given_field) given_field) given_field)

private theorem given_image : Given members ["src"] (Leaf.image (imageRecord.build members)).members :=
  given_always (given_append (given_append given_field given_field) given_field)

private theorem given_line : Given members ["points"] (Leaf.line (lineRecord.build members)).members :=
  given_always (given_append given_field given_field)

private theorem given_path (role : PathRole) :
    Given members ["points"] (Leaf.path role (pathRecord.build members)).members :=
  given_always (given_append (given_append (given_append given_closed given_field) given_field)
    given_field)

/-- What the nodes of a type are made of: a record of the type's attributes, whose values have finite numbers and are
written as they were given, or nothing. -/
inductive Builds (type : String) : Prop
  | container (record : Kids → Record Container)
      (typed : ∀ kids members, ((record kids).build members).typeName = type)
      (keys : ∀ kids members, ((record kids).build members).keys = (record kids).keys)
      (finite : ∀ kids members, (Json.object members).Sound → AllFinite ((record kids).build members).numbers)
      (given : ∀ kids members children,
        Given members (Shape.alwaysWritten type) (((record kids).build members).members children))
      (reads : ∀ kids header members,
        decodeKind type kids header members = decodeContainer (record kids) kids header members)
  | leaf {α : Type} (record : Record α) (leaf : α → Leaf) (typed : ∀ a, (leaf a).typeName = type)
      (keys : ∀ a, (leaf a).keys = record.keys)
      (known : ∀ a type, leaf a ≠ .unknown type)
      (finite : ∀ members, (Json.object members).Sound → AllFinite (leaf (record.build members)).numbers)
      (given : ∀ members, Given members (Shape.alwaysWritten type) (leaf (record.build members)).members)
      (reads : ∀ kids header members, decodeKind type kids header members = decodeLeaf record leaf header members)
  | unknown (other : type ∉ typeNames)

theorem builds (type : String) : Builds type := by
  by_cases known : type ∈ typeNames
  · simp only [typeNames, List.mem_cons, List.not_mem_nil, or_false] at known
    rcases known with rfl | rfl | rfl | rfl | rfl | rfl | rfl | rfl | rfl | rfl | rfl | rfl | rfl
    · exact .container _ (fun _ _ => rfl) (fun _ _ => rfl) (fun kids _ sound => finite_panel sound .frame kids)
        (fun kids _ => given_panel .frame kids) fun _ _ _ => rfl
    · exact .container _ (fun _ _ => rfl) (fun _ _ => rfl) (fun kids _ sound => finite_panel sound .box kids)
        (fun kids _ => given_panel .box kids) fun _ _ _ => rfl
    · exact .container _ (fun _ _ => rfl) (fun _ _ => rfl) (fun kids _ sound => finite_panel sound .group kids)
        (fun kids _ => given_panel .group kids) fun _ _ _ => rfl
    · exact .container _ (fun _ _ => rfl) (fun _ _ => rfl) (fun kids _ sound => finite_stack sound kids)
        (fun kids _ => given_stack kids) fun _ _ _ => rfl
    · exact .container _ (fun _ _ => rfl) (fun _ _ => rfl) (fun kids _ sound => finite_grid sound kids)
        (fun kids _ => given_grid kids) fun _ _ _ => rfl
    · exact .leaf rectRecord .rect (fun _ => rfl) (fun _ => rfl) (fun _ _ => Leaf.noConfusion) (fun _ => finite_rect)
        (fun _ => given_rect) fun _ _ _ => rfl
    · exact .leaf ellipseRecord .ellipse (fun _ => rfl) (fun _ => rfl) (fun _ _ => Leaf.noConfusion)
        (fun _ => finite_ellipse) (fun _ => given_ellipse) fun _ _ _ => rfl
    · exact .leaf labelRecord .text (fun _ => rfl) (fun _ => rfl) (fun _ _ => Leaf.noConfusion) (fun _ => finite_label)
        (fun _ => given_label) fun _ _ _ => rfl
    · exact .leaf imageRecord .image (fun _ => rfl) (fun _ => rfl) (fun _ _ => Leaf.noConfusion) (fun _ => finite_image)
        (fun _ => given_image) fun _ _ _ => rfl
    · exact .leaf lineRecord .line (fun _ => rfl) (fun _ => rfl) (fun _ _ => Leaf.noConfusion) (fun _ => finite_line)
        (fun _ => given_line) fun _ _ _ => rfl
    · exact .leaf pathRecord (.path .curve) (fun _ => rfl) (fun _ => rfl) (fun _ _ => Leaf.noConfusion)
        (fun _ sound => finite_path sound .curve) (fun _ => given_path .curve) fun _ _ _ => rfl
    · exact .leaf pathRecord (.path .polygon) (fun _ => rfl) (fun _ => rfl) (fun _ _ => Leaf.noConfusion)
        (fun _ sound => finite_path sound .polygon) (fun _ => given_path .polygon) fun _ _ _ => rfl
    · exact .leaf pathRecord (.path .draw) (fun _ => rfl) (fun _ => rfl) (fun _ _ => Leaf.noConfusion)
        (fun _ sound => finite_path sound .draw) (fun _ => given_path .draw) fun _ _ _ => rfl
  · exact .unknown known

end Records

section Nodes

variable {header : Header} {members : Members}

/-- What is left of members that are not common and no type goes to the extra ones, under no name of the node. -/
private theorem wellFormed_header (finite : AllFinite header.numbers) (sound : (Json.object members).Sound)
    (apart : ∀ entry ∈ members, entry.1 ≠ "type" ∧ entry.1 ∉ headerRecord.keys) (keys : List String) :
    Header.WellFormed keys { header with extra := members.without keys } := by
  refine ⟨finite, sound.without keys, ?_⟩
  intro entry member
  obtain ⟨held, out⟩ := List.mem_filter.mp member
  have own : entry.1 ∉ keys := by simpa using out
  simp only [nodeKeys, List.mem_append, List.mem_singleton, not_or]
  exact ⟨⟨(apart entry held).2, own⟩, (apart entry held).1⟩

private theorem wellFormed_decodeKind {type : String} {kids : Kids}
    (children : ∀ nodes, kids = .ok nodes → Node.AllWellFormed nodes) (finite : AllFinite header.numbers)
    (sound : (Json.object members).Sound)
    (apart : ∀ entry ∈ members, entry.1 ≠ "type" ∧ entry.1 ∉ headerRecord.keys) {node : Node}
    (h : decodeKind type kids header members = .ok node) : node.WellFormed := by
  have nodes : Node.AllWellFormed kids.nodes := by
    cases kids with
    | ok nodes => exact children nodes rfl
    | error fault => trivial
  cases builds type with
  | container record _ keys own _ reads =>
    rw [reads] at h
    obtain ⟨-, -, rfl⟩ := decodeContainer_eq_ok.mp h
    refine ⟨?_, own kids members sound, nodes⟩
    rw [keys]
    exact wellFormed_header finite sound apart _
  | leaf record leaf _ keys known own _ reads =>
    rw [reads] at h
    obtain ⟨-, -, rfl⟩ := decodeLeaf_eq_ok.mp h
    refine ⟨?_, own members sound, fun type same => absurd same (known _ type)⟩
    rw [keys]
    exact wellFormed_header finite sound apart _
  | unknown other =>
    rw [decodeKind_unknown other] at h
    obtain rfl := Except.ok.inj h
    have whole := wellFormed_header finite sound apart []
    rw [Entries.without_of_not_mem fun _ _ => List.not_mem_nil] at whole
    refine ⟨whole, List.forall_mem_nil _, ?_⟩
    rintro _ ⟨⟩
    exact other

private theorem wellFormed_decodeMembers {kids : Kids}
    (children : ∀ nodes, kids = .ok nodes → Node.AllWellFormed nodes) (sound : (Json.object members).Sound)
    {node : Node} (h : decodeMembers kids members = .ok node) : node.WellFormed := by
  obtain ⟨header, type, attributes, common, taken, made⟩ := decodeMembers_eq_ok.mp h
  obtain ⟨-, -, rfl⟩ := Record.decode_eq_ok.mp common
  have split := Entries.perm_of_takeOut taken
  have all := (sound.without headerRecord.keys).perm split
  refine wellFormed_decodeKind children (finite_header sound) all.tail ?_ made
  intro entry member
  have held := split.mem_iff.mp (List.mem_cons_of_mem _ member)
  refine ⟨?_, fun common => Entries.not_mem_without common (List.mem_map_of_mem held)⟩
  intro same
  have listed : entry.1 ∈ attributes.map Prod.fst := List.mem_map_of_mem member
  rw [same] at listed
  exact (List.nodup_cons.mp all.distinct).1 listed

theorem Node.wellFormed_of_decode {v : Json} (sound : v.Sound) {node : Node} (h : Node.decode v = .ok node) :
    node.WellFormed := by
  refine Node.decode_induction (P := fun _ node => node.WellFormed) ?_ v sound node h
  intro members sound below node h
  exact wellFormed_decodeMembers (fun nodes read => (below nodes read).all trivial fun _ _ => And.intro) sound h

theorem Tree.wellFormed_of_decode {v : Json} (sound : v.Sound) {tree : Tree} (h : Tree.decode v = .ok tree) :
    tree.WellFormed := by
  obtain ⟨members, root, rfl, -, found, read, rfl⟩ := Tree.exists_of_decode h
  refine ⟨Node.wellFormed_of_decode (sound.of_lookup found) read, sound.without _, ?_⟩
  intro entry member common
  exact Entries.not_mem_without common (List.mem_map_of_mem member)

end Nodes

section Depth

private abbrev Within (d : Nat) (members : Members) : Prop :=
  ∀ entry ∈ members, entry.2.depth ≤ d

private theorem within_merged {d : Nat} {members : Members} (within : Within d members) :
    (merged members).depth ≤ d + 1 := by
  refine Nat.succ_le_succ (Json.depthMembers_le.mpr fun entry member => ?_)
  rcases Entries.mem_of_mem_putAll member with none | member
  · exact absurd none List.not_mem_nil
  · exact within entry member

private theorem depth_ofFloat (x : Float) : (Json.ofFloat x).depth = 0 := by
  unfold Json.ofFloat
  split <;> rfl

private theorem within_member {α : Type} {d : Nat} (key : String) {encode : α → Json}
    (flat : ∀ a, (encode a).depth ≤ d) (o : Option α) : Within d (member key encode o) := by
  cases o with
  | none => exact nofun
  | some a => exact List.forall_mem_singleton.mpr (flat a)

private theorem within_text {d : Nat} (key : String) {α : Type} (name : α → String) (o : Option α) :
    Within d (member key (fun a => .string (name a)) o) :=
  within_member key (fun _ => Nat.zero_le d) o

private theorem within_number {d : Nat} (key : String) (o : Option Float) : Within d (member key .ofFloat o) :=
  within_member key (fun x => (depth_ofFloat x).le.trans (Nat.zero_le d)) o

private theorem depth_point (p : Point) : p.encode.depth ≤ 1 := by
  simp [Point.encode, Json.depth, Json.depthMembers, depth_ofFloat]

private theorem depth_size (s : Size) : s.encode.depth ≤ 1 := by
  simp [Size.encode, Json.depth, Json.depthMembers, depth_ofFloat]

private theorem depth_padding (p : Padding) : p.encode.depth ≤ 1 := by
  cases p <;> simp [Padding.encode, Json.depth, Json.depthMembers, depth_ofFloat]

private theorem depth_fontWeight (w : FontWeight) : w.encode.depth ≤ 0 := by
  cases w <;> simp [FontWeight.encode, Json.depth, depth_ofFloat]

private theorem depth_points (xs : List Float) : (Json.array (xs.map .ofFloat)).depth ≤ 1 := by
  refine Nat.succ_le_succ (Json.depthItems_le.mpr fun v member => ?_)
  obtain ⟨x, -, rfl⟩ := List.mem_map.mp member
  exact (depth_ofFloat x).le

variable {d : Nat}

private theorem within_headerMembers (h : Header) (some : 1 ≤ d) : Within d h.members := by
  simp only [Header.members, List.cons_append, List.forall_mem_cons, List.forall_mem_append]
  exact ⟨Nat.zero_le d, ⟨⟨within_text _ id _, within_member _ (fun p => (depth_point p).trans some) _⟩,
    within_member _ (fun s => (depth_size s).trans some) _⟩, within_number _ _⟩

private theorem within_leafMembers (kind : Leaf) (some : 1 ≤ d) : Within d kind.members := by
  cases kind with
  | rect a =>
    simp only [Leaf.members, List.forall_mem_append]
    exact ⟨⟨⟨within_text _ id _, within_text _ id _⟩, within_number _ _⟩, within_number _ _⟩
  | ellipse a =>
    simp only [Leaf.members, List.forall_mem_append]
    exact ⟨⟨within_text _ id _, within_text _ id _⟩, within_number _ _⟩
  | text a =>
    have weight (w : FontWeight) : w.encode.depth ≤ d := (depth_fontWeight w).trans (Nat.zero_le d)
    simp only [Leaf.members, List.cons_append, List.forall_mem_cons, List.forall_mem_append]
    exact ⟨Nat.zero_le d, ⟨⟨⟨⟨⟨within_text _ id _, within_text _ id _⟩, within_number _ _⟩, within_member _ weight _⟩,
      within_text _ _ _⟩, within_text _ _ _⟩, within_text _ _ _⟩
  | image a =>
    simp only [Leaf.members, List.cons_append, List.forall_mem_cons, List.forall_mem_append]
    exact ⟨Nat.zero_le d, ⟨within_text _ id _, within_number _ _⟩, within_text _ _ _⟩
  | line a =>
    simp only [Leaf.members, List.cons_append, List.forall_mem_cons, List.forall_mem_append]
    have ends := depth_points [a.points.x1, a.points.y1, a.points.x2, a.points.y2]
    exact ⟨ends.trans some, within_text _ id _, within_number _ _⟩
  | path role a =>
    simp only [Leaf.members, List.cons_append, List.forall_mem_cons, List.forall_mem_append]
    refine ⟨(depth_points a.points).trans some, ⟨⟨?_, within_text _ id _⟩, within_text _ id _⟩, within_number _ _⟩
    cases a.closed with
    | false => exact List.forall_mem_nil _
    | true => exact List.forall_mem_singleton.mpr (Nat.zero_le d)
  | unknown type => exact List.forall_mem_nil _

private theorem within_containerMembers {children : List Json} (below : Json.depthItems children + 1 ≤ d)
    (kind : Container) : Within d (kind.members children) := by
  have padding (p : Padding) : p.encode.depth ≤ d := (depth_padding p).trans (by omega)
  have listed : Within d (childrenMember children) := by
    unfold childrenMember
    split
    · exact List.forall_mem_nil _
    · exact List.forall_mem_singleton.mpr below
  cases kind with
  | panel role a =>
    simp only [Container.members, List.forall_mem_append]
    exact ⟨⟨⟨listed, within_text _ id _⟩, within_member _ padding _⟩, within_number _ _⟩
  | stack a =>
    simp only [Container.members, List.cons_append, List.forall_mem_cons, List.forall_mem_append]
    exact ⟨Nat.zero_le d, ⟨⟨⟨⟨within_number _ _, within_text _ _ _⟩, within_text _ _ _⟩, within_text _ id _⟩,
      within_member _ padding _⟩, listed⟩
  | grid a =>
    simp only [Container.members, List.cons_append, List.forall_mem_cons, List.forall_mem_append]
    exact ⟨Nat.zero_le d, ⟨⟨within_number _ _, within_text _ id _⟩, within_member _ padding _⟩, listed⟩

private theorem within_kindMembers {attributes extra : Members} (own : Within d attributes) (rest : Within d extra)
    (type : String) : Within d (kindMembers attributes extra type) := by
  intro entry member
  rcases Entries.mem_of_mem_putAll member with none | member
  · exact absurd none List.not_mem_nil
  · rcases List.mem_append.mp member with member | member
    · rcases List.mem_append.mp member with member | member
      · exact own entry member
      · exact rest entry member
    · exact List.mem_singleton.mp member ▸ Nat.zero_le d

private theorem within_decodeKind {type : String} {kids : Kids} {header : Header} {members : Members}
    (some : 1 ≤ d) (below : Json.depthItems (Node.encodeAll kids.nodes) + 1 ≤ d) (rest : Within d members) {node : Node}
    (h : decodeKind type kids header members = .ok node) : Within d node.members := by
  have kept (keys : List String) : Within d (members.without keys) :=
    fun entry member => rest entry (List.mem_filter.mp member).1
  cases builds type with
  | container record _ _ _ _ reads =>
    rw [reads] at h
    obtain ⟨-, -, rfl⟩ := decodeContainer_eq_ok.mp h
    exact List.forall_mem_append.mpr ⟨within_headerMembers _ some,
      within_kindMembers (within_containerMembers below _) (kept _) _⟩
  | leaf record leaf _ _ _ _ _ reads =>
    rw [reads] at h
    obtain ⟨-, -, rfl⟩ := decodeLeaf_eq_ok.mp h
    exact List.forall_mem_append.mpr ⟨within_headerMembers _ some,
      within_kindMembers (within_leafMembers _ some) (kept _) _⟩
  | unknown other =>
    rw [decodeKind_unknown other] at h
    obtain rfl := Except.ok.inj h
    exact List.forall_mem_append.mpr ⟨within_headerMembers _ some,
      within_kindMembers (within_leafMembers (.unknown type) some) rest _⟩

private theorem depthItems_encodeAll {items : List Json} {nodes : List Node}
    (all : List.Forall₂ (fun v node => node.encode.depth ≤ v.depth + 1) items nodes) :
    Json.depthItems (Node.encodeAll nodes) ≤ Json.depthItems items + 1 := by
  induction all with
  | nil => exact Nat.zero_le _
  | @cons v node _ _ first _ ih =>
    have head : (merged node.members).depth ≤ v.depth + 1 := first
    simp only [Node.encodeAll, Json.depthItems]
    omega

/-- The value of a node is at most one level deeper than the one that it is read from: points that are missing there
are written. -/
private theorem Node.depth_encode_le {v : Json} (sound : v.Sound) {node : Node} (h : Node.decode v = .ok node) :
    node.encode.depth ≤ v.depth + 1 := by
  refine Node.decode_induction (P := fun v node => node.encode.depth ≤ v.depth + 1) ?_ v sound node h
  intro members sound below node h
  have deep := Json.depthMembers_le.mp (Nat.le_refl (Json.depthMembers members))
  have children : Json.depthItems (Node.encodeAll (decodeKids members).nodes) ≤ Json.depthMembers members := by
    cases read : decodeKids members with
    | error fault => exact Nat.zero_le _
    | ok nodes =>
      cases below nodes read with
      | none => exact Nat.zero_le _
      | some found all =>
        have listed := deep _ (Entries.mem_of_lookup found)
        exact (depthItems_encodeAll all).trans listed
  obtain ⟨header, type, attributes, -, taken, made⟩ := decodeMembers_eq_ok.mp h
  refine within_merged (within_decodeKind (Nat.le_add_left 1 _) (Nat.succ_le_succ children) ?_ made)
  intro entry member
  have held := (Entries.perm_of_takeOut taken).mem_iff.mp (List.mem_cons_of_mem _ member)
  exact (deep entry (List.mem_filter.mp held).1).trans (Nat.le_succ _)

/-- The value of a design is at most one level deeper than the one that it is read from. -/
theorem Tree.depth_encode_le {v : Json} (sound : v.Sound) {tree : Tree} (h : Tree.decode v = .ok tree) :
    tree.encode.depth ≤ v.depth + 1 := by
  obtain ⟨members, root, rfl, -, found, read, rfl⟩ := Tree.exists_of_decode h
  have deep := Json.depthMembers_le.mp (Nat.le_refl (Json.depthMembers members))
  have below : (treeRecord.build members).root.encode.depth ≤ Json.depthMembers members + 1 :=
    (Node.depth_encode_le (sound.of_lookup found) read).trans
      (Nat.succ_le_succ (deep _ (Entries.mem_of_lookup found)))
  refine within_merged ?_
  simp only [Tree.members, List.forall_mem_cons, List.forall_mem_append]
  refine ⟨⟨within_text _ id _, within_text _ id _⟩, below, fun entry member => ?_⟩
  exact (deep entry (List.mem_filter.mp member).1).trans (Nat.le_succ _)

end Depth

end Handoff.Design
