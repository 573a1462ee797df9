import Handoff.Proofs.Design.Decoded
import Handoff.Proofs.Design.RoundTrip

set_option autoImplicit false
set_option relaxedAutoImplicit false

/-!
What a design has no use for is neither lost nor made up.

The value of a design that was read is compared with the one it was read from, node by node: `Node.Kept` says what two
values of a node have in common. It does not mention how values are read or written.
-/

namespace Handoff.Design

namespace Shape

/-- The names that the nodes of a type make use of. -/
def modelled (type : String) : List String :=
  (headerFields ++ fieldsOf type).map Prod.fst ++ ["type"]

end Shape

section NormalForms

def normalText : Json → Option Json
  | .string s => some (.string s)
  | _ => none

def normalNumber : Json → Option Json
  | .int n => some (.float (Json.wholeFloat n))
  | .float x => some (.float x)
  | _ => none

def normalPair (first second : String) : Json → Option Json
  | .object members => do
    let x ← (members.lookup first).bind normalNumber
    let y ← (members.lookup second).bind normalNumber
    return .object [(first, x), (second, y)]
  | .array [v, w] => do
    let x ← normalNumber v
    let y ← normalNumber w
    return .object [(first, x), (second, y)]
  | _ => none

/-- The normal form of a common attribute. A null has none. -/
def normalCommon (key : String) : Json → Option Json :=
  match key with
  | "position" => normalPair "x" "y"
  | "size" => normalPair "width" "height"
  | "opacity" => normalNumber
  | _ => normalText

end NormalForms

def childrenOf (members : Members) : List Json :=
  match members.lookup "children" with
  | some (.array items) => items
  | _ => []

/-- The value that a node is written as has the members of the given one that its type has no use for, and no others
but those that the type always writes. Its common attributes are those given in their normal form. The same holds of
its children in turn, when its type is that of a container. -/
inductive Node.Kept : Json → Json → Prop
  | object {type : String} {given written : Members}
      (typed : given.lookup "type" = some (.string type))
      (type_kept : written.lookup "type" = some (.string type))
      (distinct : (written.map Prod.fst).Nodup)
      (unmodelled : ∀ key ∉ Shape.modelled type, written.lookup key = given.lookup key)
      (common : ∀ key ∈ Shape.headerFields.map Prod.fst,
        written.lookup key = (given.lookup key).bind (normalCommon key))
      (listed : ∀ key ∈ written.map Prod.fst, key ∈ given.map Prod.fst ∨ key ∈ Shape.alwaysWritten type)
      (below : "children" ∈ (Shape.fieldsOf type).map Prod.fst →
        List.Forall₂ Node.Kept (childrenOf given) (childrenOf written)) :
      Node.Kept (.object given) (.object written)

/-- The same for documents. -/
structure Tree.Kept (given written : Members) : Prop where
  distinct : (written.map Prod.fst).Nodup
  unmodelled : ∀ key ∉ ["version", "name", "root"], written.lookup key = given.lookup key
  common : ∀ key ∈ ["version", "name"], written.lookup key = (given.lookup key).bind normalText
  listed : ∀ key ∈ written.map Prod.fst, key ∈ given.map Prod.fst
  root : ∃ v w, given.lookup "root" = some v ∧ written.lookup "root" = some w ∧ Node.Kept v w

section Keys

theorem Node.kindKeys_eq {node : Node} (wf : node.WellFormed) :
    node.kindKeys = (Shape.fieldsOf node.typeName).map Prod.fst := by
  cases node with
  | container header kind children =>
    cases kind with
    | panel role a => cases role <;> rfl
    | stack a => rfl
    | grid a => rfl
  | leaf header kind =>
    cases kind with
    | path role a => cases role <;> rfl
    | unknown type =>
      rw [show (Node.leaf header (.unknown type)).typeName = type from rfl, fieldsOf_unknown (wf.2.type type rfl)]
      rfl
    | rect a | ellipse a | text a | image a | line a => rfl

/-- The names that a type makes use of are those of the members that its nodes have of their own. -/
theorem modelled_eq {node : Node} (wf : node.WellFormed) :
    Shape.modelled node.typeName = nodeKeys node.kindKeys := by
  rw [Node.kindKeys_eq wf, Shape.modelled, List.map_append]
  rfl

end Keys

section Normalized

variable {α : Type} {members : Members}

private def Normalizes (read : Reader α) (encode : α → Json) (normal : Json → Option Json) : Prop :=
  ∀ v a, v.Sound → read v = .ok a → normal v = some (encode a)

private theorem normalizes_text : Normalizes readText .string normalText := by
  intro v s _ h
  cases v with
  | string s =>
    obtain rfl := Except.ok.inj h
    rfl
  | null | bool _ | int _ | float _ | array _ | object _ => cases h

private theorem normalizes_number : Normalizes readNumber .ofFloat normalNumber := by
  intro v x sound h
  cases v with
  | int n =>
    obtain rfl := Except.ok.inj h
    rw [Json.ofFloat, if_pos (Json.isFinite_wholeFloat sound.1 sound.2)]
    rfl
  | float x =>
    obtain rfl := Except.ok.inj h
    have finite : x.isFinite = true := sound
    rw [Json.ofFloat, if_pos finite]
    rfl
  | null | bool _ | string _ | array _ | object _ => cases h

private theorem Field.read_of_check (field : Field α) {checks : List Check} (none : firstFault checks members = none)
    (own : checks.lookup field.key = some (faultOf field.read)) {v : Json}
    (found : members.lookup field.key = some v) : ∃ a, field.read v = .ok a := by
  have here := firstFault_eq_none.mp none _ (Entries.mem_of_lookup found)
  rw [own] at here
  exact Field.faultOf_eq_none.mp here

private theorem Field.getD_of_read (field : Field α) {v : Json} {a default : α}
    (found : members.lookup field.key = some v) (read : field.read v = .ok a) : field.getD members default = a := by
  simp only [Field.getD, found, read]

private theorem normal_side (key : String) {checks : List Check} (sound : (Json.object members).Sound)
    (none : firstFault checks members = none) (own : checks.lookup key = some (faultOf readNumber))
    (required : ∃ v, members.lookup key = some v) :
    (members.lookup key).bind normalNumber = some (.ofFloat (Field.getD ⟨key, readNumber⟩ members 0)) := by
  obtain ⟨v, found⟩ := required
  obtain ⟨x, read⟩ := Field.read_of_check ⟨key, readNumber⟩ none own found
  rw [found, Option.bind_some, Field.getD_of_read ⟨key, readNumber⟩ found read]
  exact normalizes_number v x (sound.of_lookup found) read

private theorem items_of_readTuple {expected : Expected} {items : List Json} {x y : Float}
    (h : readTuple 2 expected items = .ok [x, y]) :
    ∃ v w, items = [v, w] ∧ readNumber v = .ok x ∧ readNumber w = .ok y := by
  match items with
  | [] => cases h
  | [v] =>
    rw [readTuple] at h
    split at h
    · cases h
    · cases h
  | [v, w] =>
    refine ⟨v, w, rfl, ?_⟩
    rw [readTuple] at h
    split at h
    · cases h
    · rename_i xs each
      obtain rfl : xs = [x, y] := Except.ok.inj h
      simp only [List.take_succ_cons, List.take_zero, readEach] at each
      cases first : readNumber v with
      | error fault => simp [first] at each
      | ok a =>
        cases second : readNumber w with
        | error fault => simp [first, second] at each
        | ok b =>
          simp only [first, second, Except.ok.injEq, List.cons.injEq, and_true] at each
          exact ⟨congrArg Except.ok each.1, congrArg Except.ok each.2⟩
  | v :: w :: u :: rest =>
    rw [readTuple] at h
    split at h
    · cases h
    · rw [if_neg (by simp), if_pos (by simp)] at h
      cases h

private theorem normalizes_pair {first second : String} (differ : second ≠ first) {expected : Expected}
    {build : Float → Float → α} {encode : α → Json}
    (parts : ∀ x y, encode (build x y) = .object [(first, .ofFloat x), (second, .ofFloat y)]) :
    Normalizes (readPair first second expected build) encode (normalPair first second) := by
  intro v a sound h
  cases v with
  | null | bool _ | int _ | float _ | string _ => cases h
  | array items =>
    rw [readPair] at h
    split at h
    · cases h
    · rename_i x y tuple
      obtain rfl := Except.ok.inj h
      obtain ⟨v, w, rfl, left, right⟩ := items_of_readTuple tuple
      rw [normalPair, normalizes_number v x sound.1 left, normalizes_number w y sound.2.1 right, parts]
      rfl
    · cases h
  | object members =>
    rw [readPair] at h
    obtain ⟨none, missing, rfl⟩ := Record.decode_eq_ok.mp h
    have required := firstMissing_eq_none.mp missing
    have left := normal_side first sound none List.lookup_cons_self (required first (List.mem_cons_self ..))
    have right := normal_side second sound none ?_ (required second (by simp))
    · rw [normalPair, left, right, parts]
      rfl
    · rw [List.lookup_cons, Field.check, beq_false_of_ne differ]
      exact List.lookup_cons_self

/-- An optional attribute is written in the normal form of the value that it was read from, unless that is null. -/
private theorem normal_optional (key : String) {read : Reader α} {encode : α → Json} {normal : Json → Option Json}
    {checks : List Check} (sound : (Json.object members).Sound) (none : firstFault checks members = none)
    (own : checks.lookup key = some (faultOf (readOptional read))) (null : normal .null = .none)
    (law : Normalizes read encode normal) :
    ((optionalField key read).getD members .none).map encode = (members.lookup key).bind normal := by
  cases found : members.lookup key with
  | none => simp only [Field.getD, optionalField, found, Option.map_none, Option.bind_none]
  | some v =>
    obtain ⟨o, read_eq⟩ := Field.read_of_check (optionalField key read) none own found
    rw [Field.getD_of_read (optionalField key read) found read_eq, Option.bind_some]
    have inner (h : (read v).map some = .ok o) : o.map encode = normal v := by
      cases plain : read v with
      | error fault =>
        rw [plain] at h
        cases h
      | ok a =>
        rw [plain] at h
        obtain rfl := Except.ok.inj h
        exact (law v a (sound.of_lookup found) plain).symm
    cases v with
    | null =>
      obtain rfl := Except.ok.inj read_eq
      exact null.symm
    | bool _ | int _ | float _ | string _ | array _ | object _ => exact inner read_eq

private theorem lookup_header (h : Header) :
    h.members.lookup "id" = some (.string h.id) ∧ h.members.lookup "name" = h.name.map .string ∧
      h.members.lookup "position" = h.position.map Point.encode ∧ h.members.lookup "size" = h.size.map Size.encode ∧
      h.members.lookup "opacity" = h.opacity.map .ofFloat := by
  simp [Header.members, List.lookup_cons, Entries.lookup_append, lookup_member]

private theorem normal_header {header : Header} (sound : (Json.object members).Sound)
    (h : headerRecord.decode members = .ok header) {key : String} (common : key ∈ headerRecord.keys) :
    header.members.lookup key = (members.lookup key).bind (normalCommon key) := by
  obtain ⟨none, missing, rfl⟩ := Record.decode_eq_ok.mp h
  obtain ⟨id, name, position, size, opacity⟩ := lookup_header (headerRecord.build members)
  have common : key ∈ ["id", "name", "position", "size", "opacity"] := common
  simp only [List.mem_cons, List.not_mem_nil, or_false] at common
  rcases common with rfl | rfl | rfl | rfl | rfl
  · obtain ⟨v, found⟩ := firstMissing_eq_none.mp missing "id" (List.mem_singleton_self _)
    obtain ⟨s, read⟩ := Field.read_of_check idField none rfl found
    rw [id, found, show (headerRecord.build members).id = s from Field.getD_of_read idField found read]
    exact (normalizes_text v s (sound.of_lookup found) read).symm
  · exact name.trans (normal_optional "name" sound none rfl rfl normalizes_text)
  · exact position.trans (normal_optional "position" sound none rfl rfl (normalizes_pair (by decide) fun _ _ => rfl))
  · exact size.trans (normal_optional "size" sound none rfl rfl (normalizes_pair (by decide) fun _ _ => rfl))
  · exact opacity.trans (normal_optional "opacity" sound none rfl rfl normalizes_number)

end Normalized

section Nodes

variable {members : Members} {kids : Kids} {node : Node}

/-- What a node of a type has of the members that it was read from. -/
structure Node.From (type : String) (members : Members) (kids : Kids) (node : Node) : Prop where
  named : node.typeName = type
  rest : ∃ rest, (Entries.without members headerRecord.keys).takeOut "type" = some (.string type, rest) ∧
    node.header.extra = rest.without node.kindKeys
  extra : ∀ key ∉ nodeKeys node.kindKeys, node.header.extra.lookup key = members.lookup key
  given : Given members (Shape.alwaysWritten type) node.attributes
  children : ∀ header kind nodes, node = .container header kind nodes → nodes = kids.nodes

/-- What is left of the members beyond the common ones and the type. -/
private structure Left (members rest : Members) : Prop where
  other : ∀ key, key ≠ "type" → key ∉ headerRecord.keys → rest.lookup key = members.lookup key
  held : ∀ key v, rest.lookup key = some v → members.lookup key = some v

private theorem left_of_takeOut (sound : (Json.object members).Sound) {type : Json} {rest : Members}
    (taken : (Entries.without members headerRecord.keys).takeOut "type" = some (type, rest)) : Left members rest := by
  obtain ⟨-, others⟩ := Entries.lookup_of_takeOut (Entries.nodup_without sound.distinct _) taken
  refine ⟨fun key typed own => (others key typed).trans (Entries.lookup_without members own), fun key v found => ?_⟩
  have moved := (Entries.perm_of_takeOut taken).mem_iff.mp (List.mem_cons_of_mem _ (Entries.mem_of_lookup found))
  exact Entries.lookup_of_mem sound.distinct (List.mem_filter.mp moved).1

private theorem Left.extra {rest : Members} (left : Left members rest) {keys : List String} {key : String}
    (out : key ∉ nodeKeys keys) : (rest.without keys).lookup key = members.lookup key := by
  simp only [nodeKeys, List.mem_append, List.mem_singleton, not_or] at out
  rw [Entries.lookup_without _ out.1.2, left.other key out.2 out.1.1]

private theorem Left.given {rest attributes : Members} (left : Left members rest) {always : List String}
    (given : Given rest always attributes) : Given members always attributes :=
  fun entry member => (given entry member).imp_right (.imp_right fun ⟨v, found⟩ => ⟨v, left.held _ v found⟩)

/-- What a node of a type has of the members that are left to its type. -/
private structure Node.Of (type : String) (header : Header) (rest : Members) (kids : Kids) (node : Node) : Prop where
  named : node.typeName = type
  common : { node.header with extra := [] } = { header with extra := [] }
  extra : node.header.extra = rest.without node.kindKeys
  given : Given rest (Shape.alwaysWritten type) node.attributes
  children : ∀ header kind nodes, node = .container header kind nodes → nodes = kids.nodes

/-- A node of a type has its extra members from those that are left, and so are the attributes of its kind. -/
private theorem of_decodeKind {type : String} {header : Header} {rest : Members}
    (h : decodeKind type kids header rest = .ok node) : node.Of type header rest kids := by
  cases builds type with
  | container record named keys _ given reads =>
    rw [reads] at h
    obtain ⟨-, -, rfl⟩ := decodeContainer_eq_ok.mp h
    refine ⟨named kids rest, rfl, ?_, given kids rest _, ?_⟩
    · exact congrArg (Entries.without rest) (keys kids rest).symm
    · rintro _ _ _ ⟨⟩
      rfl
  | leaf record leaf named keys _ _ given reads =>
    rw [reads] at h
    obtain ⟨-, -, rfl⟩ := decodeLeaf_eq_ok.mp h
    refine ⟨named _, rfl, ?_, given rest, fun _ _ _ => Node.noConfusion⟩
    exact congrArg (Entries.without rest) (keys _).symm
  | unknown other =>
    rw [decodeKind_unknown other] at h
    obtain rfl := Except.ok.inj h
    refine ⟨rfl, rfl, ?_, List.forall_mem_nil _, fun _ _ _ => Node.noConfusion⟩
    exact (Entries.without_of_not_mem fun _ _ => List.not_mem_nil).symm

private theorem from_decodeMembers (sound : (Json.object members).Sound) (h : decodeMembers kids members = .ok node) :
    ∃ type, members.lookup "type" = some (.string type) ∧ node.From type members kids ∧
      headerRecord.decode members = .ok { node.header with extra := [] } := by
  obtain ⟨header, type, rest, common, taken, made⟩ := decodeMembers_eq_ok.mp h
  have own := of_decodeKind made
  have left := left_of_takeOut sound taken
  refine ⟨type, ?_, ⟨own.named, ⟨rest, taken, own.extra⟩, ?_, left.given own.given, own.children⟩, ?_⟩
  · rw [← Entries.lookup_without members (by decide : "type" ∉ headerRecord.keys)]
    exact (Entries.lookup_of_takeOut (Entries.nodup_without sound.distinct _) taken).1
  · intro key out
    rw [own.extra]
    exact left.extra out
  · obtain ⟨-, -, rfl⟩ := Record.decode_eq_ok.mp common
    exact common.trans (congrArg Except.ok own.common.symm)

theorem forall_children {R : Json → Json → Prop} {header : Header} {kind : Container} {nodes : List Node}
    (wf : (Node.container header kind nodes).WellFormed) (below : Below (fun v node => R v node.encode) members nodes) :
    List.Forall₂ R (childrenOf members) (childrenOf (Node.container header kind nodes).members) := by
  have written : childrenOf (Node.container header kind nodes).members = Node.encodeAll nodes := by
    rw [childrenOf, Node.lookup_children wf]
    cases nodes <;> rfl
  rw [written]
  cases below with
  | none found =>
    rw [childrenOf, found]
    exact .nil
  | some found all =>
    rw [childrenOf, found]
    clear wf written found
    induction all with
    | nil => exact .nil
    | cons first _ ih => exact .cons first ih

private theorem children_given {header : Header} {kind : Container} {nodes : List Node} {v : Json}
    (wf : (Node.container header kind nodes).WellFormed) {P : Json → Node → Prop} (below : Below P members nodes)
    (written : (Node.container header kind nodes).members.lookup "children" = some v) :
    ∃ given, members.lookup "children" = some given := by
  cases below with
  | none _ =>
    rw [Node.lookup_children wf] at written
    cases written
  | some found _ => exact ⟨_, found⟩

private theorem children_mem_fieldsOf {type : String} (container : "children" ∈ (Shape.fieldsOf type).map Prod.fst) :
    ("children", .list .node) ∈ Shape.fieldsOf type := by
  by_cases known : type ∈ typeNames
  · simp only [typeNames, List.mem_cons, List.not_mem_nil, or_false] at known
    rcases known with rfl | rfl | rfl | rfl | rfl | rfl | rfl | rfl | rfl | rfl | rfl | rfl | rfl
    case inl | inr.inl | inr.inr.inl => simp [Shape.fieldsOf, Shape.panelFields]
    case inr.inr.inr.inl => simp [Shape.fieldsOf, Shape.stackFields]
    case inr.inr.inr.inr.inl => simp [Shape.fieldsOf, Shape.gridFields]
    all_goals exact absurd container (by decide)
  · rw [fieldsOf_unknown known] at container
    exact absurd container List.not_mem_nil

private theorem exists_kids (sound : (Json.object members).Sound)
    (h : decodeMembers (decodeKids members) members = .ok node) {type : String}
    (typed : members.lookup "type" = some (.string type))
    (container : "children" ∈ (Shape.fieldsOf type).map Prod.fst) : ∃ nodes, decodeKids members = .ok nodes := by
  cases found : members.lookup "children" with
  | none => exact ⟨[], by rw [decodeKids_eq, found]⟩
  | some v =>
    refine (decodeKids_ok_iff members sound.2 v found).mpr ?_
    cases (takes_node (.object members) sound).mp ⟨node, h⟩ with
    | node here fits =>
      rw [typed] at here
      cases here
      have field := List.mem_append_right Shape.headerFields (children_mem_fieldsOf container)
      exact (fits_record_iff.mp fits).2 _ field v found

theorem not_mem_leafKeys (kind : Leaf) : "children" ∉ kind.keys :=
  match kind with
  | .rect _ => (by decide : "children" ∉ rectRecord.keys)
  | .ellipse _ => (by decide : "children" ∉ ellipseRecord.keys)
  | .text _ => (by decide : "children" ∉ labelRecord.keys)
  | .image _ => (by decide : "children" ∉ imageRecord.keys)
  | .line _ => (by decide : "children" ∉ lineRecord.keys)
  | .path _ _ => (by decide : "children" ∉ pathRecord.keys)
  | .unknown _ => List.not_mem_nil

/-- What is known of a node that was read, when its children are related to what they were read from. -/
structure Node.Read (R : Json → Json → Prop) (type : String) (members : Members) (node : Node) : Prop
    extends Node.From type members (decodeKids members) node where
  wf : node.WellFormed
  typed : members.lookup "type" = some (.string type)
  common : ∀ key ∈ headerRecord.keys, node.members.lookup key = (members.lookup key).bind (normalCommon key)
  below : "children" ∈ node.kindKeys → ∃ header kind nodes, node = .container header kind nodes ∧
    Below (fun v node => R v node.encode) members nodes

theorem exists_read {R : Json → Json → Prop} (sound : (Json.object members).Sound)
    (below : ∀ nodes, decodeKids members = .ok nodes → Below (fun v node => R v node.encode) members nodes)
    (h : decodeMembers (decodeKids members) members = .ok node) : ∃ type, node.Read R type members := by
  have read : Node.decode (.object members) = .ok node := h
  have wf := Node.wellFormed_of_decode sound read
  obtain ⟨type, typed, made, header⟩ := from_decodeMembers sound h
  refine ⟨type, made, wf, typed, ?_, fun container => ?_⟩
  · intro key common
    exact (Node.lookup_common wf common).trans (normal_header sound header common)
  · rw [Node.kindKeys_eq wf, made.named] at container
    obtain ⟨nodes, kids⟩ := exists_kids sound h typed container
    cases node with
    | leaf _ kind =>
      rw [← made.named, ← Node.kindKeys_eq wf] at container
      exact absurd container (not_mem_leafKeys kind)
    | container own kind children =>
      refine ⟨own, kind, children, rfl, ?_⟩
      rw [made.children own kind children rfl, kids]
      exact below nodes kids

private theorem Node.Read.listed {R : Json → Json → Prop} {type : String} (h : node.Read R type members)
    {key : String} {v : Json}
    (found : node.members.lookup key = some v) :
    (∃ given, members.lookup key = some given) ∨ key ∈ Shape.alwaysWritten type := by
  by_cases common : key ∈ headerRecord.keys
  · rw [h.common key common] at found
    obtain ⟨given, here, -⟩ := Option.bind_eq_some_iff.mp found
    exact .inl ⟨given, here⟩
  · by_cases own : key ∈ node.kindKeys
    · have mine := (Node.lookup_attribute h.wf own).symm.trans found
      rcases h.given _ (Entries.mem_of_lookup mine) with rfl | always | given
      · obtain ⟨_, _, nodes, rfl, below⟩ := h.below own
        exact .inl (children_given h.wf below found)
      · exact .inr always
      · exact .inl given
    · by_cases named : key = "type"
      · exact .inl ⟨_, named ▸ h.typed⟩
      · have out : key ∉ nodeKeys node.kindKeys := by
          simp only [nodeKeys, List.mem_append, List.mem_singleton, not_or]
          exact ⟨⟨common, own⟩, named⟩
        rw [Node.lookup_extra h.wf out, h.extra key out] at found
        exact .inl ⟨v, found⟩

private theorem Node.Read.kept {type : String} (h : node.Read Node.Kept type members) :
    Node.Kept (.object members) node.encode := by
  have type_kept := Node.lookup_type h.wf
  have fields := Node.kindKeys_eq h.wf
  have modelled := modelled_eq h.wf
  rw [h.named] at type_kept fields modelled
  rw [Node.encode_eq h.wf]
  refine .object h.typed type_kept (Node.members_eq h.wf).2 ?_ h.common ?_ ?_
  · intro key out
    rw [modelled] at out
    rw [Node.lookup_extra h.wf out, h.extra key out]
  · intro key member
    obtain ⟨v, found⟩ := Entries.mem_keys_iff.mp member
    exact (h.listed found).imp_left Entries.mem_keys_iff.mpr
  · intro container
    obtain ⟨_, _, nodes, rfl, below⟩ := h.below (fields ▸ container)
    exact forall_children h.wf below

/-- The value of a node that was read keeps the one it was read from. -/
theorem Node.kept_of_decode {v : Json} (sound : v.Sound) {node : Node} (h : Node.decode v = .ok node) :
    Node.Kept v node.encode := by
  refine Node.decode_induction (P := fun v node => Node.Kept v node.encode) ?_ v sound node h
  intro members sound below node h
  obtain ⟨type, read⟩ := exists_read sound below h
  exact read.kept

end Nodes

section Documents

variable {members : Members} {tree : Tree}

theorem lookups_of_decode (sound : (Json.object members).Sound) (h : Tree.decode (.object members) = .ok tree) :
    tree.extra = members.without treeRecord.keys ∧
      tree.version.map .string = (members.lookup "version").bind normalText ∧
      tree.name.map .string = (members.lookup "name").bind normalText ∧
      ∃ v, members.lookup "root" = some v ∧ Node.decode v = .ok tree.root := by
  obtain ⟨_, v, ⟨⟩, faults, root, read, rfl⟩ := Tree.exists_of_decode h
  exact ⟨rfl, normal_optional "version" sound faults rfl rfl normalizes_text,
    normal_optional "name" sound faults rfl rfl normalizes_text, v, root, read⟩

/-- The value of a design that was read keeps the one it was read from: members that the design, its nodes or their
types have no use for are the same, at every depth, and none is there that was not given but for the attributes that
a type always writes. -/
theorem Tree.unmodelled_kept {v : Json} (sound : v.Sound) (h : Tree.decode v = .ok tree) :
    ∃ given written, v = .object given ∧ tree.encode = .object written ∧ Tree.Kept given written := by
  have wf := Tree.wellFormed_of_decode sound h
  cases v with
  | null | bool _ | int _ | float _ | string _ | array _ => nomatch h
  | object members =>
    obtain ⟨extra, version, name, v, root, read⟩ := lookups_of_decode sound h
    have look := Tree.lookup_members tree tree.root.encode
    have version_kept := (look "version").trans
      (by simpa [wf.lookup_extra (by decide : "version" ∈ treeRecord.keys)] using version)
    have name_kept := (look "name").trans
      (by simpa [wf.lookup_extra (by decide : "name" ∈ treeRecord.keys)] using name)
    have other : ∀ key ∉ ["version", "name", "root"],
        (tree.members tree.root.encode).lookup key = members.lookup key := by
      intro key out
      have apart : key ≠ "version" ∧ key ≠ "name" ∧ key ≠ "root" := by simpa using out
      rw [look, if_neg apart.1, if_neg apart.2.1, if_neg apart.2.2, extra]
      exact Entries.lookup_without members out
    have common : ∀ key ∈ ["version", "name"],
        (tree.members tree.root.encode).lookup key = (members.lookup key).bind normalText :=
      List.forall_mem_cons.mpr ⟨version_kept, List.forall_mem_singleton.mpr name_kept⟩
    have kept := Node.kept_of_decode (sound.of_lookup root) read
    refine ⟨members, _, rfl, Tree.encode_eq wf, Tree.nodup_members wf _, other, common, ?_, v, _, root, look "root",
      kept⟩
    intro key member
    obtain ⟨w, found⟩ := Entries.mem_keys_iff.mp member
    refine Entries.mem_keys_iff.mpr ?_
    by_cases out : key ∈ ["version", "name", "root"]
    · simp only [List.mem_cons, List.not_mem_nil, or_false] at out
      rcases out with rfl | rfl | rfl
      · obtain ⟨given, here, -⟩ := Option.bind_eq_some_iff.mp (version_kept.symm.trans found)
        exact ⟨given, here⟩
      · obtain ⟨given, here, -⟩ := Option.bind_eq_some_iff.mp (name_kept.symm.trans found)
        exact ⟨given, here⟩
      · exact ⟨v, root⟩
    · exact ⟨w, (other key out).symm.trans found⟩

/-- A stack that has a radius, which stacks do not know, above a rectangle that has children and an unknown node. -/
theorem Tree.unmodelled_kept_stack :
    let rect : Json := .object [("children", .bool true), ("type", .string "rect"), ("rotation", .int 45),
      ("position", .array [.int 1, .int 2]), ("id", .string "b"), ("fill", .null)]
    let other : Json := .object [("id", .string "c"), ("fill", .int 3), ("type", .string "star"), ("name", .null)]
    let stack : Json := .object [("type", .string "stack"), ("radius", .int 4), ("id", .string "a"),
      ("children", .array [rect, other])]
    ∃ tree, Tree.decode (.object [("editor", .null), ("root", stack), ("name", .string "t")]) = .ok tree ∧
      ∃ written, tree.encode = .object written ∧
        Tree.Kept [("editor", .null), ("root", stack), ("name", .string "t")] written := by
  intro rect other stack
  have read : ∃ tree, Tree.decode (.object [("editor", .null), ("root", stack), ("name", .string "t")]) = .ok tree :=
    ⟨_, rfl⟩
  obtain ⟨tree, read⟩ := read
  obtain ⟨given, written, same, encoded, kept⟩ := Tree.unmodelled_kept (by decide) read
  obtain rfl := Json.object.inj same
  exact ⟨tree, read, written, encoded, kept⟩

end Documents

end Handoff.Design
