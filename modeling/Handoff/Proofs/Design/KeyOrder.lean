import Handoff.Proofs.Design.Field

set_option autoImplicit false
set_option relaxedAutoImplicit false

/-!
Designs that are read from values which differ in the order of their keys: they are the same once their extra
members are sorted.
-/

namespace Handoff.Design

/-- The header with its extra members sorted. -/
def Header.sorted (h : Header) : Header :=
  { h with extra := Json.sorted h.extra }

mutual

/-- The node with the extra members of every node sorted. -/
def Node.sorted : Node → Node
  | .leaf header kind => .leaf header.sorted kind
  | .container header kind children => .container header.sorted kind (Node.sortedAll children)

def Node.sortedAll : List Node → List Node
  | [] => []
  | node :: rest => node.sorted :: Node.sortedAll rest

end

/-- The design with all extra members sorted. -/
def Tree.sorted (tree : Tree) : Tree :=
  { tree with root := tree.root.sorted, extra := Json.sorted tree.extra }

theorem Node.sortedAll_eq (nodes : List Node) : Node.sortedAll nodes = nodes.map Node.sorted := by
  induction nodes with
  | nil => rfl
  | cons node rest ih => rw [Node.sortedAll, ih, List.map_cons]

/-- Children that come to the same once they are sorted. -/
def Kids.Agree (kids others : Kids) : Prop :=
  kids.toOption.map (List.map Node.sorted) = others.toOption.map (List.map Node.sorted)

theorem Kids.Agree.refl (kids : Kids) : kids.Agree kids := rfl

theorem Kids.Agree.nodes {kids others : Kids} (h : kids.Agree others) :
    kids.nodes.map Node.sorted = others.nodes.map Node.sorted := by
  rcases cases_of_map_toOption_eq h with ⟨nodes, others, rfl, rfl, same⟩ | ⟨e, f, rfl, rfl⟩
  · exact same
  · rfl

theorem Kids.Agree.check {kids others : Kids} (h : kids.Agree others) :
    Check.Agrees (kidsCheck kids) (kidsCheck others) := by
  refine ⟨rfl, ?_⟩
  intro v _
  rcases cases_of_map_toOption_eq h with ⟨nodes, others, rfl, rfl, -⟩ | ⟨e, f, rfl, rfl⟩
  · rfl
  · rfl

/-- Two records that check and build alike, the first from sorted members. -/
structure Record.Alike {α : Type} (record other : Record α) : Prop where
  required : record.required = other.required
  checks : List.Forall₂ Check.Agrees record.checks other.checks
  build : ∀ members, (Json.object members).Sound → record.build (Json.sorted members) = other.build members

namespace Record.Alike

variable {α : Type} {record other : Record α}

theorem keys (h : record.Alike other) : record.keys = other.keys := by
  have same : List.Forall₂ (· = ·) (record.checks.map Prod.fst) (other.checks.map Prod.fst) := by
    rw [List.forall₂_map_left_iff, List.forall₂_map_right_iff]
    exact h.checks.imp fun _ _ agrees => agrees.key
  exact List.forall₂_eq_eq_eq ▸ same

theorem decode (h : record.Alike other) {members : Members} (sound : (Json.object members).Sound) :
    (record.decode (Json.sorted members)).toOption = (other.decode members).toOption := by
  have same := Record.decode_sorted id sound h.required h.checks fun _ => h.build members sound
  rwa [Option.map_id_fun, id_eq, id_eq] at same

end Record.Alike

section Records

private theorem alike_header : headerRecord.Alike headerRecord := by
  refine ⟨rfl, ?_, ?_⟩
  · simp [headerRecord, idField, nameField, positionField, sizeField, opacityField, optionalField]
  · intro members sound
    simp [headerRecord, idField, nameField, positionField, sizeField, opacityField, optionalField, sound]

private theorem alike_rect : rectRecord.Alike rectRecord := by
  refine ⟨rfl, ?_, ?_⟩
  · simp [rectRecord, fillField, strokeField, strokeWidthField, radiusField, optionalField]
  · intro members sound
    simp [rectRecord, fillField, strokeField, strokeWidthField, radiusField, optionalField, sound]

private theorem alike_ellipse : ellipseRecord.Alike ellipseRecord := by
  refine ⟨rfl, ?_, ?_⟩
  · simp [ellipseRecord, fillField, strokeField, strokeWidthField, optionalField]
  · intro members sound
    simp [ellipseRecord, fillField, strokeField, strokeWidthField, optionalField, sound]

private theorem alike_label : labelRecord.Alike labelRecord := by
  refine ⟨rfl, ?_, ?_⟩
  · simp [labelRecord, textField, colorField, fontFamilyField, fontSizeField, fontWeightField, fontStyleField,
      textAlignField, variantField, optionalField]
  · intro members sound
    simp [labelRecord, textField, colorField, fontFamilyField, fontSizeField, fontWeightField, fontStyleField,
      textAlignField, variantField, optionalField, sound]

private theorem alike_image : imageRecord.Alike imageRecord := by
  refine ⟨rfl, ?_, ?_⟩
  · simp [imageRecord, srcField, altField, radiusField, objectFitField, optionalField]
  · intro members sound
    simp [imageRecord, srcField, altField, radiusField, objectFitField, optionalField, sound]

private theorem alike_line : lineRecord.Alike lineRecord := by
  refine ⟨rfl, ?_, ?_⟩
  · simp [lineRecord, segmentField, strokeField, strokeWidthField, optionalField]
  · intro members sound
    simp [lineRecord, segmentField, strokeField, strokeWidthField, optionalField, sound]

private theorem alike_path : pathRecord.Alike pathRecord := by
  refine ⟨rfl, ?_, ?_⟩
  · simp [pathRecord, pointsField, closedField, fillField, strokeField, strokeWidthField, optionalField]
  · intro members sound
    simp [pathRecord, pointsField, closedField, fillField, strokeField, strokeWidthField, optionalField, sound]

variable {kids others : Kids}

private theorem alike_panel (role : PanelRole) (agree : kids.Agree others) :
    (panelRecord role kids).Alike (panelRecord role others) := by
  refine ⟨rfl, ?_, ?_⟩
  · simp [panelRecord, agree.check, backgroundField, paddingField, radiusField, optionalField]
  · intro members sound
    simp [panelRecord, backgroundField, paddingField, radiusField, optionalField, sound]

private theorem alike_stack (agree : kids.Agree others) : (stackRecord kids).Alike (stackRecord others) := by
  refine ⟨rfl, ?_, ?_⟩
  · simp [stackRecord, agree.check, directionField, gapField, alignField, justifyField, backgroundField,
      paddingField, optionalField]
  · intro members sound
    simp [stackRecord, directionField, gapField, alignField, justifyField, backgroundField, paddingField,
      optionalField, sound]

private theorem alike_grid (agree : kids.Agree others) : (gridRecord kids).Alike (gridRecord others) := by
  refine ⟨rfl, ?_, ?_⟩
  · simp [gridRecord, agree.check, columnsField, gapField, backgroundField, paddingField, optionalField]
  · intro members sound
    simp [gridRecord, columnsField, gapField, backgroundField, paddingField, optionalField, sound]

end Records

/-- The types that a node may have, but for the unknown ones. -/
def typeNames : List String :=
  ["frame", "box", "group", "stack", "grid", "rect", "ellipse", "text", "image", "line", "curve", "polygon", "draw"]

/-- How nodes of a type are read: as containers by a record, as leaves by a record, or as they are. -/
inductive TypeCase (type : String) : Prop
  | container (record : Kids → Record Container)
      (alike : ∀ {kids others : Kids}, kids.Agree others → (record kids).Alike (record others))
      (reads : ∀ kids header members,
        decodeKind type kids header members = decodeContainer (record kids) kids header members)
  | leaf {α : Type} (record : Record α) (leaf : α → Leaf) (alike : record.Alike record)
      (reads : ∀ kids header members, decodeKind type kids header members = decodeLeaf record leaf header members)
  | unknown (reads : ∀ kids header members,
      decodeKind type kids header members = .ok (.leaf { header with extra := members } (.unknown type)))

theorem decodeKind_unknown {type : String} (other : type ∉ typeNames) (kids : Kids) (header : Header)
    (members : Members) :
    decodeKind type kids header members = .ok (.leaf { header with extra := members } (.unknown type)) := by
  unfold decodeKind
  split
  all_goals first | rfl | exact absurd (by decide) other

theorem typeCase (type : String) : TypeCase type := by
  by_cases known : type ∈ typeNames
  · simp only [typeNames, List.mem_cons, List.not_mem_nil, or_false] at known
    rcases known with rfl | rfl | rfl | rfl | rfl | rfl | rfl | rfl | rfl | rfl | rfl | rfl | rfl
    · exact .container _ (alike_panel .frame) fun _ _ _ => rfl
    · exact .container _ (alike_panel .box) fun _ _ _ => rfl
    · exact .container _ (alike_panel .group) fun _ _ _ => rfl
    · exact .container _ alike_stack fun _ _ _ => rfl
    · exact .container _ alike_grid fun _ _ _ => rfl
    · exact .leaf _ _ alike_rect fun _ _ _ => rfl
    · exact .leaf _ _ alike_ellipse fun _ _ _ => rfl
    · exact .leaf _ _ alike_label fun _ _ _ => rfl
    · exact .leaf _ _ alike_image fun _ _ _ => rfl
    · exact .leaf _ _ alike_line fun _ _ _ => rfl
    · exact .leaf _ _ alike_path fun _ _ _ => rfl
    · exact .leaf _ _ alike_path fun _ _ _ => rfl
    · exact .leaf _ _ alike_path fun _ _ _ => rfl
  · exact .unknown (decodeKind_unknown known)

private theorem decodeKind_sorted (type : String) {kids others : Kids} (agree : kids.Agree others) (header : Header)
    {members : Members} (sound : (Json.object members).Sound) :
    (decodeKind type kids header (Json.sorted members)).toOption.map Node.sorted =
      (decodeKind type others header members).toOption.map Node.sorted := by
  cases typeCase type with
  | container record alike reads =>
    rw [reads, reads, decodeContainer, decodeContainer, toOption_map, toOption_map, Option.map_map, Option.map_map,
      (alike agree).decode sound, (alike agree).keys]
    refine congrFun (congrArg Option.map (funext fun kind => ?_)) _
    simp only [Function.comp_apply, Node.sorted, Header.sorted, Node.sortedAll_eq, agree.nodes,
      Json.sorted_without sound.distinct]
  | leaf record leaf alike reads =>
    rw [reads, reads, decodeLeaf, decodeLeaf, toOption_map, toOption_map, Option.map_map, Option.map_map,
      alike.decode sound]
    refine congrFun (congrArg Option.map (funext fun attrs => ?_)) _
    simp only [Function.comp_apply, Node.sorted, Header.sorted, Json.sorted_without sound.distinct]
  | unknown reads =>
    rw [reads, reads]
    have same := Json.sorted_sorted members
    exact congrArg (fun extra => some (Node.leaf { header with extra := extra } (.unknown type))) same

private theorem decodeMembers_sorted {kids others : Kids} (agree : kids.Agree others) {members : Members}
    (sound : (Json.object members).Sound) :
    (decodeMembers kids (Json.sorted members)).toOption.map Node.sorted =
      (decodeMembers others members).toOption.map Node.sorted := by
  unfold decodeMembers
  rcases cases_of_toOption_eq (alike_header.decode sound) with ⟨header, sorted, plain⟩ | ⟨e, f, sorted, plain⟩
  · rw [sorted, plain]
    simp only
    have left := sound.without headerRecord.keys
    have right := sound.sorted.without headerRecord.keys
    have moved := Json.without_sorted members headerRecord.keys
    have keys := (moved.map Prod.fst).trans (.of_eq (Json.keys_sortMembers _))
    cases taken : Entries.takeOut "type" (Entries.without members headerRecord.keys) with
    | none =>
      have none : Entries.takeOut "type" (Entries.without (Json.sorted members) headerRecord.keys) = none := by
        rw [Entries.takeOut_eq_none_iff, keys.mem_iff]
        exact Entries.takeOut_eq_none_iff.mp taken
      rw [none]
    | some pair =>
      obtain ⟨v, rest⟩ := pair
      have split := Entries.perm_of_takeOut taken
      have across : (("type", v.sortKeys) :: Json.sortMembers rest).Perm
          (Entries.without (Json.sorted members) headerRecord.keys) := by
        have mapped := split.map fun entry : String × Json => (entry.1, entry.2.sortKeys)
        rw [List.map_cons, ← Json.sortMembers_eq, ← Json.sortMembers_eq] at mapped
        exact mapped.trans moved.symm
      -- Another member may be the last one now and take the place of the type; what is left is the same all the same.
      obtain ⟨other, found, shuffled⟩ := Entries.takeOut_of_perm right.distinct across
      have soundRest : (Json.object rest).Sound := (left.perm split).tail
      have soundOther : (Json.object other).Sound := (right.perm ((shuffled.cons _).trans across)).tail
      have same := Json.sorted_eq_of_perm_sortMembers shuffled soundOther.distinct
      rw [found]
      cases v with
      | string type =>
        change (decodeKind type kids header other).toOption.map Node.sorted = _
        rw [← decodeKind_sorted type (.refl kids) header soundOther, same]
        exact decodeKind_sorted type agree header soundRest
      | null | bool _ | int _ | float _ | array _ | object _ => rfl
  · rw [sorted, plain]
    rfl

theorem decodeKids_eq (members : Members) :
    decodeKids members = match members.lookup "children" with
      | some v => decodeItems v
      | none => .ok [] := by
  induction members with
  | nil => rfl
  | cons entry rest ih =>
    obtain ⟨key, v⟩ := entry
    rw [decodeKids, List.lookup_cons]
    by_cases here : key = "children"
    · rw [if_pos here, beq_iff_eq.mpr here.symm]
    · rw [if_neg here, beq_false_of_ne (Ne.symm here), ih]

mutual

/-- A node reads the same, up to the order of its extra members, however the keys of its value are ordered. -/
theorem Node.decode_sortKeys (v : Json) (sound : v.Sound) :
    (Node.decode v.sortKeys).toOption.map Node.sorted = (Node.decode v).toOption.map Node.sorted :=
  match v with
  | .null | .bool _ | .int _ | .float _ | .string _ | .array _ => rfl
  | .object members => by
    have agree : (decodeKids (Json.sorted members)).Agree (decodeKids members) := by
      have kept := Entries.lookup_perm (Json.sorted_perm members) (Json.nodup_sorted sound.distinct) "children"
      rw [decodeKids_eq, kept, ← decodeKids_eq]
      exact decodeKids_sortMembers members sound.2
    exact decodeMembers_sorted agree sound

private theorem decodeKids_sortMembers (members : List (String × Json)) (sound : Json.SoundMembers members) :
    (decodeKids (Json.sortMembers members)).Agree (decodeKids members) :=
  match members with
  | [] => rfl
  | (key, v) :: rest => by
    rw [Json.sortMembers, decodeKids, decodeKids]
    by_cases here : key = "children"
    · rw [if_pos here, if_pos here]
      exact decodeItems_sortKeys v sound.1
    · rw [if_neg here, if_neg here]
      exact decodeKids_sortMembers rest sound.2

private theorem decodeItems_sortKeys (v : Json) (sound : v.Sound) :
    Kids.Agree (decodeItems v.sortKeys) (decodeItems v) :=
  match v with
  | .null | .bool _ | .int _ | .float _ | .string _ | .object _ => rfl
  | .array items => decodeAll_sortItems items sound

private theorem decodeAll_sortItems (items : List Json) (sound : Json.SoundItems items) :
    Kids.Agree (decodeAll (Json.sortItems items)) (decodeAll items) :=
  match items with
  | [] => rfl
  | v :: vs => by
    have first := Node.decode_sortKeys v sound.1
    have rest := decodeAll_sortItems vs sound.2
    rw [Json.sortItems, decodeAll, decodeAll]
    rcases cases_of_map_toOption_eq first with ⟨a, b, sorted, plain, here⟩ | ⟨e, f, sorted, plain⟩
    · rw [sorted, plain]
      rcases cases_of_map_toOption_eq rest with ⟨as, bs, sorted, plain, there⟩ | ⟨e, f, sorted, plain⟩
      · simp only [sorted, plain]
        refine congrArg some ?_
        rw [List.map_cons, List.map_cons, here, there]
      · simp only [sorted, plain]
        rfl
    · rw [sorted, plain]
      rfl

end

private theorem agrees_root : Check.Agrees rootField.check rootField.check := by
  refine ⟨rfl, ?_⟩
  intro v sound
  change (faultOf Node.decode v.sortKeys).isNone = (faultOf Node.decode v).isNone
  unfold faultOf
  rcases cases_of_map_toOption_eq (Node.decode_sortKeys v sound) with ⟨a, b, sorted, plain, -⟩ | ⟨e, f, sorted, plain⟩
  · rw [sorted, plain]
  · rw [sorted, plain]
    rfl

private theorem root_sorted {members : Members} (sound : (Json.object members).Sound) (default : Node) :
    (rootField.getD (Json.sorted members) default).sorted = (rootField.getD members default).sorted := by
  unfold Field.getD
  rw [Json.lookup_sorted sound.distinct]
  cases found : members.lookup rootField.key with
  | none => rfl
  | some v =>
    simp only [Option.map_some, rootField]
    rcases cases_of_map_toOption_eq (Node.decode_sortKeys v (sound.of_lookup found)) with
      ⟨a, b, sorted, plain, same⟩ | ⟨e, f, sorted, plain⟩
    · rw [sorted, plain]
      exact same
    · rw [sorted, plain]

/-- A design reads the same, up to the order of its extra members, however the keys of its value are ordered. -/
theorem Tree.decode_sortKeys (v : Json) (sound : v.Sound) :
    (Tree.decode v.sortKeys).toOption.map Tree.sorted = (Tree.decode v).toOption.map Tree.sorted := by
  cases v with
  | null | bool _ | int _ | float _ | string _ | array _ => rfl
  | object members =>
    have checks : List.Forall₂ Check.Agrees treeRecord.checks treeRecord.checks := by
      simp [treeRecord, versionField, nameField, optionalField, agrees_root]
    have same := @Record.decode_sorted _ _ treeRecord treeRecord _
      (fun tree => { Tree.sorted tree with extra := Json.sorted (Entries.without members treeRecord.keys) })
      sound rfl checks fun _ => by
        simp [treeRecord, versionField, nameField, optionalField, Tree.sorted, sound, root_sorted]
    rw [Json.sortKeys_object, Tree.decode, Tree.decode, toOption_map, toOption_map, Option.map_map, Option.map_map]
    refine Eq.trans ?_ same
    refine congrFun (congrArg Option.map (funext fun tree => ?_)) _
    simp only [Function.comp_apply, Tree.sorted, Json.sorted_without sound.distinct]

end Handoff.Design
