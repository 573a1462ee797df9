import Handoff.Proofs.Design.Field

set_option autoImplicit false
set_option relaxedAutoImplicit false

/-!
What the nodes and designs that are read were made of, and the induction over the nodes of a value that are read.
-/

namespace Handoff.Design

section Kinds

variable {header : Header} {members : Members} {kids : Kids} {node : Node}

theorem Record.map_decode_eq_ok {α β : Type} {record : Record α} {f : α → β} {b : β} :
    (record.decode members).map f = .ok b ↔
      firstFault record.checks members = none ∧ firstMissing record.required members = none ∧
        f (record.build members) = b := by
  constructor
  · intro h
    cases found : record.decode members with
    | error fault =>
      rw [found] at h
      cases h
    | ok a =>
      rw [found] at h
      obtain ⟨faults, missing, rfl⟩ := decode_eq_ok.mp found
      exact ⟨faults, missing, Except.ok.inj h⟩
  · rintro ⟨faults, missing, rfl⟩
    rw [decode_eq_ok.mpr ⟨faults, missing, rfl⟩]
    rfl

/-- A container has what its record is built of, and as extra members those that the record has no key for. -/
theorem decodeContainer_eq_ok {record : Record Container} :
    decodeContainer record kids header members = .ok node ↔
      firstFault record.checks members = none ∧ firstMissing record.required members = none ∧
        .container { header with extra := members.without record.keys } (record.build members) kids.nodes = node :=
  Record.map_decode_eq_ok

theorem decodeLeaf_eq_ok {α : Type} {record : Record α} {leaf : α → Leaf} :
    decodeLeaf record leaf header members = .ok node ↔
      firstFault record.checks members = none ∧ firstMissing record.required members = none ∧
        .leaf { header with extra := members.without record.keys } (leaf (record.build members)) = node :=
  Record.map_decode_eq_ok

/-- A node is read from its common attributes, its type, which is a text, and what is left for its kind. -/
theorem decodeMembers_eq_ok :
    decodeMembers kids members = .ok node ↔
      ∃ header type rest, headerRecord.decode members = .ok header ∧
        (members.without headerRecord.keys).takeOut "type" = some (.string type, rest) ∧
        decodeKind type kids header rest = .ok node := by
  unfold decodeMembers
  constructor
  · intro h
    split at h
    · cases h
    · rename_i header common
      split at h
      · cases h
      · rename_i type rest taken
        exact ⟨header, type, rest, common, taken, h⟩
      · cases h
  · rintro ⟨header, type, rest, common, taken, h⟩
    rw [common]
    simp only [taken, h]

end Kinds

/-- What holds of the nodes under `children`, when there are any. -/
inductive Below (P : Json → Node → Prop) (members : Members) : List Node → Prop
  | none : members.lookup "children" = none → Below P members []
  | some {items : List Json} {nodes : List Node} : members.lookup "children" = some (.array items) →
      List.Forall₂ P items nodes → Below P members nodes

theorem Below.all {P : Node → Prop} {All : List Node → Prop} {members : Members} {nodes : List Node}
    (below : Below (fun _ node => P node) members nodes) (nil : All [])
    (cons : ∀ node rest, P node → All rest → All (node :: rest)) : All nodes := by
  cases below with
  | none _ => exact nil
  | some found all =>
    clear found
    induction all with
    | nil => exact nil
    | cons first _ ih => exact cons _ _ first ih

mutual

/-- What holds of a node because of its members and of what holds of its children holds of all nodes that are read. -/
theorem Node.decode_induction {P : Json → Node → Prop}
    (step : ∀ members, (Json.object members).Sound → (∀ nodes, decodeKids members = .ok nodes → Below P members nodes) →
      ∀ node, decodeMembers (decodeKids members) members = .ok node → P (.object members) node)
    (v : Json) (sound : v.Sound) (node : Node) (h : Node.decode v = .ok node) : P v node :=
  match v with
  | .null | .bool _ | .int _ | .float _ | .string _ | .array _ => nomatch h
  | .object members => step members sound (decodeKids_induction step members sound.2) node h

private theorem decodeKids_induction {P : Json → Node → Prop}
    (step : ∀ members, (Json.object members).Sound → (∀ nodes, decodeKids members = .ok nodes → Below P members nodes) →
      ∀ node, decodeMembers (decodeKids members) members = .ok node → P (.object members) node)
    (members : List (String × Json)) (sound : Json.SoundMembers members) (nodes : List Node)
    (h : decodeKids members = .ok nodes) : Below P members nodes :=
  match members with
  | [] => by
    obtain rfl := Except.ok.inj h
    exact .none rfl
  | (key, v) :: rest => by
    -- The reader takes the first member of the name, as a lookup does.
    rw [decodeKids] at h
    split at h
    · rename_i here
      have found : List.lookup "children" ((key, v) :: rest) = some v := by
        rw [List.lookup_cons, beq_iff_eq.mpr here.symm]
      cases v with
      | array items => exact .some found (decodeAll_induction step items sound.1 nodes h)
      | null | bool _ | int _ | float _ | string _ | object _ => nomatch h
    · rename_i other
      have same : List.lookup "children" ((key, v) :: rest) = rest.lookup "children" := by
        rw [List.lookup_cons, beq_false_of_ne (Ne.symm other)]
      cases decodeKids_induction step rest sound.2 nodes h with
      | none found => exact .none (same.trans found)
      | some found all => exact .some (same.trans found) all

private theorem decodeAll_induction {P : Json → Node → Prop}
    (step : ∀ members, (Json.object members).Sound → (∀ nodes, decodeKids members = .ok nodes → Below P members nodes) →
      ∀ node, decodeMembers (decodeKids members) members = .ok node → P (.object members) node)
    (items : List Json) (sound : Json.SoundItems items) (nodes : List Node) (h : decodeAll items = .ok nodes) :
    List.Forall₂ P items nodes :=
  match items with
  | [] => by
    obtain rfl := Except.ok.inj h
    exact .nil
  | v :: vs => by
    rw [decodeAll] at h
    split at h
    · cases h
    · rename_i node first
      split at h
      · cases h
      · rename_i rest others
        obtain rfl := Except.ok.inj h
        exact .cons (Node.decode_induction step v sound.1 node first) (decodeAll_induction step vs sound.2 rest others)

end

/-- A document that makes a design has a root, which is the design's, and the design's extra members are those of the
document that it has no key for. -/
theorem Tree.exists_of_decode {v : Json} {tree : Tree} (h : Tree.decode v = .ok tree) :
    ∃ (members : Members) (root : Json), v = .object members ∧ firstFault treeRecord.checks members = none ∧
      members.lookup "root" = some root ∧ Node.decode root = .ok tree.root ∧
      { treeRecord.build members with extra := members.without treeRecord.keys } = tree := by
  cases v with
  | null | bool _ | int _ | float _ | string _ | array _ => nomatch h
  | object members =>
    obtain ⟨faults, missing, rfl⟩ := Record.map_decode_eq_ok.mp h
    obtain ⟨root, found⟩ := firstMissing_eq_none.mp missing "root" (List.mem_singleton_self _)
    have fault := firstFault_eq_none.mp faults _ (Entries.mem_of_lookup found)
    obtain ⟨node, read⟩ := Field.faultOf_eq_none.mp (show faultOf Node.decode root = none from fault)
    refine ⟨members, root, rfl, faults, found, ?_, rfl⟩
    change Node.decode root = .ok (rootField.getD members _)
    unfold Field.getD
    rw [show List.lookup rootField.key members = some root from found]
    simp only [rootField, read]

end Handoff.Design
