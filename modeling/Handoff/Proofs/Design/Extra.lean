import Handoff.Design.Encode
import Handoff.Proofs.Design.Inversion
import Handoff.Proofs.Design.KeyOrder

set_option autoImplicit false
set_option relaxedAutoImplicit false

/-!
The extra members of designs. Those that are read have no key twice, and sorting them leaves the design's value as
it is, up to the order of its keys.
-/

namespace Handoff.Design

def Header.Sound (h : Header) : Prop :=
  (Json.object h.extra).Sound

mutual

/-- The extra members of every node make a sound object. -/
def Node.Sound : Node → Prop
  | .leaf header _ => header.Sound
  | .container header _ children => header.Sound ∧ Node.AllSound children

def Node.AllSound : List Node → Prop
  | [] => True
  | node :: rest => node.Sound ∧ Node.AllSound rest

end

/-- All extra members are sound. -/
structure Tree.Sound (tree : Tree) : Prop where
  root : tree.root.Sound
  extra : (Json.object tree.extra).Sound

private theorem sound_decodeKind {type : String} {kids : Kids} (children : ∀ nodes, kids = .ok nodes → Node.AllSound nodes)
    {header : Header} {members : Members} (sound : (Json.object members).Sound) {node : Node}
    (h : decodeKind type kids header members = .ok node) : node.Sound := by
  have nodes : Node.AllSound kids.nodes := by
    cases kids with
    | ok nodes => exact children nodes rfl
    | error fault => trivial
  cases typeCase type with
  | container record alike reads =>
    rw [reads] at h
    obtain ⟨-, -, rfl⟩ := decodeContainer_eq_ok.mp h
    exact ⟨sound.without _, nodes⟩
  | leaf record leaf alike reads =>
    rw [reads] at h
    obtain ⟨-, -, rfl⟩ := decodeLeaf_eq_ok.mp h
    exact sound.without _
  | unknown reads =>
    rw [reads] at h
    obtain rfl := Except.ok.inj h
    exact sound

theorem Node.sound_of_decode (v : Json) (sound : v.Sound) (node : Node) (h : Node.decode v = .ok node) :
    node.Sound := by
  refine Node.decode_induction (P := fun _ node => node.Sound) ?_ v sound node h
  intro members sound below node h
  obtain ⟨header, type, rest, -, taken, made⟩ := decodeMembers_eq_ok.mp h
  have left := sound.without headerRecord.keys
  have own := (left.perm (Entries.perm_of_takeOut taken)).tail
  exact sound_decodeKind (fun nodes read => (below nodes read).all trivial fun _ _ => And.intro) own made

theorem Tree.sound_of_decode {v : Json} (sound : v.Sound) {tree : Tree} (h : Tree.decode v = .ok tree) :
    tree.Sound := by
  obtain ⟨members, root, rfl, -, found, read, rfl⟩ := Tree.exists_of_decode h
  exact ⟨Node.sound_of_decode root (sound.of_lookup found) _ read, sound.without _⟩

section Encoding

/-- Members that look up the same, up to the order of keys below them. -/
private def Similar (members others : Members) : Prop :=
  ∀ key, (members.lookup key).map Json.sortKeys = (others.lookup key).map Json.sortKeys

private theorem sorted_putAll {members others : Members}
    (similar : Similar (Entries.putAll [] members) (Entries.putAll [] others)) :
    Json.sorted (Entries.putAll [] members) = Json.sorted (Entries.putAll [] others) :=
  Json.sorted_eq_of_lookup (Entries.nodup_putAll_nil members) (Entries.nodup_putAll_nil others) similar

private theorem similar_putAll {entries entries' more more' : Members} (similar : Similar entries entries')
    (same : Json.sortMembers more = Json.sortMembers more') :
    Similar (Entries.putAll entries more) (Entries.putAll entries' more') := by
  induction more generalizing entries entries' more' with
  | nil =>
    cases more' with
    | nil => exact similar
    | cons entry rest => cases same
  | cons entry rest ih =>
    cases more' with
    | nil => cases same
    | cons entry' rest' =>
      obtain ⟨key, v⟩ := entry
      obtain ⟨key', v'⟩ := entry'
      obtain ⟨first, others⟩ := List.cons.inj same
      obtain ⟨rfl, values⟩ := Prod.mk.inj first
      change Similar (Entries.putAll (Entries.put key v entries) rest) (Entries.putAll (Entries.put key v' entries') rest')
      refine ih ?_ others
      intro name
      rw [Entries.lookup_put, Entries.lookup_put]
      by_cases here : name = key
      · rw [if_pos here, if_pos here, Option.map_some, Option.map_some, values]
      · rw [if_neg here, if_neg here]
        exact similar name

private theorem similar_putAll_of_similar {entries entries' more more' : Members} (similar : Similar entries entries')
    (distinct : (more.map Prod.fst).Nodup) (distinct' : (more'.map Prod.fst).Nodup) (new : Similar more more') :
    Similar (Entries.putAll entries more) (Entries.putAll entries' more') := by
  intro key
  rw [Entries.lookup_putAll distinct, Entries.lookup_putAll distinct', Option.map_or, Option.map_or, new key,
    similar key]

private theorem similar_sorted {extra : Members} (distinct : (extra.map Prod.fst).Nodup) :
    Similar extra (Json.sorted extra) := by
  intro key
  rw [Json.lookup_sorted distinct, Option.map_map]
  cases List.lookup key extra with
  | none => rfl
  | some v => exact congrArg some (Json.sortKeys_sortKeys v).symm

private theorem sortMembers_append (members others : Members) :
    Json.sortMembers (members ++ others) = Json.sortMembers members ++ Json.sortMembers others := by
  rw [Json.sortMembers_eq, Json.sortMembers_eq, Json.sortMembers_eq, List.map_append]

private theorem sortMembers_members {children others : List Json}
    (same : children.map Json.sortKeys = others.map Json.sortKeys) (kind : Container) :
    Json.sortMembers (kind.members children) = Json.sortMembers (kind.members others) := by
  have empty : children.isEmpty = others.isEmpty := by
    have length := congrArg List.length same
    rw [List.length_map, List.length_map] at length
    rw [Bool.eq_iff_iff, List.isEmpty_iff_length_eq_zero, List.isEmpty_iff_length_eq_zero, length]
  have member : Json.sortMembers (childrenMember children) = Json.sortMembers (childrenMember others) := by
    unfold childrenMember
    rw [empty]
    split
    · rfl
    · simp only [Json.sortMembers, Json.sortKeys_array, same]
  cases kind with
  | panel role a => simp only [Container.members, sortMembers_append, member]
  | stack a => simp only [Container.members, List.cons_append, Json.sortMembers, sortMembers_append, member]
  | grid a => simp only [Container.members, List.cons_append, Json.sortMembers, sortMembers_append, member]

private theorem similar_kindMembers {attributes attributes' extra : Members}
    (same : Json.sortMembers attributes = Json.sortMembers attributes') (distinct : (extra.map Prod.fst).Nodup)
    (type : String) :
    Similar (kindMembers attributes extra type) (kindMembers attributes' (Json.sorted extra) type) := by
  unfold kindMembers
  rw [Entries.putAll_append, Entries.putAll_append, Entries.putAll_append, Entries.putAll_append]
  have plain : Similar (Entries.putAll [] attributes) (Entries.putAll [] attributes') :=
    similar_putAll (fun _ => rfl) same
  have beside := similar_putAll_of_similar plain distinct (Json.nodup_sorted distinct) (similar_sorted distinct)
  exact similar_putAll beside rfl

private theorem sortKeys_merged (shared : Members) {members others : Members}
    (distinct : (members.map Prod.fst).Nodup) (distinct' : (others.map Prod.fst).Nodup)
    (similar : Similar members others) :
    (merged (shared ++ members)).sortKeys = (merged (shared ++ others)).sortKeys := by
  refine congrArg Json.object (sorted_putAll ?_)
  rw [Entries.putAll_append, Entries.putAll_append]
  exact similar_putAll_of_similar (fun _ => rfl) distinct distinct' similar

mutual

/-- A node with sorted extra members has the same value, up to the order of its keys. -/
theorem Node.encode_sorted (node : Node) (sound : node.Sound) :
    node.encode.sortKeys = node.sorted.encode.sortKeys :=
  match node with
  | .leaf header kind =>
    sortKeys_merged header.members (Entries.nodup_putAll_nil _) (Entries.nodup_putAll_nil _)
      (similar_kindMembers rfl sound.distinct kind.typeName)
  | .container header kind children =>
    have below := encodeAll_sorted children sound.2
    sortKeys_merged header.members (Entries.nodup_putAll_nil _) (Entries.nodup_putAll_nil _)
      (similar_kindMembers (sortMembers_members below kind) sound.1.distinct kind.typeName)

private theorem encodeAll_sorted (nodes : List Node) (sound : Node.AllSound nodes) :
    (Node.encodeAll nodes).map Json.sortKeys = (Node.encodeAll (Node.sortedAll nodes)).map Json.sortKeys :=
  match nodes with
  | [] => rfl
  | node :: rest => by
    have first := Node.encode_sorted node sound.1
    have others := encodeAll_sorted rest sound.2
    rw [Node.sortedAll, Node.encodeAll, Node.encodeAll, List.map_cons, List.map_cons, others]
    exact congrArg (· :: _) first

end

/-- A design with sorted extra members has the same value, up to the order of its keys. -/
theorem Tree.encode_sorted {tree : Tree} (sound : tree.Sound) : tree.encode.sortKeys = tree.sorted.encode.sortKeys := by
  have root := Node.encode_sorted tree.root sound.root
  have split (t : Tree) (v : Json) : t.members v =
      (member "version" .string t.version ++ member "name" .string t.name ++ [("root", v)]) ++ t.extra := by
    simp only [Tree.members, List.append_assoc, List.singleton_append]
  refine congrArg Json.object (sorted_putAll ?_)
  rw [split, split, Entries.putAll_append [] _ tree.extra, Entries.putAll_append [] _ tree.sorted.extra]
  refine similar_putAll_of_similar (similar_putAll (fun _ => rfl) ?_) sound.extra.distinct
    (Json.nodup_sorted sound.extra.distinct) (similar_sorted sound.extra.distinct)
  simp only [sortMembers_append, Json.sortMembers, root]
  rfl

end Encoding

end Handoff.Design
