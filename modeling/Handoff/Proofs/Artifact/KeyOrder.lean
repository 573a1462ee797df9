import Mathlib
import Handoff.Artifact
import Handoff.Proofs.Archive.Outcome
import Handoff.Proofs.Design.Extra
import Handoff.Proofs.Design.Preorder
import Handoff.Proofs.Json.Reordering

set_option autoImplicit false
set_option relaxedAutoImplicit false

/-!
No artifact depends on the order of the keys in the text that its design was read from.
-/

namespace Handoff
open Design

namespace React

private theorem leafMarkup_sorted (header : Header) (placement : Placement) (kind : Leaf) :
    leafMarkup header.sorted placement kind = leafMarkup header placement kind := by
  cases kind <;> rfl

private theorem containerLook_sorted (header : Header) (placement : Placement) (kind : Container) :
    containerLook header.sorted placement kind = containerLook header placement kind := by
  cases kind <;> rfl

private theorem markerName_sorted (comments : Bool) (node : Node) :
    markerName comments node.sorted = markerName comments node := by
  cases node <;> rfl

private theorem markers_sorted (comments : Bool) (placement : Placement) (node : Node) :
    markers comments placement node.sorted = markers comments placement node := by
  rw [markers, markers, markerName_sorted]

mutual

private theorem element_sorted (comments : Bool) (placement : Placement) (node : Node) :
    element comments placement node.sorted = element comments placement node :=
  match node with
  | .leaf header kind => leafMarkup_sorted header placement kind
  | .container header kind [] => by
    rw [Node.sorted, Node.sortedAll, element, element, containerLook_sorted]
  | .container header kind (child :: rest) => by
    rw [Node.sorted, Node.sortedAll, element, element, containerLook_sorted, markers_sorted,
      element_sorted comments (childPlacement kind) child, elements_sorted comments (childPlacement kind) rest]

private theorem elements_sorted (comments : Bool) (placement : Placement) (nodes : List Node) :
    elements comments placement (Node.sortedAll nodes) = elements comments placement nodes :=
  match nodes with
  | [] => rfl
  | node :: rest => by
    rw [Node.sortedAll, elements, elements, markers_sorted, element_sorted comments placement node,
      elements_sorted comments placement rest]

end

theorem generate_sorted (options : Options) (tree : Tree) : generate options tree.sorted = generate options tree := by
  have root : bodyLines options (Shell.of options (componentName options.componentName)).depth tree.root.sorted =
      bodyLines options (Shell.of options (componentName options.componentName)).depth tree.root := by
    rw [bodyLines, bodyLines, markerName_sorted, element_sorted]
  simp only [generate, componentLines, Tree.sorted, root]

end React

namespace Roblox

private theorem leafWidget_sorted (header : Header) (order : Option Nat) (kind : Leaf) :
    leafWidget? header.sorted order kind = leafWidget? header order kind := by
  cases kind <;> rfl

private theorem leafDecorations_sorted (header : Header) (kind : Leaf) :
    leafDecorations header.sorted kind = leafDecorations header kind := by
  cases kind <;> rfl

private theorem containerWidget_sorted (header : Header) (order : Option Nat) (kind : Container) :
    containerWidget header.sorted order kind = containerWidget header order kind := by
  cases kind <;> rfl

private theorem containerDecorations_sorted (header : Header) (kind : Container) :
    containerDecorations header.sorted kind = containerDecorations header kind := by
  cases kind <;> rfl

mutual

private theorem draw_sorted (parent : Variable) (order : Option Nat) (last : Nat) (node : Node) :
    draw parent order last node.sorted = draw parent order last node :=
  match node with
  | .leaf header kind => by
    rw [Node.sorted, draw, draw, leafWidget_sorted, leafDecorations_sorted]
    rfl
  | .container header kind children => by
    have below (v : Variable) (ranked : Bool) (rank last : Nat) := drawAll_sorted v ranked rank last children
    simp only [Node.sorted, draw, containerWidget_sorted, containerDecorations_sorted, below]

private theorem drawAll_sorted (parent : Variable) (ranked : Bool) (rank last : Nat) (nodes : List Node) :
    drawAll parent ranked rank last (Node.sortedAll nodes) = drawAll parent ranked rank last nodes :=
  match nodes with
  | [] => rfl
  | node :: rest => by
    have first := draw_sorted parent (if ranked then some rank else none) last node
    have others := drawAll_sorted parent ranked (rank + 1)
      (draw parent (if ranked then some rank else none) last node).last rest
    simp only [Node.sortedAll, drawAll, first, others]

end

theorem generate_sorted (options : Options) (units : Units) (tree : Tree) :
    generate options units tree.sorted = generate options units tree := by
  simp only [generate, scriptOf, Tree.sorted, draw_sorted]

end Roblox

namespace Design.Node

mutual

private theorem preorder_sorted (node : Node) : node.sorted.preorder = node.preorder.map Node.sorted :=
  match node with
  | .leaf header kind => rfl
  | .container header kind children => by
    rw [Node.sorted, preorder, preorder, List.map_cons, preorders_sorted children]
    rfl

private theorem preorders_sorted (nodes : List Node) :
    preorders (Node.sortedAll nodes) = (preorders nodes).map Node.sorted :=
  match nodes with
  | [] => rfl
  | node :: rest => by
    rw [Node.sortedAll, preorders, preorders, List.map_append, preorder_sorted node, preorders_sorted rest]

end

mutual

private theorem sound_preorder (node : Node) (sound : node.Sound) : ∀ n ∈ node.preorder, n.header.Sound :=
  match node with
  | .leaf _ _ => List.forall_mem_singleton.mpr sound
  | .container _ _ children =>
    List.forall_mem_cons.mpr ⟨sound.1, sound_preorders children sound.2⟩

private theorem sound_preorders (nodes : List Node) (sound : Node.AllSound nodes) :
    ∀ n ∈ preorders nodes, n.header.Sound :=
  match nodes with
  | [] => nofun
  | node :: rest =>
    List.forall_mem_append.mpr ⟨sound_preorder node sound.1, sound_preorders rest sound.2⟩

end

end Design.Node

namespace Token

private theorem looseText_sorted {header : Header} (sound : header.Sound) (key : String) :
    looseText header.sorted.extra key = looseText header.extra key := by
  unfold looseText Entries.get?
  rw [Header.sorted, Json.lookup_sorted sound.distinct]
  cases List.lookup key header.extra with
  | none => rfl
  | some v => cases v <;> rfl

private theorem colors_sorted {node : Node} (sound : node.header.Sound) :
    Use.colors node.sorted = Use.colors node := by
  cases node with
  | container header kind children => cases kind <;> rfl
  | leaf header kind =>
    cases kind with
    | unknown type =>
      change paints (["fill", "stroke", "background", "color"].map (looseText header.sorted.extra)) = _
      have loose : looseText header.sorted.extra = looseText header.extra := funext (looseText_sorted sound)
      rw [loose]
      rfl
    | rect _ | ellipse _ | text _ | image _ | line _ | path _ _ => rfl

private theorem font_sorted (node : Node) : Use.font node.sorted = Use.font node := by
  cases node with
  | container header kind children => rfl
  | leaf header kind => cases kind <;> rfl

private theorem spacing_sorted (node : Node) : Use.spacing node.sorted = Use.spacing node := by
  cases node with
  | container header kind children => cases kind <;> rfl
  | leaf header kind => rfl

private theorem radii_sorted (node : Node) : Use.radii node.sorted = Use.radii node := by
  cases node with
  | container header kind children => cases kind <;> rfl
  | leaf header kind => cases kind <;> rfl

private theorem opacities_sorted (node : Node) : Use.opacities node.sorted = Use.opacities node := by
  cases node <;> rfl

private theorem effectiveOpacity_sorted (node : Node) :
    node.sorted.header.effectiveOpacity = node.header.effectiveOpacity := by
  cases node <;> rfl

theorem extract_sorted (options : Options) {tree : Tree} (sound : tree.Sound) :
    extract options tree.sorted = extract options tree := by
  have headers := Node.sound_preorder tree.root sound.root
  have colors : (tree.root.preorder.map Node.sorted).flatMap Use.colors = tree.root.preorder.flatMap Use.colors := by
    rw [List.flatMap_map]
    exact List.flatMap_congr fun node member => colors_sorted (headers node member)
  have uses : Usage.ofTree tree.sorted = Usage.ofTree tree := by
    simp only [Usage.ofTree, Tree.sorted, Node.walk_eq_preorder, Node.preorder_sorted, colors, ← List.map_tail,
      List.flatMap_map, font_sorted, spacing_sorted, radii_sorted, opacities_sorted, effectiveOpacity_sorted]
  rw [extract, extract, uses]

end Token

namespace Archive

/-- The archive text with sorted keys is that of the design with sorted extra members; its metadata come from a
fixed time. -/
theorem write_sorted {options : Options} (keys : options.sortKeys = true) (fixed : options.timestamp.isSome = true)
    (now later : Instant) {tree : Tree} (sound : tree.Sound) :
    write options now tree = write options later tree.sorted := by
  obtain ⟨time, set⟩ := Option.isSome_iff_exists.mp fixed
  have value : (Envelope.encode ⟨if options.includeMetadata then some (Metadata.ofTree options now tree) else none,
        tree⟩).sortKeys =
      (Envelope.encode ⟨if options.includeMetadata then some (Metadata.ofTree options later tree.sorted) else none,
        tree.sorted⟩).sortKeys := by
    have metadata : Metadata.ofTree options now tree = Metadata.ofTree options later tree.sorted := by
      simp only [Metadata.ofTree, set, Option.getD_some, Tree.sorted]
    rw [metadata, Envelope.encode, Envelope.encode, Json.sortKeys_object, Json.sortKeys_object, Json.sorted, Json.sorted,
      Json.sortMembers_eq, Json.sortMembers_eq, List.map_append, List.map_append, List.map_singleton,
      List.map_singleton, Tree.encode_sorted sound]
  simp only [write, Options.print, keys, if_true, value]

private theorem readTree_sortKeys (metadata other : Option Metadata) {v : Json} (sound : v.Sound) :
    (readTree metadata v.sortKeys).toOption.map (·.tree.sorted) = (readTree other v).toOption.map (·.tree.sorted) := by
  unfold readTree
  rcases cases_of_map_toOption_eq (Tree.decode_sortKeys v sound) with ⟨a, b, sorted, plain, same⟩ | ⟨e, f, sorted, plain⟩
  · rw [sorted, plain]
    exact congrArg some same
  · rw [sorted, plain]
    rfl

/-- An envelope holds the same design, up to the order of its extra members, however the keys of its value are
ordered. -/
theorem Envelope.decode_sortKeys {v : Json} (sound : v.Sound) :
    (Envelope.decode v.sortKeys).toOption.map (·.tree.sorted) = (Envelope.decode v).toOption.map (·.tree.sorted) := by
  cases v with
  | null | bool _ | int _ | float _ | string _ | array _ => rfl
  | object members =>
    have looked (key : String) : Entries.get? (Json.sorted members) key = (Entries.get? members key).map Json.sortKeys :=
      Json.lookup_sorted sound.distinct key
    have root : Entries.has (Json.sorted members) "root" = Entries.has members "root" := by
      rw [Entries.has, Entries.has, looked, Option.isSome_map]
    rw [Json.sortKeys_object, Envelope.decode, Envelope.decode, looked, looked, root]
    cases spec : Entries.get? members "spec" with
    | some v => exact readTree_sortKeys _ _ (sound.of_lookup spec)
    | none =>
      by_cases here : Entries.has members "root" = true
      · simp only [Option.map_none, here, if_true]
        exact readTree_sortKeys none none sound
      · simp only [Option.map_none, here]
        rfl

/-- What is read from a text comes from a sound value, so that its extra members are sound. -/
theorem sound_of_read {text : String} {e : Envelope} (h : read text = .ok e) : e.tree.Sound := by
  obtain ⟨v, design, block, parsed, candidate, decoded⟩ := exists_candidate_of_read h
  exact Tree.sound_of_decode (candidate.sound (sound_of_parse parsed)) decoded

theorem read_of_reordered {s t : String} {w u : Written} (first : Written.read s = some w)
    (second : Written.read t = some u) (same : w.Reordered u) (distinct : w.Distinct) :
    (read s).toOption.map (·.tree.sorted) = (read t).toOption.map (·.tree.sorted) := by
  have values := Written.sortKeys_of_reordered Written.depthLimit w u same distinct
  unfold read Json.parse
  rw [first, second]
  simp only [Option.bind_some]
  cases v : Written.value Written.depthLimit w with
  | none =>
    cases v' : Written.value Written.depthLimit u with
    | none => rfl
    | some v' => simp [v, v'] at values
  | some a =>
    cases v' : Written.value Written.depthLimit u with
    | none => simp [v, v'] at values
    | some b =>
      rw [v, v', Option.map_some, Option.map_some, Option.some.injEq] at values
      have left := Envelope.decode_sortKeys (Written.sound_value _ w a v)
      have right := Envelope.decode_sortKeys (Written.sound_value _ u b v')
      rw [values] at left
      exact left.symm.trans right

end Archive

/-- An artifact of a design does not depend on the order of extra members, when archives sort their keys and have
a fixed time. -/
theorem Artifact.produce_sorted {settings : Settings} (keys : settings.json.sortKeys = true)
    (fixed : settings.json.timestamp.isSome = true) (now later : Archive.Instant) {tree : Tree} (sound : tree.Sound)
    (artifact : Artifact) : artifact.produce settings now tree = artifact.produce settings later tree.sorted := by
  cases artifact with
  | json => exact Archive.write_sorted keys fixed now later sound
  | react => exact (React.generate_sorted settings.react tree).symm
  | roblox => exact (Roblox.generate_sorted settings.roblox Roblox.pixelUnits tree).symm
  | tokens | css | ts => simp only [produce, Token.extract_sorted settings.tokens sound]

/-- Texts without repeated keys that differ in the order of keys alone are both read or both refused; when they are
read, their designs have the same artifacts, if archives sort their keys and have a fixed time. -/
theorem Artifact.produce_reordered {s t : String} {w u : Written} (first : Written.read s = some w)
    (second : Written.read t = some u) (same : w.Reordered u) (distinct : w.Distinct) :
    ((∃ e, Archive.read s = .ok e) ↔ ∃ e, Archive.read t = .ok e) ∧
      ∀ e e', Archive.read s = .ok e → Archive.read t = .ok e' →
        ∀ settings : Settings, settings.json.sortKeys = true → settings.json.timestamp.isSome = true →
          ∀ (now later : Archive.Instant) (artifact : Artifact),
            artifact.produce settings now e.tree = artifact.produce settings later e'.tree := by
  have alike := Archive.read_of_reordered first second same distinct
  constructor
  · rcases cases_of_map_toOption_eq alike with ⟨a, b, here, there, -⟩ | ⟨a, b, here, there⟩
    · exact iff_of_true ⟨a, here⟩ ⟨b, there⟩
    · simp [here, there]
  · intro e e' here there settings keys fixed now later artifact
    have trees : e.tree.sorted = e'.tree.sorted := by
      rw [here, there] at alike
      exact Option.some.inj alike
    calc
      artifact.produce settings now e.tree = artifact.produce settings now e.tree.sorted :=
        produce_sorted keys fixed now now (Archive.sound_of_read here) artifact
      _ = artifact.produce settings now e'.tree.sorted := by rw [trees]
      _ = artifact.produce settings later e'.tree :=
        (produce_sorted keys fixed later now (Archive.sound_of_read there) artifact).symm

/-- Two texts of a node whose extra members stand in either order. -/
theorem Artifact.produce_swapped :
    let settings : Settings := { json := { timestamp := some ⟨⟨2024, 1, 1, by decide⟩, 0, 0, 0, 0⟩ } }
    let s := "\x7b\"root\":\x7b\"id\":\"a\",\"p\":null,\"q\":true,\"type\":\"x\"\x7d\x7d"
    let t := "\x7b\"root\":\x7b\"id\":\"a\",\"q\":true,\"p\":null,\"type\":\"x\"\x7d\x7d"
    ∃ e e', Archive.read s = .ok e ∧ Archive.read t = .ok e' ∧
      e.tree.root.header.extra.map Prod.fst = ["p", "q"] ∧ e'.tree.root.header.extra.map Prod.fst = ["q", "p"] ∧
      ∀ (now later : Archive.Instant) (artifact : Artifact),
        artifact.produce settings now e.tree = artifact.produce settings later e'.tree := by
  intro settings s t
  let codes := Written.codesOf
  let name : List Nat × Written := (codes "id", .text (codes "a"))
  let p : List Nat × Written := (codes "p", .null)
  let q : List Nat × Written := (codes "q", .bool true)
  let type : List Nat × Written := (codes "type", .text (codes "x"))
  have first : Written.read s = some (.object [(codes "root", .object [name, p, q, type])]) := by cbv
  have second : Written.read t = some (.object [(codes "root", .object [name, q, p, type])]) := by cbv
  have root : (Written.object [name, p, q, type]).Reordered (.object [name, q, p, type]) :=
    .object (.cons (.text _) (.cons .null (.cons (.bool true) (.cons (.text _) .nil)))) ((List.Perm.swap q p _).cons name)
  have same : (Written.object [(codes "root", .object [name, p, q, type])]).Reordered
      (.object [(codes "root", .object [name, q, p, type])]) := .object (.cons root .nil) (.refl _)
  have distinct : (Written.object [(codes "root", .object [name, p, q, type])]).Distinct :=
    ⟨by decide +kernel, ⟨by decide +kernel, trivial, trivial, trivial, trivial, trivial⟩, trivial⟩
  let tree (extra : Members) : Tree := { root := .leaf { id := "a", extra := extra } (.unknown "x") }
  have here : Archive.read s = .ok ⟨none, tree [("p", .null), ("q", .bool true)]⟩ := by
    rw [Archive.read, Json.parse, first]
    rfl
  have there : Archive.read t = .ok ⟨none, tree [("q", .bool true), ("p", .null)]⟩ := by
    rw [Archive.read, Json.parse, second]
    rfl
  exact ⟨_, _, here, there, rfl, rfl,
    (produce_reordered first second same distinct).2 _ _ here there settings rfl rfl⟩

end Handoff
