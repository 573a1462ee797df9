import Handoff.Proofs.Archive.Survival
import Handoff.Proofs.Design.Lossless
import Handoff.Proofs.Json.Places

set_option autoImplicit false
set_option relaxedAutoImplicit false

/-!
A design with a number that is not finite does not pass for one that survives its archive text.

A required number that is written as null cannot be read again. An optional one is left out or read as none, so that the
value of what was read lacks it. Whatever is read is well-formed, and differs from the design by the null.
-/

namespace Handoff.Archive
open Design

private theorem alike_of_survives {tree : Tree} (sound : tree.Sound) (survives : roundTrip tree = []) :
    ∃ again : Tree, again.WellFormed ∧ tree.encode.Alike again.encode := by
  unfold roundTrip at survives
  split at survives
  · cases survives
  · rename_i again read
    have wf := wellFormed_of_read read
    have mine := Tree.sound_encode sound
    have other := Tree.sound_encode wf.tree_sound
    refine ⟨again.tree, wf, Json.alike_of_sortKeys _ _ mine other ?_⟩
    have length := Json.length_differences [] tree.encode.sortKeys again.tree.encode.sortKeys
    rw [show Json.differences [] _ _ = [] from List.map_eq_nil_iff.mp survives] at length
    exact (Json.places_eq_zero_iff _ _ (Json.Sound.sortKeys _ mine) (Json.Sound.sortKeys _ other)).mp length.symm

private theorem alike_root {tree again : Tree} (sound : (Json.object tree.extra).Sound)
    (beside : ∀ entry ∈ tree.extra, entry.1 ∉ treeRecord.keys) (wf : again.WellFormed)
    (alike : tree.encode.Alike again.encode) : tree.root.encode.Alike again.root.encode := by
  rw [Tree.encode_eq_of_apart sound beside, Tree.encode_eq wf,
    Json.alike_object_iff (Tree.nodup_members_of_apart sound beside _) (Tree.nodup_members wf _)] at alike
  exact alike.2 "root" _ _ (Tree.lookup_members ..) (Tree.lookup_members ..)

/-- A design some of whose numbers is infinite or not a number does not survive, where no extra member of the design or
of a node stands under a name that it has a use for. -/
theorem roundTrip_ne_nil {tree : Tree} (sound : tree.Sound) (beside : ∀ entry ∈ tree.extra, entry.1 ∉ treeRecord.keys)
    (apart : ∀ node ∈ tree.root.preorder, node.Apart) {node : Node} (member : node ∈ tree.root.preorder) {x : Float}
    (held : x ∈ node.numbers) (lost : x.isFinite = false) : roundTrip tree ≠ [] := by
  intro survives
  obtain ⟨again, wf, alike⟩ := alike_of_survives sound survives
  have root := alike_root sound.2 beside wf alike
  have finite := Node.allFinite_of_alike tree.root again.root sound.1 apart wf.root root node member x held
  rw [lost] at finite
  cases finite

/-- A text in a stack with a font size that is no number, beside members of its own that are null. -/
theorem roundTrip_ne_nil_text :
    let text : Node := .leaf { id := "t", extra := [("hint", .null)] } (.text { text := "a", fontSize := some (0 / 0) })
    let tree : Tree :=
      { root := .container { id := "s", extra := [("gap-x", .null)] } (.stack { direction := .row }) [text]
        extra := [("pages", .null)] }
    tree.Sound ∧ (∀ entry ∈ tree.extra, entry.1 ∉ treeRecord.keys) ∧ (∀ node ∈ tree.root.preorder, node.Apart) ∧
      text ∈ tree.root.preorder ∧ (0 / 0 : Float) ∈ text.numbers ∧ (0 / 0 : Float).isFinite = false ∧
      roundTrip tree ≠ [] := by
  intro text tree
  have hint : (Json.object [("hint", .null)]).Sound := by decide
  have gap : (Json.object [("gap-x", .null)]).Sound := by decide
  have sound : tree.Sound := ⟨⟨gap, hint, trivial⟩, by decide⟩
  have beside : ∀ entry ∈ tree.extra, entry.1 ∉ treeRecord.keys := by decide
  have visits : tree.root.preorder = [tree.root, text] := rfl
  have apart : ∀ node ∈ tree.root.preorder, node.Apart := by
    rw [visits, List.forall_mem_cons, List.forall_mem_singleton]
    exact ⟨by unfold Node.Apart; decide, by unfold Node.Apart; decide⟩
  have member : text ∈ tree.root.preorder := List.mem_cons_of_mem _ (List.mem_cons_self ..)
  have held : (0 / 0 : Float) ∈ text.numbers := List.mem_singleton_self _
  have lost : (0 / 0 : Float).isFinite = false := by decide
  exact ⟨sound, beside, apart, member, held, lost, roundTrip_ne_nil sound beside apart member held lost⟩

end Handoff.Archive
