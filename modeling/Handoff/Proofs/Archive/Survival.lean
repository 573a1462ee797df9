import Handoff.Archive.RoundTrip
import Handoff.Proofs.Archive.Outcome
import Handoff.Proofs.Archive.RoundTrip
import Handoff.Proofs.Design.Decoded
import Handoff.Proofs.Json.Difference

set_option autoImplicit false
set_option relaxedAutoImplicit false

/-!
Which designs survive their archive text.

The text is always an envelope, so that its design stands one level deeper than in a document by itself. All that is
read survives but for what comes to nest too deep by this.
-/

namespace Handoff.Archive
open Design

theorem wellFormed_of_read {text : String} {e : Envelope} (h : read text = .ok e) : e.tree.WellFormed := by
  obtain ⟨v, design, block, parsed, candidate, decoded⟩ := exists_candidate_of_read h
  exact Tree.wellFormed_of_decode (candidate.sound (sound_of_parse parsed)) decoded

/-- The depth of a design's archive text. -/
def archiveDepth (tree : Tree) : Nat :=
  (Envelope.encode ⟨none, tree⟩).depth

theorem archiveDepth_eq (tree : Tree) : archiveDepth tree = tree.encode.depth + 1 := by
  change max tree.encode.depth 0 + 1 = _
  rw [Nat.max_zero]

private theorem read_bareText {tree : Tree} (wf : tree.WellFormed) (shallow : archiveDepth tree ≤ Written.depthLimit) :
    ∃ again, read (bareText tree) = .ok ⟨none, again⟩ ∧ again.sorted = tree.sorted :=
  read_print (e := ⟨none, tree⟩) wf shallow {}

private theorem diff_sorted {tree again : Tree} (sound : tree.Sound) (other : again.Sound)
    (same : again.sorted = tree.sorted) : Json.diff tree.encode.sortKeys again.encode.sortKeys = [] := by
  rw [Tree.encode_sorted other, same, ← Tree.encode_sorted sound]
  exact Json.diff_self (Json.Sound.sortKeys _ (Tree.sound_encode sound))

private theorem survives_iff {tree : Tree} (wf : tree.WellFormed) :
    roundTrip tree = [] ↔ archiveDepth tree ≤ Written.depthLimit := by
  by_cases shallow : archiveDepth tree ≤ Written.depthLimit
  · refine iff_of_true ?_ shallow
    obtain ⟨again, read, same⟩ := read_bareText wf shallow
    have other : again.Sound := (wellFormed_of_read read).tree_sound
    rw [roundTrip, read]
    simp only [diff_sorted wf.tree_sound other same, List.map_nil]
  · refine iff_of_false ?_ shallow
    have sound := Envelope.sound_encode (e := ⟨none, tree⟩) wf.tree_sound
    have unparsed := Options.parse_print_deep sound (Nat.lt_of_not_le shallow) {}
    rw [roundTrip, read, bareText, unparsed]
    exact List.cons_ne_nil _ _

/-- What is read of a text survives exactly when its archive text does not nest too deep; then it is read again as it
is, up to the order of its extra members. It does so at least where its value nests two levels less deep than a
document may: one is for the envelope, the other for points that the value does not have but the text does. -/
theorem roundTrip_of_read {text : String} {e : Envelope} (h : read text = .ok e) :
    (roundTrip e.tree = [] ↔ archiveDepth e.tree ≤ Written.depthLimit) ∧
      (archiveDepth e.tree ≤ Written.depthLimit →
        ∃ again, read (bareText e.tree) = .ok ⟨none, again⟩ ∧ again.sorted = e.tree.sorted) ∧
      ∀ v design block, Json.parse text = some v → Candidate v design block →
        design.depth + 2 ≤ Written.depthLimit → roundTrip e.tree = [] := by
  have wf := wellFormed_of_read h
  refine ⟨survives_iff wf, read_bareText wf, ?_⟩
  intro v design block parsed candidate shallow
  obtain ⟨v', design', block', parsed', candidate', decoded⟩ := exists_candidate_of_read h
  rw [parsed] at parsed'
  obtain rfl := Option.some.inj parsed'
  obtain ⟨rfl, -⟩ := candidate.unique candidate'
  have bound := Tree.depth_encode_le (candidate.sound (sound_of_parse parsed)) decoded
  have within : archiveDepth e.tree ≤ Written.depthLimit := by
    rw [archiveDepth_eq]
    omega
  exact (survives_iff wf).mpr within

section Deepest

/-- Arrays in arrays. -/
def nested : Nat → Json
  | 0 => .null
  | depth + 1 => .array [nested depth]

/-- A document by itself whose root has arrays in arrays among its members. -/
def deepDocument (depth : Nat) : Json :=
  .object [("root", .object [("id", .string "a"), ("type", .string "x"), ("d", nested depth)])]

/-- The design that it is. -/
def deepTree (depth : Nat) : Tree :=
  { root := .leaf { id := "a", extra := [("d", nested depth)] } (.unknown "x") }

private theorem depth_nested (depth : Nat) : (nested depth).depth = depth := by
  induction depth with
  | zero => rfl
  | succ depth ih => rw [nested, Json.depth, Json.depthItems, Json.depthItems, ih, Nat.max_zero]

private theorem sound_nested (depth : Nat) : (nested depth).Sound := by
  induction depth with
  | zero => trivial
  | succ depth ih => exact ⟨ih, trivial⟩

private theorem read_deepDocument {depth : Nat} (shallow : depth + 2 ≤ Written.depthLimit) :
    read (deepDocument depth).compact = .ok ⟨none, deepTree depth⟩ := by
  have sound : (deepDocument depth).Sound := by
    exact ⟨by simp, ⟨by simp, trivial, trivial, sound_nested depth, trivial⟩, trivial⟩
  have within : (deepDocument depth).depth ≤ Written.depthLimit := by
    simp only [deepDocument, Json.depth, Json.depthMembers, depth_nested]
    omega
  rw [read_compact sound within]
  rfl

private theorem archiveDepth_deepTree (depth : Nat) : archiveDepth (deepTree depth) = depth + 3 := by
  have value : (deepTree depth).encode =
      .object [("root", .object [("id", .string "a"), ("d", nested depth), ("type", .string "x")])] := rfl
  rw [archiveDepth_eq, value]
  simp only [Json.depth, Json.depthMembers, depth_nested]
  omega

/-- The deepest such document that survives. -/
theorem roundTrip_deep :
    read (deepDocument 124).compact = .ok ⟨none, deepTree 124⟩ ∧ roundTrip (deepTree 124) = [] := by
  have deep := @read_deepDocument 124 (by decide)
  refine ⟨deep, (roundTrip_of_read deep).1.mpr ?_⟩
  change archiveDepth (deepTree 124) ≤ _
  rw [archiveDepth_deepTree]
  decide

/-- With one level more it can still be read, and no longer survives. -/
theorem not_roundTrip_deepest :
    ∃ e, read (deepDocument 125).compact = .ok e ∧ roundTrip e.tree ≠ [] := by
  have deepest := @read_deepDocument 125 (by decide)
  refine ⟨_, deepest, fun survives => ?_⟩
  have within := (survives_iff (wellFormed_of_read deepest)).mp survives
  change archiveDepth (deepTree 125) ≤ _ at within
  rw [archiveDepth_deepTree] at within
  exact absurd within (by decide)

end Deepest

end Handoff.Archive
