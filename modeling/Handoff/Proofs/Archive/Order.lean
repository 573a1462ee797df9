import Handoff.Proofs.Archive.Survival
import Handoff.Proofs.Design.Order

set_option autoImplicit false
set_option relaxedAutoImplicit false

/-!
The order in which an archive text has what its design has no use for, where keys are not sorted.
-/

namespace Handoff.Archive
open Design

/-- Where keys are not sorted, what is read of a text is written with the members that it has no use for in the order
in which they were given: those of the document without exception, those of each node but for the one that
`Node.Arranged` tells of, which is out of order exactly when the type of the node is before two of them. -/
theorem write_order {text : String} {e : Envelope} (h : read text = .ok e) {options : Options}
    (unsorted : options.sortKeys = false) (now : Instant) :
    ∃ v block given written, Json.parse text = some v ∧ Candidate v (.object given) block ∧
      write options now e.tree = (if options.pretty then Json.pretty else Json.compact) (.object
        (member "metadata" Metadata.encode (Envelope.ofTree options now e.tree).metadata ++
          [("spec", .object written)])) ∧
      Tree.Throughout Node.Arranged given written := by
  obtain ⟨v, design, block, parsed, candidate, decoded⟩ := exists_candidate_of_read h
  obtain ⟨given, written, rfl, encoded, arranged⟩ :=
    Tree.arranged_of_decode (candidate.sound (sound_of_parse parsed)) decoded
  refine ⟨v, block, given, written, parsed, candidate, ?_, arranged⟩
  change options.print (Envelope.ofTree options now e.tree).encode = _
  rw [Options.print, unsorted, Envelope.encode, show (Envelope.ofTree options now e.tree).tree = e.tree from rfl,
    encoded]
  cases options.pretty <;> rfl

/-- A frame whose type is before members of its own and above a node of no known type. -/
theorem write_order_frame :
    let leaf : Json := .object [("q", .int 1), ("type", .string "x"), ("id", .string "b"), ("p", .int 2), ("o", .null)]
    let frame : Json := .object [("type", .string "frame"), ("z", .int 3), ("y", .int 4), ("id", .string "a"),
      ("children", .array [leaf])]
    let document : Json := .object [("root", frame), ("k", .null), ("j", .null)]
    let now : Instant := ⟨⟨2024, 1, 1, by decide⟩, 0, 0, 0, 0⟩
    ∃ e, read document.compact = .ok e ∧ ∃ v block given written, Json.parse document.compact = some v ∧
      Candidate v (.object given) block ∧
      write { sortKeys := false } now e.tree = (Json.object
        (member "metadata" Metadata.encode (Envelope.ofTree { sortKeys := false } now e.tree).metadata ++
          [("spec", .object written)])).pretty ∧
      Tree.Throughout Node.Arranged given written := by
  intro leaf frame document now
  have read : ∃ e, Envelope.decode document = .ok e := ⟨_, rfl⟩
  obtain ⟨e, decoded⟩ := read
  have first : Archive.read document.compact = .ok e := (read_compact (by decide) (by decide)).trans decoded
  exact ⟨e, first, @write_order _ e first { sortKeys := false } rfl now⟩

/-- A type before two members of a node is enough for them to change places. -/
theorem not_write_order :
    let root : Json := .object [("id", .string "a"), ("type", .string "x"), ("b", .int 1), ("c", .int 2)]
    let options : Options := { pretty := false, includeMetadata := false, sortKeys := false }
    ∃ e, read (Json.object [("root", root)]).compact = .ok e ∧
      (∀ now, write options now e.tree = (Json.object [("spec", .object [("root", .object
        [("id", .string "a"), ("c", .int 2), ("b", .int 1), ("type", .string "x")])])]).compact) ∧
      ¬Node.Throughout (fun type given written =>
        (Shape.unmodelled type written).map Prod.fst = (Shape.unmodelled type given).map Prod.fst)
        root e.tree.root.encode := by
  intro root options
  let tree : Tree := { root := .leaf { id := "a", extra := [("c", .int 2), ("b", .int 1)] } (.unknown "x") }
  have first : read (Json.object [("root", root)]).compact = .ok ⟨none, tree⟩ :=
    read_compact (by decide) (by decide)
  refine ⟨_, first, fun _ => rfl, fun kept => ?_⟩
  change Node.Throughout _ (.object _) (.object _) at kept
  cases kept with
  | object typed here _ =>
    obtain rfl := Json.string.inj (Option.some.inj typed)
    exact absurd here (by decide)

end Handoff.Archive
