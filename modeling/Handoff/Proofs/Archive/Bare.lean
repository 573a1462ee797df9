import Handoff.Proofs.Archive.Survival

set_option autoImplicit false
set_option relaxedAutoImplicit false

/-!
Designs that are read from their texts by themselves.

Such a text has the extra members of the design at the level where an envelope has its parts. It is read as the design
unless one of them is named like the design of an envelope: a document with that name is an envelope.
-/

namespace Handoff.Archive
open Design

/-- The text of a well-formed design by itself is that of its value: nothing in it stands twice. -/
theorem text_eq_compact {tree : Tree} (wf : tree.WellFormed) : tree.text = tree.encode.compact := by
  rw [Tree.encode_eq wf, Node.encode_eq wf.root, Tree.text]

private theorem lookup_extra (tree : Tree) (root : Json) {key : String} (other : key ∉ treeRecord.keys) :
    (tree.members root).lookup key = tree.extra.lookup key := by
  have apart : key ≠ "version" ∧ key ≠ "name" ∧ key ≠ "root" := by
    simpa [treeRecord, Record.keys, Field.check, versionField, nameField, rootField, optionalField] using other
  rw [Tree.lookup_members, if_neg apart.1, if_neg apart.2.1, if_neg apart.2.2]
  rfl

/-- The text of a design by itself is read as its value: as the design, or as the envelope that an extra member makes
of it. -/
theorem read_text {tree : Tree} (wf : tree.WellFormed) (shallow : tree.encode.depth ≤ Written.depthLimit) :
    read tree.text = match tree.extra.lookup "spec" with
      | none => .ok ⟨none, tree⟩
      | some spec => readTree (Metadata.ofBlock (tree.extra.lookup "metadata")) spec := by
  have design := lookup_extra tree tree.root.encode (by decide : "spec" ∉ treeRecord.keys)
  have about := lookup_extra tree tree.root.encode (by decide : "metadata" ∉ treeRecord.keys)
  have root : (tree.members tree.root.encode).lookup "root" = some tree.root.encode := by
    rw [Tree.lookup_members]
    rfl
  have again := Tree.decode_encode wf
  rw [text_eq_compact wf, read_compact (Tree.sound_encode wf.tree_sound) shallow]
  rw [Tree.encode_eq wf] at again ⊢
  simp only [Envelope.decode, Entries.has, Entries.get?, design, about, root]
  cases tree.extra.lookup "spec" with
  | none => simp only [Option.isSome_some, if_true, readTree, again]
  | some spec => rfl

/-- What is read of a text is read again from its text by itself, with nothing said about it and all members in their
order, and is what is read from its archive text up to their order. None of the extra members may be named like the
design of an envelope, and neither text may nest too deep. -/
theorem read_text_of_read {text : String} {e : Envelope} (h : read text = .ok e)
    (bare : e.tree.extra.lookup "spec" = none) (shallow : e.tree.encode.depth ≤ Written.depthLimit) :
    read e.tree.text = .ok ⟨none, e.tree⟩ ∧
      ∀ options now, (Envelope.ofTree options now e.tree).encode.depth ≤ Written.depthLimit →
        ∃ again, read (write options now e.tree) = .ok ⟨(Envelope.ofTree options now e.tree).metadata, again⟩ ∧
          again.sorted = e.tree.sorted := by
  have wf := wellFormed_of_read h
  refine ⟨?_, fun options now within => read_print (e := Envelope.ofTree options now e.tree) wf within options⟩
  rw [read_text wf shallow, bare]

/-- A document with extra members out of order, one of which is named like the metadata of an envelope. -/
theorem read_text_editor :
    let tree : Tree :=
      { name := some "t"
        root := .leaf { id := "a", extra := [("q", .bool true), ("p", .null)] } (.unknown "x")
        extra := [("metadata", .int 1), ("editor", .object [("z", .int 8), ("a", .null)])] }
    let now : Instant := ⟨⟨2024, 1, 1, by decide⟩, 0, 0, 0, 0⟩
    read tree.encode.compact = .ok ⟨none, tree⟩ ∧ read tree.text = .ok ⟨none, tree⟩ ∧
      ∃ again, read (write {} now tree) = .ok ⟨some (Metadata.ofTree {} now tree), again⟩ ∧
        again.sorted = tree.sorted := by
  intro tree now
  have sound : tree.encode.Sound := by decide
  have first : read tree.encode.compact = .ok ⟨none, tree⟩ := read_compact sound (by decide)
  obtain ⟨alone, enveloped⟩ := read_text_of_read first rfl (by decide)
  exact ⟨first, alone, enveloped {} now (by decide)⟩

private theorem depth_metadata (m : Metadata) : m.encode.depth = 1 := by
  obtain ⟨version, time, schema, title, author⟩ := m
  cases schema <;> cases title <;> cases author <;> rfl

private theorem depth_envelope_le (e : Envelope) : e.encode.depth ≤ max 1 e.tree.encode.depth + 1 := by
  obtain ⟨metadata, tree⟩ := e
  cases metadata with
  | none =>
    change max tree.encode.depth 0 + 1 ≤ max 1 tree.encode.depth + 1
    omega
  | some m =>
    change max m.encode.depth (max tree.encode.depth 0) + 1 ≤ max 1 tree.encode.depth + 1
    rw [depth_metadata]
    omega

/-- A design that has an extra member of that name is not read again from its text by itself, though no text of it
nests too deep. -/
theorem not_read_text_named :
    let document : Json := .object
      [("spec", .object [("root", .object [("id", .string "a"), ("type", .string "x")]), ("spec", .int 1)])]
    ∃ e, read document.compact = .ok e ∧ e.tree.encode.depth ≤ Written.depthLimit ∧
      (∀ options now, (Envelope.ofTree options now e.tree).encode.depth ≤ Written.depthLimit) ∧
      ∃ fault, read e.tree.text = .error (.invalidTree fault) := by
  intro document
  let tree : Tree := { root := .leaf { id := "a" } (.unknown "x"), extra := [("spec", .int 1)] }
  have named : read document.compact = .ok ⟨none, tree⟩ := read_compact (by decide) (by decide)
  have flat : max 1 tree.encode.depth + 1 ≤ Written.depthLimit := by decide
  refine ⟨_, named, by decide, fun options now => (depth_envelope_le _).trans flat, .wrongKind (.int 1) .tree, ?_⟩
  rw [read_text (wellFormed_of_read named) (by decide)]
  rfl

end Handoff.Archive
