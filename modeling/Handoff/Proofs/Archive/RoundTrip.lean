import Handoff.Archive.Envelope
import Handoff.Proofs.Design.RoundTrip
import Handoff.Proofs.Json.RoundTrip
import Handoff.Proofs.Json.Slots

set_option autoImplicit false
set_option relaxedAutoImplicit false

/-!
What is read from the archive text of a well-formed design.
-/

namespace Handoff.Archive
open Design

/-- The envelope that goes into the archive text of a design. -/
def Envelope.ofTree (options : Options) (now : Instant) (tree : Tree) : Envelope :=
  { metadata := if options.includeMetadata then some (Metadata.ofTree options now tree) else none
    tree }

section MetadataRoundTrip

private structure Metadata.Told (m : Metadata) (members : Members) : Prop where
  distinct : (members.map Prod.fst).Nodup
  formatVersion : members.lookup "exportFormatVersion" = some (.string m.formatVersion)
  exportedAt : members.lookup "exportedAt" = some (.string m.exportedAt)
  schemaVersion : members.lookup "schemaVersion" = m.schemaVersion.map .string
  title : members.lookup "title" = m.title.map .string
  author : members.lookup "author" = m.author.map .string

private theorem slotD_text (s : String) : Written.slotD Written.text? "" (some (Json.string s).written) = some s :=
  Written.textOf_codesOf s

private theorem slotD_optionalText (o : Option String) :
    Written.slotD (Written.optional? Written.text?) none ((o.map Json.string).map Json.written) = some o := by
  cases o with
  | none => rfl
  | some s =>
    exact congrArg (Option.map some) (Written.textOf_codesOf s)

private theorem Metadata.Told.decode {m : Metadata} {members : Members} (told : m.Told members) :
    Metadata.decode (Json.object members).written = some m := by
  rw [Metadata.decode, Written.slots_written told.distinct]
  simp only [List.map_cons, List.map_nil, told.formatVersion, told.exportedAt, told.schemaVersion, told.title,
    told.author, Option.map_some, slotD_text, slotD_optionalText]
  rfl

private def Metadata.members (m : Metadata) : Members :=
  [("exportFormatVersion", .string m.formatVersion), ("exportedAt", .string m.exportedAt)]
    ++ member "schemaVersion" .string m.schemaVersion ++ member "title" .string m.title
    ++ member "author" .string m.author

private theorem told_members (m : Metadata) : m.Told m.members := by
  obtain ⟨version, time, schema, title, author⟩ := m
  cases schema <;> cases title <;> cases author <;> exact ⟨by simp [Metadata.members, member], rfl, rfl, rfl, rfl, rfl⟩

private theorem told_sorted (m : Metadata) : m.Told (Json.sorted m.members) := by
  have told := told_members m
  have text (o : Option String) : (o.map Json.string).map Json.sortKeys = o.map .string := by cases o <;> rfl
  refine ⟨Json.nodup_sorted told.distinct, ?_, ?_, ?_, ?_, ?_⟩ <;> rw [Json.lookup_sorted told.distinct]
  · rw [told.formatVersion]
    rfl
  · rw [told.exportedAt]
    rfl
  · rw [told.schemaVersion, text]
  · rw [told.title, text]
  · rw [told.author, text]

theorem Metadata.decode_encode (m : Metadata) : Metadata.decode m.encode.written = some m :=
  (told_members m).decode

theorem Metadata.decode_sortKeys_encode (m : Metadata) : Metadata.decode m.encode.sortKeys.written = some m :=
  (told_sorted m).decode

private theorem sound_metadata (m : Metadata) : m.encode.Sound := by
  refine Json.sound_object (told_members m).distinct ?_
  obtain ⟨version, time, schema, title, author⟩ := m
  cases schema <;> cases title <;> cases author <;> simp [member, Json.Sound]

end MetadataRoundTrip

section EnvelopeRoundTrip

private theorem decode_spec {members : Members} {metadata : Option Metadata} {spec : Json} {tree : Tree}
    (design : members.lookup "spec" = some spec) (decoded : Tree.decode spec = .ok tree)
    (about : ((members.lookup "metadata").bind fun v => Metadata.decode v.written) = metadata) :
    Envelope.decode (.object members) = .ok ⟨metadata, tree⟩ := by
  have found : Entries.get? members "spec" = some spec := design
  have told : ((Entries.get? members "metadata").bind fun v => Metadata.decode v.written) = metadata := about
  simp only [Envelope.decode, found, told, readTree, decoded]

private def Envelope.members (e : Envelope) : Members :=
  member "metadata" Metadata.encode e.metadata ++ [("spec", e.tree.encode)]

private theorem encode_eq_members (e : Envelope) : e.encode = .object e.members := rfl

private theorem distinct_members (e : Envelope) : (e.members.map Prod.fst).Nodup := by
  unfold Envelope.members
  cases e.metadata <;> simp [member]

private theorem lookup_metadata (e : Envelope) :
    e.members.lookup "metadata" = e.metadata.map Metadata.encode := by
  unfold Envelope.members
  cases e.metadata <;> simp [member, List.lookup_cons]

private theorem lookup_spec (e : Envelope) : e.members.lookup "spec" = some e.tree.encode := by
  unfold Envelope.members
  cases e.metadata <;> simp [member, List.lookup_cons]

/-- The value of an envelope is sound when the extra members of its design are. -/
theorem Envelope.sound_encode {e : Envelope} (sound : e.tree.Sound) : e.encode.Sound := by
  rw [encode_eq_members]
  refine Json.sound_object (distinct_members e) ?_
  have spec := Tree.sound_encode sound
  unfold Envelope.members
  cases e.metadata with
  | none => exact List.forall_mem_singleton.mpr spec
  | some m => exact List.forall_mem_cons.mpr ⟨sound_metadata m, List.forall_mem_singleton.mpr spec⟩

theorem Envelope.decode_encode {e : Envelope} (wf : e.tree.WellFormed) : Envelope.decode e.encode = .ok e := by
  rw [encode_eq_members]
  refine decode_spec (lookup_spec e) (Tree.decode_encode wf) ?_
  rw [lookup_metadata]
  cases e.metadata with
  | none => rfl
  | some m => rw [Option.map_some, Option.bind_some, m.decode_encode]

/-- With its keys sorted, it is the envelope but for the order of extra members. -/
theorem Envelope.decode_sortKeys_encode {e : Envelope} (wf : e.tree.WellFormed) :
    ∃ again, Envelope.decode e.encode.sortKeys = .ok ⟨e.metadata, again⟩ ∧ again.sorted = e.tree.sorted := by
  have plain : (Tree.decode e.tree.encode).toOption.map Tree.sorted = some e.tree.sorted := by
    rw [Tree.decode_encode wf]
    rfl
  have alike := (Tree.decode_sortKeys e.tree.encode (Tree.sound_encode wf.tree_sound)).trans plain
  obtain ⟨again, decoded, same⟩ := Option.map_eq_some_iff.mp alike
  have looked (key : String) := Json.lookup_sorted (distinct_members e) key
  refine ⟨again, ?_, same⟩
  rw [encode_eq_members, Json.sortKeys_object]
  refine decode_spec ?_ (toOption_eq_some.mp decoded) ?_
  · rw [looked, lookup_spec]
    rfl
  · rw [looked, lookup_metadata]
    cases e.metadata with
    | none => rfl
    | some m => rw [Option.map_some, Option.map_some, Option.bind_some, m.decode_sortKeys_encode]

end EnvelopeRoundTrip

/-- The text of a value means the value, with its keys in the order that the options ask for. -/
theorem Options.parse_print {v : Json} (sound : v.Sound) (shallow : v.depth ≤ Written.depthLimit) (options : Options) :
    Json.parse (options.print v) = some (if options.sortKeys then v.sortKeys else v) := by
  have ordered : (if options.sortKeys then v.sortKeys else v).Sound := by
    split
    · exact Json.Sound.sortKeys v sound
    · exact sound
  have within : (if options.sortKeys then v.sortKeys else v).depth ≤ Written.depthLimit := by
    split
    · exact v.depth_sortKeys.le.trans shallow
    · exact shallow
  unfold Options.print
  cases options.pretty with
  | false => exact Json.parse_print Written.Spacing.fine_compact ordered within
  | true => exact Json.parse_print Written.Spacing.fine_pretty ordered within

theorem read_compact {v : Json} (sound : v.Sound) (shallow : v.depth ≤ Written.depthLimit) :
    read v.compact = Envelope.decode v := by
  have parsed : Json.parse v.compact = some v := Json.parse_print Written.Spacing.fine_compact sound shallow
  rw [read, parsed]

theorem Options.parse_print_deep {v : Json} (sound : v.Sound) (deep : Written.depthLimit < v.depth)
    (options : Options) : Json.parse (options.print v) = none := by
  have ordered : (if options.sortKeys then v.sortKeys else v).Sound := by
    split
    · exact Json.Sound.sortKeys v sound
    · exact sound
  have beyond : Written.depthLimit < (if options.sortKeys then v.sortKeys else v).depth := by
    split
    · rwa [v.depth_sortKeys]
    · exact deep
  unfold Options.print
  cases options.pretty with
  | false => exact Json.parse_print_deep Written.Spacing.fine_compact ordered beyond
  | true => exact Json.parse_print_deep Written.Spacing.fine_pretty ordered beyond

/-- The envelope of a well-formed design is read from its text, but for the order of extra members. -/
theorem read_print {e : Envelope} (wf : e.tree.WellFormed) (shallow : e.encode.depth ≤ Written.depthLimit)
    (options : Options) :
    ∃ again, read (options.print e.encode) = .ok ⟨e.metadata, again⟩ ∧ again.sorted = e.tree.sorted := by
  have parsed := Options.parse_print (Envelope.sound_encode wf.tree_sound) shallow options
  rw [read, parsed]
  cases options.sortKeys with
  | false => exact ⟨e.tree, Envelope.decode_encode wf, rfl⟩
  | true => exact Envelope.decode_sortKeys_encode wf

/-- What is read from the archive text of a well-formed design that does not nest too deep: what was said about it,
and the design. Sorted keys only change the order of its extra members. -/
theorem read_write {options : Options} {now : Instant} {tree : Tree} (wf : tree.WellFormed)
    (shallow : (Envelope.ofTree options now tree).encode.depth ≤ Written.depthLimit) :
    ∃ again, read (write options now tree) = .ok ⟨(Envelope.ofTree options now tree).metadata, again⟩ ∧
      again.sorted = tree.sorted ∧ (options.sortKeys = false → again = tree) := by
  let e := Envelope.ofTree options now tree
  have parsed : Json.parse (write options now tree) = some (if options.sortKeys then e.encode.sortKeys else e.encode) :=
    Options.parse_print (Envelope.sound_encode (e := e) wf.tree_sound) shallow options
  rw [read, parsed]
  cases keys : options.sortKeys with
  | false =>
    refine ⟨tree, ?_, rfl, fun _ => rfl⟩
    simp only [Bool.false_eq_true, if_false]
    exact Envelope.decode_encode (e := e) wf
  | true =>
    obtain ⟨again, decoded, same⟩ := Envelope.decode_sortKeys_encode (e := e) wf
    refine ⟨again, ?_, same, nofun⟩
    simp only [if_true]
    exact decoded

/-- A panel with extra members out of order, which holds a node of no known type. -/
theorem read_write_panel :
    let root : Header := { id := "a", extra := [("q", .bool true), ("p", .array [.int 1])] }
    let leaf : Header := { id := "b", position := some ⟨2, 3.5⟩, extra := [("y", .null)] }
    let tree : Tree :=
      { name := some "t"
        root := .container root (.panel .frame { radius := some 1.5 }) [.leaf leaf (.unknown "x")]
        extra := [("k", .null)] }
    let now : Instant := ⟨⟨2024, 1, 1, by decide⟩, 0, 0, 0, 0⟩
    read (write { sortKeys := false } now tree) = .ok ⟨some (Metadata.ofTree { sortKeys := false } now tree), tree⟩ ∧
      ∃ again, read (write {} now tree) = .ok ⟨some (Metadata.ofTree {} now tree), again⟩ ∧
        again.sorted = tree.sorted := by
  intro root leaf tree now
  have panel : root.WellFormed (panelRecord .frame (.ok [])).keys :=
    ⟨nofun, ⟨by decide, trivial, ⟨⟨by decide, by decide⟩, trivial⟩, trivial⟩, by decide⟩
  have child : leaf.WellFormed [] := by
    refine ⟨?_, ⟨by decide, trivial, trivial⟩, by decide⟩
    exact List.forall_mem_cons.mpr ⟨rfl, List.forall_mem_singleton.mpr rfl⟩
  have other : (Leaf.unknown "x").WellFormed := by
    refine ⟨nofun, ?_⟩
    rintro type ⟨⟩
    decide
  have wf : tree.WellFormed :=
    ⟨⟨panel, List.forall_mem_singleton.mpr rfl, ⟨child, other⟩, trivial⟩, ⟨by decide, trivial, trivial⟩, by decide⟩
  obtain ⟨plain, first, -, same⟩ := @read_write { sortKeys := false } now tree wf (by decide +kernel)
  obtain ⟨again, second, sorted, -⟩ := @read_write {} now tree wf (by decide +kernel)
  rw [same rfl] at first
  exact ⟨first, again, second, sorted⟩

end Handoff.Archive
