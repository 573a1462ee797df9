import Handoff.Proofs.Archive.Instant
import Handoff.Proofs.Json.RoundTrip
import Handoff.Proofs.Json.Slots
import Handoff.Settings

set_option autoImplicit false
set_option relaxedAutoImplicit false

/-!
Settings, and configurations that have only a part of them.

Each field of a configuration is found by its own name, whatever stands beside it. So a field that was left out takes
its default, the fields that stayed keep their values, and fields that nothing knows of do no harm.
-/

namespace Handoff
namespace Json

def fields : Json → Members
  | .object members => members
  | _ => []

/-- An object whose fields, as far as a record has fields of their names, are the record's up to a relation. Fields of
the record may be missing, and there may be others. -/
def Overlays (same : Json → Json → Prop) (record part : Json) : Prop :=
  ∃ members, part = .object members ∧
    ∀ name v w, record.fields.lookup name = some v → members.lookup name = some w → same v w

/-- Fields that are each taken from a record or of a name that it does not know overlay it. -/
theorem overlays_of_mem {same : Json → Json → Prop} {record members : Members} (distinct : (record.map Prod.fst).Nodup)
    (each : ∀ entry ∈ members, entry.1 ∈ record.map Prod.fst → ∃ v, (entry.1, v) ∈ record ∧ same v entry.2) :
    Overlays same (.object record) (.object members) := by
  refine ⟨members, rfl, ?_⟩
  intro name v w known found
  have held := Entries.mem_of_lookup found
  obtain ⟨v', member, related⟩ := each (name, w) held (Entries.mem_keys_iff.mpr ⟨v, known⟩)
  obtain rfl : v' = v := Option.some.inj ((Entries.lookup_of_mem distinct member).symm.trans known)
  exact related

theorem overlays_self {same : Json → Json → Prop} {members : Members} (refl : ∀ entry ∈ members, same entry.2 entry.2) :
    Overlays same (.object members) (.object members) := by
  refine ⟨members, rfl, ?_⟩
  intro name v w known found
  obtain rfl := Option.some.inj (known.symm.trans found)
  exact refl _ (Entries.mem_of_lookup known)

def under (members : Members) (name : String) : Members :=
  match Entries.get? members name with
  | some v => v.fields
  | none => []

/-- The value of a field that is there, the default of one that is not. -/
def kept {α : Type} (fields : Members) (name : String) (value default : α) : α :=
  if Entries.has fields name then value else default

end Json

namespace Written

/-- A slot under whose name a record has a value is read as that value, or as the default when the slot is empty. -/
private theorem slotD_kept {α : Type} {read : Written → Option α} {encode : α → Json}
    (back : ∀ a, read (encode a).written = some a) {record : Json} {fields : Members}
    (part : Json.Overlays Eq record (.object fields)) (name : String) {a : α}
    (known : record.fields.lookup name = some (encode a)) (default : α) :
    slotD read default ((fields.lookup name).map Json.written) = some (Json.kept fields name a default) := by
  obtain ⟨members, form, same⟩ := part
  obtain rfl := Json.object.inj form
  rw [Json.kept, Entries.has, Entries.get?]
  cases found : fields.lookup name with
  | none => rfl
  | some w =>
    obtain rfl := same name _ w known found
    exact back a

/-- A slot under whose name a record has a section is read as what the section's overlay keeps, and an empty slot as a
section of which nothing is kept. -/
private theorem slotD_under {α : Type} {read : Written → Option α} {encode : α → Json} {keeping : α → Members → α}
    (back : ∀ a fields, (fields.map Prod.fst).Nodup → Json.Overlays Eq (encode a) (.object fields) →
      read (Json.object fields).written = some (keeping a fields))
    {record : Json} {members : Members} (sound : (Json.object members).Sound)
    (part : Json.Overlays (Json.Overlays Eq) record (.object members)) (name : String) {a : α}
    (known : record.fields.lookup name = some (encode a)) :
    slotD read (keeping a []) ((members.lookup name).map Json.written) =
      some (keeping a (Json.under members name)) := by
  obtain ⟨_, form, same⟩ := part
  obtain rfl := Json.object.inj form
  rw [Json.under, Entries.get?]
  cases found : members.lookup name with
  | none => rfl
  | some w =>
    obtain ⟨fields, rfl, each⟩ := same name _ w known found
    exact back a fields (sound.of_lookup found).distinct ⟨fields, rfl, each⟩

private theorem text?_string (s : String) : text? (Json.string s).written = some s :=
  textOf_codesOf s

private theorem flag?_bool (b : Bool) : flag? (Json.bool b).written = some b :=
  rfl

private theorem optional?_string {α : Type} (read : Written → Option α) (s : String) :
    optional? read (Json.string s).written = (read (Json.string s).written).map some :=
  rfl

end Written

open Written

namespace Archive.Options

/-- The options where some fields stay and the others have their defaults. -/
def keeping (options : Options) (fields : Members) : Options :=
  let base : Options := {}
  { pretty := Json.kept fields "pretty" options.pretty base.pretty
    includeMetadata := Json.kept fields "includeMetadata" options.includeMetadata base.includeMetadata
    sortKeys := Json.kept fields "sortKeys" options.sortKeys base.sortKeys
    author := Json.kept fields "author" options.author base.author
    timestamp := Json.kept fields "timestamp" options.timestamp base.timestamp }

private theorem optional?_text (author : Option String) :
    optional? text? (optionalText author).written = some author := by
  cases author with
  | none => rfl
  | some s =>
    refine (optional?_string text? s).trans ?_
    rw [text?_string, Option.map_some]

private theorem optional?_instant (timestamp : Option Instant) :
    optional? instant? (optionalText (timestamp.map Instant.exactText)).written = some timestamp := by
  cases timestamp with
  | none => rfl
  | some t =>
    have read : instant? (Json.string t.exactText).written = some t := by
      rw [instant?, text?_string, Option.bind_some, Instant.read_exactText]
    refine (optional?_string instant? t.exactText).trans ?_
    rw [read, Option.map_some]

private theorem decode_overlay (options : Options) (fields : Members) (distinct : (fields.map Prod.fst).Nodup)
    (part : Json.Overlays Eq options.encode (.object fields)) :
    decode (Json.object fields).written = some (options.keeping fields) := by
  rw [decode, slots_written distinct]
  simp only [List.map_cons, List.map_nil, slotD_kept flag?_bool part "pretty" rfl,
    slotD_kept flag?_bool part "includeMetadata" rfl, slotD_kept flag?_bool part "sortKeys" rfl,
    slotD_kept optional?_text part "author" rfl, slotD_kept optional?_instant part "timestamp" rfl]
  rfl

private theorem sound_encode (options : Options) : options.encode.Sound := by
  obtain ⟨pretty, metadata, sorted, author, timestamp⟩ := options
  refine Json.sound_object (by simp) ?_
  cases author <;> cases timestamp <;> simp [optionalText, Json.Sound]

end Archive.Options

namespace React.Options

/-- The options where some fields stay and the others have their defaults. -/
def keeping (options : Options) (fields : Members) : Options :=
  let base : Options := {}
  { componentName := Json.kept fields "componentName" options.componentName base.componentName
    typed := Json.kept fields "typed" options.typed base.typed
    functional := Json.kept fields "functional" options.functional base.functional
    comments := Json.kept fields "comments" options.comments base.comments }

private theorem decode_overlay (options : Options) (fields : Members) (distinct : (fields.map Prod.fst).Nodup)
    (part : Json.Overlays Eq options.encode (.object fields)) :
    decode (Json.object fields).written = some (options.keeping fields) := by
  rw [decode, slots_written distinct]
  simp only [List.map_cons, List.map_nil, slotD_kept text?_string part "componentName" rfl,
    slotD_kept flag?_bool part "typed" rfl, slotD_kept flag?_bool part "functional" rfl,
    slotD_kept flag?_bool part "comments" rfl]
  rfl

end React.Options

namespace Token.Options

/-- The options where some fields stay and the others have their defaults. -/
def keeping (options : Options) (fields : Members) : Options :=
  let base : Options := {}
  { semantic := Json.kept fields "semantic" options.semantic base.semantic
    deduplicate := Json.kept fields "deduplicate" options.deduplicate base.deduplicate }

private theorem decode_overlay (options : Options) (fields : Members) (distinct : (fields.map Prod.fst).Nodup)
    (part : Json.Overlays Eq options.encode (.object fields)) :
    decode (Json.object fields).written = some (options.keeping fields) := by
  rw [decode, slots_written distinct]
  simp only [List.map_cons, List.map_nil, slotD_kept flag?_bool part "semantic" rfl,
    slotD_kept flag?_bool part "deduplicate" rfl]
  rfl

end Token.Options

namespace Roblox.Options

/-- The options where some fields stay and the others have their defaults. -/
def keeping (options : Options) (fields : Members) : Options :=
  let base : Options := {}
  { guiName := Json.kept fields "guiName" options.guiName base.guiName
    resetOnSpawn := Json.kept fields "resetOnSpawn" options.resetOnSpawn base.resetOnSpawn }

private theorem decode_overlay (options : Options) (fields : Members) (distinct : (fields.map Prod.fst).Nodup)
    (part : Json.Overlays Eq options.encode (.object fields)) :
    decode (Json.object fields).written = some (options.keeping fields) := by
  rw [decode, slots_written distinct]
  simp only [List.map_cons, List.map_nil, slotD_kept text?_string part "guiName" rfl,
    slotD_kept flag?_bool part "resetOnSpawn" rfl]
  rfl

end Roblox.Options

namespace Settings

/-- The settings where some fields of some sections stay and the others have their defaults. -/
def keeping (settings : Settings) (members : Members) : Settings :=
  { json := settings.json.keeping (Json.under members "json")
    react := settings.react.keeping (Json.under members "react")
    tokens := settings.tokens.keeping (Json.under members "tokens")
    roblox := settings.roblox.keeping (Json.under members "roblox") }

private theorem decode_overlay (settings : Settings) {members : Members} (sound : (Json.object members).Sound)
    (part : Json.Overlays (Json.Overlays Eq) settings.encode (.object members)) :
    decode (Json.object members).written = some (settings.keeping members) := by
  have json := slotD_under Archive.Options.decode_overlay sound part "json" rfl
  have react := slotD_under React.Options.decode_overlay sound part "react" rfl
  have tokens := slotD_under Token.Options.decode_overlay sound part "tokens" rfl
  have roblox := slotD_under Roblox.Options.decode_overlay sound part "roblox" rfl
  rw [decode, slots_written sound.distinct]
  -- The defaults of `decode` are the sections of which nothing is kept.
  calc
    _ = (slotD Archive.Options.decode (settings.json.keeping []) ((members.lookup "json").map Json.written)).bind
          fun json =>
        (slotD React.Options.decode (settings.react.keeping []) ((members.lookup "react").map Json.written)).bind
          fun react =>
        (slotD Token.Options.decode (settings.tokens.keeping []) ((members.lookup "tokens").map Json.written)).bind
          fun tokens =>
        (slotD Roblox.Options.decode (settings.roblox.keeping []) ((members.lookup "roblox").map Json.written)).bind
          fun roblox => some { json, react, tokens, roblox : Settings } := rfl
    _ = some (settings.keeping members) := by simp only [json, react, tokens, roblox, Option.bind_some, keeping]

private theorem sound_encode (settings : Settings) : settings.encode.Sound := by
  have json := settings.json.sound_encode
  refine Json.sound_object (by simp) ?_
  simp only [List.forall_mem_cons, json, true_and]
  simp [React.Options.encode, Token.Options.encode, Roblox.Options.encode, Json.Sound, Json.SoundMembers]

private theorem keeping_fields (settings : Settings) : settings.keeping settings.encode.fields = settings := by
  rfl

private theorem overlays_encode (settings : Settings) :
    Json.Overlays (Json.Overlays Eq) settings.encode settings.encode := by
  refine Json.overlays_self ?_
  intro entry member
  simp only [List.mem_cons, List.not_mem_nil, or_false] at member
  rcases member with rfl | rfl | rfl | rfl
  all_goals exact Json.overlays_self fun _ _ => rfl

private theorem parse_print (settings : Settings) {members : Members} (sound : (Json.object members).Sound)
    (part : Json.Overlays (Json.Overlays Eq) settings.encode (.object members)) {spacing : Spacing}
    (fine : spacing.Fine) : parse ((Json.object members).print spacing) = some (settings.keeping members) := by
  rw [parse, Json.print, read_chars fine (Json.spelled_written _ sound), Option.bind_some]
  exact settings.decode_overlay sound part

/-- Settings are found again in their text. A configuration that has some of their fields, in any sections and any
order, and any others besides, gives their values for the fields that it has and the defaults for the rest. -/
theorem parse_overlay (settings : Settings) :
    parse settings.text = some settings ∧
      ∀ members, (Json.object members).Sound →
        Json.Overlays (Json.Overlays Eq) settings.encode (.object members) →
          ∀ spacing : Spacing, spacing.Fine →
            parse ((Json.object members).print spacing) = some (settings.keeping members) := by
  refine ⟨?_, fun members sound part spacing fine => settings.parse_print sound part fine⟩
  have whole := settings.parse_print settings.sound_encode settings.overlays_encode Spacing.fine_compact
  exact whole.trans (congrArg some settings.keeping_fields)

/-- Of these settings the author and the marks stay; `tokens`, `roblox` and the other fields are gone, and there are
fields that no section knows. -/
theorem parse_partial :
    parse ((Json.object [("svg", .object [("scale", .int 2)]),
      ("react", .object [("theme", .null), ("comments", .bool false)]),
      ("json", .object [("author", .string "Ada")])]).print .compact) =
      some { json := { author := some "Ada" }, react := { comments := false } } := by
  let settings : Settings :=
    { json := { author := some "Ada", sortKeys := false }
      react := { componentName := "Hero", comments := false }
      tokens := { semantic := false } }
  refine (parse_overlay settings).2 _ (by decide) ?_ .compact Spacing.fine_compact
  refine Json.overlays_of_mem (by decide) ?_
  simp only [List.forall_mem_cons, List.not_mem_nil, false_imp_iff, implies_true, and_true]
  refine ⟨fun known => absurd known (by decide), fun _ => ⟨settings.react.encode, by simp, ?_⟩,
    fun _ => ⟨settings.json.encode, by simp, ?_⟩⟩
  · refine Json.overlays_of_mem (by decide) ?_
    simp [settings]
  · refine Json.overlays_of_mem (by decide) ?_
    simp [settings, Archive.Options.optionalText]

end Settings
end Handoff
