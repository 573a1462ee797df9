import Handoff.Token.Encode
import Handoff.Token.TypeScript
import Handoff.Proofs.Json.RoundTrip
import Handoff.Proofs.Json.Slots
import Handoff.Proofs.Token.Sightings

set_option autoImplicit false
set_option relaxedAutoImplicit false

/-!
The JSON of a catalog can be read back.

What is read is the catalog without the counts, which are not written. A value is read as the variant that it was
written from: a number, a text and a face are written as three kinds of JSON.
-/

namespace Handoff.Token
open Design

/-- A token without the number of uses that it stands for. -/
def DesignToken.uncounted (token : DesignToken) : DesignToken :=
  { token with count := 0 }

/-- A catalog without the numbers of uses. -/
def Catalog.uncounted (catalog : Catalog) : Catalog :=
  .ofClasses fun c => (catalog.get c).map fun entry => (entry.1, entry.2.uncounted)

/-- Catalogs in which a class has no name twice, and all numbers are finite. -/
structure Catalog.WellFormed (catalog : Catalog) : Prop where
  names : ∀ c, ((catalog.get c).map Prod.fst).Nodup
  finite : ∀ c, ∀ entry ∈ catalog.get c, ∀ x, entry.2.value = .number x → x.isFinite = true

theorem wellFormed_extract (options : Options) (tree : Tree) : (extract options tree).WellFormed where
  names c := by
    have sub : (((extract options tree).get c).map Prod.fst).Sublist
        ((extract options tree).toList.map fun entry => entry.2.1) := by
      rw [Catalog.toList, List.map_flatMap]
      simp only [List.map_map, Function.comp_def]
      exact List.sublist_flatten_of_mem (List.mem_map_of_mem c.mem_all)
    exact (nodup_names_extract options tree).sublist sub
  finite _ _ member _ number := isFinite_of_mem_extract member number

section Values

private theorem ofFloat_of_isFinite {x : Float} (finite : x.isFinite = true) : Json.ofFloat x = .float x :=
  if_pos finite

private theorem nodup_typography (t : Typography) :
    ((("fontSize", Json.string t.fontSize) :: optionalText "fontFamily" t.fontFamily
      ++ optionalText "fontWeight" t.fontWeight).map Prod.fst).Nodup := by
  cases t.fontFamily <;> cases t.fontWeight <;> simp [optionalText]

private theorem text?_written (s : String) : (Json.string s).written.text? = some s :=
  Written.textOf_codesOf s

private theorem decode_typography (t : Typography) : Typography.decode t.encode.written = some t := by
  rw [Typography.decode, Typography.encode, Written.slots_written (nodup_typography t)]
  obtain ⟨size, family, weight⟩ := t
  have optional (s : String) : Written.optional? Written.text? (Json.string s).written = some (some s) :=
    congrArg (Option.map some) (text?_written s)
  cases family <;> cases weight <;>
    simp [optionalText, Written.slotD, text?_written, optional, List.lookup]

private theorem sound_value {value : Value} (finite : ∀ x, value = .number x → x.isFinite = true) :
    value.encode.Sound ∧ value.encode.depth ≤ 1 := by
  cases value with
  | number x =>
    rw [Value.encode, ofFloat_of_isFinite (finite x rfl)]
    exact ⟨finite x rfl, Nat.zero_le _⟩
  | text s => exact ⟨trivial, Nat.zero_le _⟩
  | typography t =>
    refine ⟨⟨nodup_typography t, Json.soundMembers_iff.mpr ?_⟩, Nat.succ_le_succ (Json.depthMembers_le.mpr ?_)⟩
    all_goals cases t.fontFamily <;> cases t.fontWeight <;> simp [optionalText, Json.Sound, Json.depth]

private theorem decode_value {value : Value} (finite : ∀ x, value = .number x → x.isFinite = true) :
    Value.decode value.encode.written = some value := by
  obtain ⟨sound, shallow⟩ := sound_value finite
  have meant := Json.value_written value.encode sound (Written.depthLimit - 3) (shallow.trans (by decide))
  rw [Value.decode, meant]
  cases value with
  | number x =>
    rw [Value.encode, ofFloat_of_isFinite (finite x rfl)]
    rfl
  | text s => rfl
  | typography t => exact congrArg (Option.map Value.typography) (decode_typography t)

end Values

section Tokens

private theorem choice?_type (c : TokenClass) :
    Written.choice? TokenClass.words (Json.string c.typeName).written = some c := by
  have word : List.lookup c.typeName TokenClass.words = some c := by
    cases c <;> decide
  rw [Json.written, Written.choice?, Written.textOf_codesOf, Option.bind_some, word]

private theorem decode_token {token : DesignToken} (finite : ∀ x, token.value = .number x → x.isFinite = true) :
    DesignToken.decode token.encode.written = some token.uncounted := by
  have distinct : ([("value", token.value.encode), ("type", Json.string token.type.typeName),
      ("description", Json.string token.description)].map Prod.fst).Nodup := by
    simp
  rw [DesignToken.decode, DesignToken.encode, Written.slots_written distinct]
  simp [List.lookup, decode_value finite, choice?_type, text?_written, DesignToken.uncounted]

private theorem sound_token {token : DesignToken} (finite : ∀ x, token.value = .number x → x.isFinite = true) :
    token.encode.Sound := by
  refine ⟨by simp, Json.soundMembers_iff.mpr ?_⟩
  simp [Json.Sound, (sound_value finite).1]

def tokenMembers (tokens : Entries DesignToken) : Members :=
  tokens.map fun entry => (entry.1, entry.2.encode)

private theorem keys_tokenMembers (tokens : Entries DesignToken) :
    (tokenMembers tokens).map Prod.fst = tokens.map Prod.fst := by
  simp [tokenMembers]

private theorem decodeTokens_written {tokens : Entries DesignToken}
    (finite : ∀ entry ∈ tokens, ∀ x, entry.2.value = .number x → x.isFinite = true) :
    decodeTokens ((tokenMembers tokens).map fun entry => (entry.1, entry.2.written)) =
      some (tokens.map fun entry => (entry.1, entry.2.uncounted)) := by
  induction tokens with
  | nil => rfl
  | cons entry rest ih =>
    obtain ⟨name, token⟩ := entry
    obtain ⟨first, others⟩ := List.forall_mem_cons.mp finite
    have after := ih others
    simp only [tokenMembers, List.map_cons, decodeTokens] at after ⊢
    rw [decode_token first, after]

private theorem decodeClass_written {tokens : Entries DesignToken} (names : (tokens.map Prod.fst).Nodup)
    (finite : ∀ entry ∈ tokens, ∀ x, entry.2.value = .number x → x.isFinite = true) :
    decodeClass (Json.object (tokenMembers tokens)).written =
      some (tokens.map fun entry => (entry.1, entry.2.uncounted)) := by
  rw [Json.written, decodeClass, Written.keyed_writtenMembers, Option.bind_some, decodeTokens_written finite,
    Option.map_some, Entries.putAll_new, List.nil_append]
  simpa [Function.comp_def] using names

end Tokens

section Catalogs

variable {catalog : Catalog}

private def classMembers (catalog : Catalog) : Members :=
  TokenClass.all.map fun c => (c.key, .object (tokenMembers (catalog.get c)))

private theorem nodup_classMembers (catalog : Catalog) : ((classMembers catalog).map Prod.fst).Nodup := by
  rw [classMembers, List.map_map]
  change (TokenClass.all.map TokenClass.key).Nodup
  decide

private theorem sound_catalog (form : catalog.WellFormed) : catalog.encode.Sound := by
  refine ⟨nodup_classMembers catalog, Json.soundMembers_iff.mpr fun entry member => ?_⟩
  obtain ⟨c, -, rfl⟩ := List.mem_map.mp member
  refine ⟨?_, Json.soundMembers_iff.mpr fun entry held => ?_⟩
  · exact (keys_tokenMembers (catalog.get c)).symm ▸ form.names c
  · obtain ⟨told, token, rfl⟩ := List.mem_map.mp held
    exact sound_token (form.finite c told token)

private theorem decode_catalog (form : catalog.WellFormed) :
    Catalog.decode catalog.encode.written = some catalog.uncounted := by
  have read (c : TokenClass) := decodeClass_written (form.names c) (form.finite c)
  have encoded : catalog.encode = .object (classMembers catalog) := rfl
  rw [Catalog.decode, encoded, Written.slots_written (nodup_classMembers catalog)]
  simp [classMembers, TokenClass.all, TokenClass.key, List.lookup, read, Catalog.uncounted, Catalog.ofClasses]

theorem parse_json (form : catalog.WellFormed) : Catalog.parse catalog.json = some catalog.uncounted := by
  rw [Catalog.parse, Catalog.json, Json.pretty, Json.print,
    Written.read_chars Written.Spacing.fine_pretty (Json.spelled_written _ (sound_catalog form)), Option.bind_some,
    decode_catalog form]

private theorem get_uncounted (catalog : Catalog) (c : TokenClass) :
    catalog.uncounted.get c = (catalog.get c).map fun entry => (entry.1, entry.2.uncounted) :=
  get_ofClasses _ c

theorem json_uncounted (catalog : Catalog) : catalog.uncounted.json = catalog.json := by
  simp only [Catalog.json, Catalog.encode, get_uncounted, List.map_map]
  rfl

theorem styleSheet_uncounted (catalog : Catalog) : catalog.uncounted.styleSheet = catalog.styleSheet := by
  simp only [Catalog.styleSheet, Catalog.declarations, Catalog.toList, get_uncounted, List.map_map, List.flatMap_assoc,
    List.flatMap_map]
  rfl

theorem typeScript_uncounted (catalog : Catalog) : catalog.uncounted.typeScript = catalog.typeScript := by
  simp only [Catalog.typeScript, Catalog.moduleLines, classLines, get_uncounted, List.map_map, List.isEmpty_map]
  rfl

/-- The JSON of a catalog is a faithful form of it. It is read back as the catalog without its counts, with the same
classes, names, values, types and descriptions, and all that is written for what was read is what was written before. -/
theorem parse_extract (options : Options) (tree : Tree) :
    Catalog.parse (extract options tree).json = some (extract options tree).uncounted ∧
      (extract options tree).uncounted.json = (extract options tree).json ∧
      (extract options tree).uncounted.styleSheet = (extract options tree).styleSheet ∧
      (extract options tree).uncounted.typeScript = (extract options tree).typeScript :=
  ⟨parse_json (wellFormed_extract options tree), json_uncounted _, styleSheet_uncounted _, typeScript_uncounted _⟩

end Catalogs

end Handoff.Token
