import Handoff.Proofs.Decimal.Pixel
import Handoff.Proofs.Text.Lines
import Handoff.Proofs.Text.Scan
import Handoff.Proofs.Text.Words
import Handoff.Proofs.Token.Declarations

set_option autoImplicit false
set_option relaxedAutoImplicit false

/-!
Reading a style sheet, and which designs have one that can be read.

A sheet quotes nothing. Colors, families and weights stand in it as the design has them, and the words of families and
weights also in names, so that a text with a semicolon, a brace or a line end says something else there than in the
catalog. Where no text has such characters the sheet is read back line by line.
-/

namespace Handoff.Token
open Design Allocator

/-- What does not belong in a name: white space, a colon, a semicolon and the braces. -/
def nameEnds : List (Nat × Nat) :=
  Text.blankRanges ++ [(':'.toNat, ';'.toNat), ('\x7b'.toNat, '\x7b'.toNat), ('\x7d'.toNat, '\x7d'.toNat)]

/-- What does not belong in a value: the line ends, a semicolon and the braces. -/
def valueEnds : List (Nat × Nat) :=
  [('\n'.toNat, '\n'.toNat), ('\x0c'.toNat, '\r'.toNat), (';'.toNat, ';'.toNat), ('\x7b'.toNat, '\x7b'.toNat),
    ('\x7d'.toNat, '\x7d'.toNat)]

def Free (ends : List (Nat × Nat)) (cs : List Char) : Prop :=
  ∀ c ∈ cs, Text.inRanges ends c.toNat = false

instance (ends : List (Nat × Nat)) (cs : List Char) : Decidable (Free ends cs) :=
  List.decidableBAll _ _

structure Declaration.Plain (d : Declaration) : Prop where
  name : Free nameEnds d.name.toList
  value : Free valueEnds d.value.toList

/-- Texts that a style sheet can hold: colors, families and weights as values, and the words of families and weights
where these are in names. -/
structure Usage.Plain (options : Options) (usage : Usage) : Prop where
  values : ∀ s ∈ usage.colors ++ usage.families ++ usage.weights, Free valueEnds s.toList
  families : options.semantic = true → ∀ family ∈ usage.families,
    ∀ word ∈ Text.Words.split (primaryFamily family), Free nameEnds word
  weights : options.semantic = true → ∀ weight ∈ usage.weights,
    ∀ word ∈ Text.Words.split (Text.trimBy Text.isBlank weight.toList), Free nameEnds word

section Characters

private theorem free_append {ends : List (Nat × Nat)} {first second : List Char} :
    Free ends (first ++ second) ↔ Free ends first ∧ Free ends second :=
  List.forall_mem_append

private theorem free_of_isAlphanum {c : Char} (h : c.isAlphanum = true ∨ c ∈ ['-', '.', '+']) :
    Text.inRanges nameEnds c.toNat = false ∧ Text.inRanges valueEnds c.toNat = false := by
  have table : ∀ code < 0x80, ((Char.ofNat code).isAlphanum || ['-', '.', '+'].contains (Char.ofNat code)) = true →
      Text.inRanges nameEnds code = false ∧ Text.inRanges valueEnds code = false := by decide +kernel
  have ascii : c.toNat < 0x80 := by
    rcases h with letter | sign
    · have := Text.toNat_of_isAlphanum letter
      omega
    · have small : ['-', '.', '+'].all (fun c => c.toNat < 0x80) = true := by decide
      exact of_decide_eq_true (List.all_eq_true.mp small c sign)
  refine table c.toNat ascii ?_
  rw [Char.ofNat_toNat, Bool.or_eq_true, List.contains_iff_mem]
  exact h

private theorem Ordinary.free {s : String} (ordinary : Ordinary s) : Free nameEnds s.toList :=
  fun c member => (free_of_isAlphanum ((ordinary c member).imp_right fun hyphen => by simp [hyphen])).1

private theorem free_plainText (x : Float) : Free valueEnds (plainText x).toList := by
  intro c member
  refine (free_of_isAlphanum ?_).2
  rcases mem_plainText member with mark | letter
  · simp only [Numeral.isMark, Bool.or_eq_true, beq_iff_eq] at mark
    rcases mark with (((digit | rfl) | rfl) | rfl) | rfl
    · exact .inl (by simp [Char.isAlphanum, digit])
    · exact .inr (by decide)
    · exact .inr (by decide)
    · exact .inr (by decide)
    · exact .inl (by decide)
  · exact .inl (by simp [Char.isAlphanum, letter])

private theorem free_pxText (x : Float) : Free valueEnds (pxText x).toList := by
  rw [pxText, String.toList_append, free_append]
  exact ⟨free_plainText x, by decide⟩

private theorem caseless_nameEnds : Text.LetterCase.Caseless nameEnds where
  ascii := by decide +kernel
  sequences := by decide
  before := by decide +kernel
  after := by decide +kernel
  sigmas := by
    rw [List.forall_mem_cons, List.forall_mem_cons, List.forall_mem_singleton]
    exact ⟨by decide, by decide, by decide⟩
  zero := by decide

private theorem free_kebab (cs : List Char) :
    Free nameEnds (Text.Words.kebab (String.ofList cs)).toList ↔ ∀ word ∈ Text.Words.split cs, Free nameEnds word :=
  Text.Words.forall_mem_kebab caseless_nameEnds (by decide) cs

end Characters

section Values

private theorem mem_of_fontsOf {usage : Usage} {size : Float} {say : Font → Option String} {s : String}
    (h : mostCommon ((usage.fontsOf size).filterMap say) = some s) : s ∈ usage.fonts.filterMap say := by
  obtain ⟨font, member, said⟩ := List.mem_filterMap.mp (mostCommon_eq_some_iff.mp h).1
  exact List.mem_filterMap.mpr ⟨font, List.mem_of_mem_filter member, said⟩

private theorem free_partOf {name : String} {part : Option String}
    (free : ∀ s, part = some s → Free valueEnds s.toList) : ∀ d ∈ partOf name part, Free valueEnds d.value.toList := by
  cases part with
  | none => nofun
  | some s => exact List.forall_mem_singleton.mpr (free s rfl)

private theorem free_of_draft {options : Options} {usage : Usage} {c : TokenClass} {draft : Draft}
    (values : ∀ s ∈ usage.colors ++ usage.families ++ usage.weights, Free valueEnds s.toList)
    (member : draft ∈ drafts options usage c) (name : String) :
    ∀ d ∈ draft.token.value.declarations name, Free valueEnds d.value.toList := by
  rw [List.forall_mem_append, List.forall_mem_append] at values
  obtain ⟨⟨colors, families⟩, weights⟩ := values
  cases c with
  | color =>
    rw [drafts] at member
    obtain ⟨value, used, rank, count, rfl⟩ := exists_use member
    exact List.forall_mem_singleton.mpr (colors value used)
  | typography =>
    rw [drafts] at member
    obtain ⟨size, used, rank, count, rfl⟩ := exists_use member
    refine List.forall_mem_append.mpr ⟨List.forall_mem_cons.mpr ⟨free_pxText size, ?_⟩, ?_⟩
    · exact free_partOf fun s most => families s (mem_of_fontsOf most)
    · exact free_partOf fun s most => weights s (mem_of_fontsOf most)
  | fontFamily =>
    rw [drafts] at member
    obtain ⟨family, used, rank, count, rfl⟩ := exists_use member
    exact List.forall_mem_singleton.mpr (families family used)
  | fontWeight =>
    rw [drafts] at member
    obtain ⟨weight, used, rank, count, rfl⟩ := exists_use member
    exact List.forall_mem_singleton.mpr (weights weight used)
  | spacing =>
    rw [drafts] at member
    obtain ⟨px, used, rank, count, rfl⟩ := exists_use member
    exact List.forall_mem_singleton.mpr (free_pxText px)
  | radius =>
    rw [drafts] at member
    obtain ⟨px, used, rank, count, rfl⟩ := exists_use member
    exact List.forall_mem_singleton.mpr (free_pxText px)
  | opacity =>
    rw [drafts] at member
    obtain ⟨opacity, used, rank, count, rfl⟩ := exists_use member
    exact List.forall_mem_singleton.mpr (free_plainText opacity)

end Values

section Names

variable {options : Options} {tree : Tree} {c : TokenClass}

private theorem free_slugs {usage : Usage} :
    (∀ c, ∀ slug ∈ slugs options usage c, Free nameEnds slug.toList) ↔
      (options.semantic = true → ∀ family ∈ usage.families,
        ∀ word ∈ Text.Words.split (primaryFamily family), Free nameEnds word) ∧
      (options.semantic = true → ∀ weight ∈ usage.weights,
        ∀ word ∈ Text.Words.split (Text.trimBy Text.isBlank weight.toList), Free nameEnds word) := by
  have family (s : String) : Free nameEnds (familySlug s).toList ↔
      ∀ word ∈ Text.Words.split (primaryFamily s), Free nameEnds word := free_kebab _
  have weight (s : String) : Free nameEnds (weightSlug s).toList ↔
      ∀ word ∈ Text.Words.split (Text.trimBy Text.isBlank s.toList), Free nameEnds word := free_kebab _
  simp only [← family, ← weight]
  constructor
  · intro free
    refine ⟨fun semantic s used => ?_, fun semantic s used => ?_⟩
    · exact free .fontFamily _ (mem_slugs_family.mpr ⟨semantic, s, used, rfl⟩)
    · exact free .fontWeight _ (mem_slugs_weight.mpr ⟨semantic, s, used, rfl⟩)
  · rintro ⟨families, weights⟩ c slug told
    cases c with
    | fontFamily =>
      obtain ⟨semantic, s, used, rfl⟩ := mem_slugs_family.mp told
      exact families semantic s used
    | fontWeight =>
      obtain ⟨semantic, s, used, rfl⟩ := mem_slugs_weight.mp told
      exact weights semantic s used
    | color | typography | spacing | radius | opacity => cases told

private theorem free_name (free : ∀ slug ∈ slugs options (.ofTree tree) c, Free nameEnds slug.toList)
    {entry : String × DesignToken} (member : entry ∈ (extract options tree).get c) : Free nameEnds entry.1.toList := by
  obtain ⟨d, drafted, -, made⟩ := exists_of_forall₂ (madeFrom_get_extract options tree c) member
  have base : Free nameEnds d.base.toList := by
    obtain ⟨stem, known, -, ordinary | ⟨slug, told, -, named⟩⟩ := shaped_draft drafted
    · exact ordinary.free
    · rw [named, String.toList_append, free_append]
      have plain : ∀ c, ∀ stem ∈ stems c, Ordinary stem := by
        rintro (_ | _ | _ | _ | _ | _ | _) <;> decide
      exact ⟨(plain c stem known).free, free slug told⟩
  rcases made with same | ⟨n, same⟩
  · rwa [same]
  · rw [same, numbered, String.toList_append, String.toList_append, free_append, free_append]
    exact ⟨⟨base, by decide⟩, (ordinary_toString n).free⟩

private theorem free_declared {name : String} (free : Free nameEnds name.toList) (value : Value) :
    ∀ d ∈ value.declarations name, Free nameEnds d.name.toList := by
  cases value with
  | number x => exact List.forall_mem_singleton.mpr free
  | text s => exact List.forall_mem_singleton.mpr free
  | typography t =>
    intro d member
    have ending := (names_typography name t).subset (List.mem_map_of_mem member)
    obtain ⟨ending, known, same⟩ := List.mem_map.mp ending
    have plain : ∀ ending ∈ partEndings, Ordinary ending := by decide
    rw [← same, String.toList_append, free_append]
    exact ⟨free, (plain ending known).free⟩

private theorem exists_declaration (name : String) (value : Value) :
    ∃ d ∈ value.declarations name, name.toList <+: d.name.toList := by
  cases value with
  | number x => exact ⟨_, List.mem_singleton_self _, List.prefix_refl _⟩
  | text s => exact ⟨_, List.mem_singleton_self _, List.prefix_refl _⟩
  | typography t =>
    refine ⟨_, List.mem_append_left _ (List.mem_cons_self ..), ?_⟩
    rw [String.toList_append]
    exact List.prefix_append ..

private theorem mem_declarations {catalog : Catalog} {d : Declaration} :
    d ∈ catalog.declarations ↔ ∃ c, ∃ entry ∈ catalog.get c, d ∈ entry.2.value.declarations entry.1 := by
  rw [Catalog.declarations, List.mem_flatMap]
  constructor
  · rintro ⟨⟨c, entry⟩, member, declared⟩
    exact ⟨c, entry, mem_toList.mp member, declared⟩
  · rintro ⟨c, entry, member, declared⟩
    exact ⟨(c, entry), mem_toList.mpr member, declared⟩

end Names

section Plain

variable {options : Options} {tree : Tree} {c : TokenClass}

private theorem exists_text_draft (options : Options) {usage : Usage} {s : String}
    (used : s ∈ usage.colors ++ usage.families ++ usage.weights) :
    ∃ c, ∃ draft ∈ drafts options usage c, draft.token.value = .text s := by
  rcases List.mem_append.mp used with either | weight
  · rcases List.mem_append.mp either with color | family
    · refine ⟨.color, ?_⟩
      rw [drafts]
      obtain ⟨rank, count, there⟩ := exists_draft color
      exact ⟨_, there, rfl⟩
    · refine ⟨.fontFamily, ?_⟩
      rw [drafts]
      obtain ⟨rank, count, there⟩ := exists_draft family
      exact ⟨_, there, rfl⟩
  · refine ⟨.fontWeight, ?_⟩
    rw [drafts]
    obtain ⟨rank, count, there⟩ := exists_draft weight
    exact ⟨_, there, rfl⟩

private theorem free_of_text (plain : ∀ d ∈ (extract options tree).declarations, d.Plain) {draft : Draft}
    (drafted : draft ∈ drafts options (.ofTree tree) c) {s : String} (text : draft.token.value = .text s) :
    Free valueEnds s.toList := by
  have member := List.mem_map_of_mem (f := Draft.token) drafted
  rw [← map_snd_get_extract] at member
  obtain ⟨entry, there, same⟩ := List.mem_map.mp member
  refine (plain ⟨entry.1, s⟩ (mem_declarations.mpr ⟨c, entry, there, ?_⟩)).value
  rw [same, text]
  exact List.mem_singleton_self _

private theorem free_of_slug (plain : ∀ d ∈ (extract options tree).declarations, d.Plain) {slug : String}
    (told : slug ∈ slugs options (.ofTree tree) c) : Free nameEnds slug.toList := by
  by_cases none : slug = ""
  · rw [none]
    exact nofun
  · obtain ⟨draft, drafted, stem, -, base⟩ := exists_draft_of_slug told none
    obtain ⟨⟨e, entry⟩, there, same⟩ := List.mem_map.mp (mem_names_extract options tree drafted)
    obtain ⟨d, declared, ⟨rest, whole⟩⟩ := exists_declaration entry.1 entry.2.value
    have free := (plain d (mem_declarations.mpr ⟨e, entry, mem_toList.mp there, declared⟩)).name
    have name : entry.1 = stem ++ slug := same.trans base
    rw [← whole, name, String.toList_append, free_append, free_append] at free
    exact free.1.2

private theorem plain_iff :
    (∀ d ∈ (extract options tree).declarations, d.Plain) ↔ (Usage.ofTree tree).Plain options := by
  constructor
  · intro plain
    obtain ⟨families, weights⟩ := free_slugs.mp fun c slug => free_of_slug (c := c) plain
    refine ⟨fun s used => ?_, families, weights⟩
    obtain ⟨c, draft, drafted, text⟩ := exists_text_draft options used
    exact free_of_text plain drafted text
  · intro plain d member
    obtain ⟨c, entry, there, declared⟩ := mem_declarations.mp member
    obtain ⟨draft, drafted, same, -⟩ := exists_of_forall₂ (madeFrom_get_extract options tree c) there
    have slugs := free_slugs.mpr ⟨plain.families, plain.weights⟩ c
    refine ⟨free_declared (free_name slugs there) entry.2.value d declared, ?_⟩
    rw [same] at declared
    exact free_of_draft plain.values drafted entry.1 d declared

end Plain

section Reading

/-- The declaration that a line is: a name up to the first colon with a space, and a value up to a last semicolon. -/
def readDeclaration (line : String) : Option Declaration := do
  let inner ← Text.enclosed? "  --".toList ';' line.toList
  let (name, value) ← Text.splitOnce? [':', ' '] inner
  return ⟨String.ofList name, String.ofList value⟩

/-- The declarations of the lines up to the closing one, which is the last. -/
def readDeclarations : List String → Option (List Declaration)
  | [] => none
  | line :: rest =>
    if line = "\x7d" then if rest = [""] then some [] else none
    else do
      let d ← readDeclaration line
      let others ← readDeclarations rest
      return d :: others

/-- The declarations of a sheet. -/
def readSheet (text : String) : Option (List Declaration) :=
  match Text.lines text with
  | [] => none
  | line :: rest => if line = ":root \x7b" then readDeclarations rest else none

private theorem not_mem_of_free {ends : List (Nat × Nat)} {cs : List Char} (free : Free ends cs) {c : Char}
    (inside : Text.inRanges ends c.toNat = true) : c ∉ cs := by
  intro member
  rw [free c member] at inside
  cases inside

private theorem toList_line (d : Declaration) :
    d.line.toList = "  --".toList ++ (d.name.toList ++ [':', ' '] ++ d.value.toList ++ [';']) := by
  simp [Declaration.line]

private theorem readDeclaration_line {d : Declaration} (plain : d.Plain) : readDeclaration d.line = some d := by
  have inner : Text.enclosed? "  --".toList ';' d.line.toList =
      some (d.name.toList ++ [':', ' '] ++ d.value.toList) := by
    rw [toList_line, Text.enclosed?, if_pos (List.isPrefixOf_iff_prefix.mpr (List.prefix_append ..)), List.drop_left]
    simp only [List.getLast?_concat, List.dropLast_concat, if_true]
  have colon := not_mem_of_free plain.name (c := ':') (by decide)
  rw [readDeclaration, inner]
  simp only [Option.bind_eq_bind, Option.bind_some, Text.splitOnce?_append [' '] colon, String.ofList_toList]
  rfl

private theorem line_ne_end (d : Declaration) : d.line ≠ "\x7d" := by
  intro same
  have starts := congrArg (fun line => line.toList.head?) same
  rw [toList_line] at starts
  have first : ' ' = '\x7d' := Option.some.inj starts
  exact absurd first (by decide)

private theorem readDeclarations_lines {ds : List Declaration} (plain : ∀ d ∈ ds, d.Plain) :
    readDeclarations (ds.map Declaration.line ++ ["\x7d", ""]) = some ds := by
  induction ds with
  | nil => rfl
  | cons d rest ih =>
    rw [List.forall_mem_cons] at plain
    rw [List.map_cons, List.cons_append, readDeclarations, if_neg (line_ne_end d), readDeclaration_line plain.1,
      ih plain.2]
    rfl

private theorem line_end_not_mem {d : Declaration} (plain : d.Plain) : '\n' ∉ d.line.toList := by
  have name := not_mem_of_free plain.name (c := '\n') (by decide)
  have value := not_mem_of_free plain.value (c := '\n') (by decide)
  rw [toList_line]
  simp only [List.mem_append, name, value]
  decide

private theorem lines_styleSheet {catalog : Catalog} (plain : ∀ d ∈ catalog.declarations, d.Plain) :
    Text.lines catalog.styleSheet = ":root \x7b" :: catalog.declarations.map Declaration.line ++ ["\x7d", ""] := by
  rw [Catalog.styleSheet, Text.lines_unlines]
  · simp
  · rw [List.cons_append, List.forall_mem_cons, List.forall_mem_append, List.forall_mem_map, List.forall_mem_singleton]
    exact ⟨by decide, fun d member => line_end_not_mem (plain d member), by decide⟩

end Reading

/-- The names and values of a style sheet have no characters that would end them exactly when the colors, families and
weights of the design have none and, where names tell what a token is for, the words of its families and weights have
none. Then the sheet has a line for each declaration, and is read back as these. -/
theorem styleSheet_plain (options : Options) (tree : Tree) :
    ((∀ d ∈ (extract options tree).declarations, d.Plain) ↔ (Usage.ofTree tree).Plain options) ∧
      ((Usage.ofTree tree).Plain options →
        Text.lines (extract options tree).styleSheet =
            ":root \x7b" :: (extract options tree).declarations.map Declaration.line ++ ["\x7d", ""] ∧
          readSheet (extract options tree).styleSheet = some (extract options tree).declarations) := by
  refine ⟨plain_iff, fun plain => ?_⟩
  have declared := plain_iff.mpr plain
  have lines := lines_styleSheet declared
  refine ⟨lines, ?_⟩
  rw [readSheet, lines]
  exact (if_pos rfl).trans (readDeclarations_lines declared)

/-- A label in a family of several words, of which the first in quotes is in its name. -/
theorem styleSheet_plain_label :
    let label : Label :=
      { text := "a", color := some "rgba(0, 0, 0, .5)", fontSize := some 14
        fontFamily := some "'Times New Roman', serif" }
    let tree : Tree := { root := .leaf { id := "label" } (.text label) }
    (Usage.ofTree tree).Plain {} ∧
      readSheet (extract {} tree).styleSheet = some [⟨"accent-1", "rgba(0, 0, 0, .5)"⟩, ⟨"text-sm-size", "14px"⟩,
        ⟨"text-sm-family", "'Times New Roman', serif"⟩, ⟨"font-times-new-roman", "'Times New Roman', serif"⟩,
        ⟨"opacity-100", "1"⟩] := by
  intro label tree
  have plain : (Usage.ofTree tree).Plain {} :=
    ⟨by decide +kernel, fun _ => by decide +kernel, fun _ => by decide +kernel⟩
  have declared : (extract {} tree).declarations = [⟨"accent-1", "rgba(0, 0, 0, .5)"⟩, ⟨"text-sm-size", "14px"⟩,
      ⟨"text-sm-family", "'Times New Roman', serif"⟩, ⟨"font-times-new-roman", "'Times New Roman', serif"⟩,
      ⟨"opacity-100", "1"⟩] := by decide +kernel
  rw [← declared]
  exact ⟨plain, ((styleSheet_plain {} tree).2 plain).2⟩

/-- A background that ends its own value: the sheet is read as one of another declaration. -/
theorem not_styleSheet_plain :
    let tree : Tree :=
      { root := .container { id := "page" } (.panel .frame { background := some "red;\n  --opacity-0: 0" }) [] }
    (¬∀ d ∈ (extract {} tree).declarations, d.Plain) ∧
      (extract {} tree).declarations = [⟨"accent-1", "red;\n  --opacity-0: 0"⟩, ⟨"opacity-100", "1"⟩] ∧
      readSheet (extract {} tree).styleSheet =
        some [⟨"accent-1", "red"⟩, ⟨"opacity-0", "0"⟩, ⟨"opacity-100", "1"⟩] := by
  intro tree
  have declared : (extract {} tree).declarations = [⟨"accent-1", "red;\n  --opacity-0: 0"⟩, ⟨"opacity-100", "1"⟩] := by
    decide +kernel
  refine ⟨?_, declared, by decide +kernel⟩
  rw [declared, List.forall_mem_cons]
  intro plain
  have ends : ¬Free valueEnds "red;\n  --opacity-0: 0".toList := by decide
  exact ends plain.1.value

end Handoff.Token
