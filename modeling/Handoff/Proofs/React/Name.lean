import Handoff.Proofs.Text.Words
import Handoff.React.Component

set_option autoImplicit false
set_option relaxedAutoImplicit false

/-!
The name of a component as an identifier.

The words of the configured name are capitalized first, and what an identifier of ASCII cannot have is dropped from them
afterwards. What is left begins with a capital unless the capital of its word is among what was dropped. An underscore is
no part of a word, except in one cluster with its marks.
-/

namespace Handoff.React
open Text.Words
open Text.LetterCase

def reservedWords : List String :=
  ["arguments", "await", "break", "case", "catch", "class", "const", "continue", "debugger", "default", "delete", "do",
    "else", "enum", "eval", "export", "extends", "false", "finally", "for", "function", "if", "implements", "import",
    "in", "instanceof", "interface", "let", "new", "null", "package", "private", "protected", "public", "return",
    "static", "super", "switch", "this", "throw", "true", "try", "typeof", "var", "void", "while", "with", "yield"]

/-- Letters, digits and underscores of ASCII with no digit in front. -/
def IsIdentifier (name : String) : Prop :=
  ∃ first rest, name.toList = first :: rest ∧ first.isDigit = false ∧
    ∀ c ∈ first :: rest, c.isAlphanum = true ∨ c = '_'

/-- A component can go by the name: a capital with letters and digits of ASCII after it, not reserved, and not the name
that a component's source imports. -/
structure IsUsable (name : String) : Prop where
  pascal : ∃ first rest, name.toList = first :: rest ∧ first.isUpper = true ∧ ∀ c ∈ rest, c.isAlphanum = true
  free : name ∉ reservedWords
  apart : name ≠ "React"

/-- What a name can have of the capitalized words of the configured one. -/
def nameCharacters (configured : String) : List Char :=
  (pascal configured).toList.filter isNameChar

/-- The configured name is taken: some of it is left, with no digit in front. -/
def IsTaken (configured : String) : Prop :=
  ∃ first ∈ (nameCharacters configured).head?, first.isDigit = false

/-- What is left begins inside a word: nothing is left of the words before it, nor of its capital. -/
def LosesCapital (configured : String) : Prop :=
  ∃ before first rest after, split configured.toList = before ++ (first :: rest) :: after ∧
    (∀ word ∈ before, ∀ c ∈ capitalize word, isNameChar c = false) ∧
    (∀ c ∈ upper first, isNameChar c = false) ∧ ∃ c ∈ lowerText rest, isNameChar c = true

/-- A word has an underscore, as part of a cluster. -/
def KeepsUnderscore (configured : String) : Prop :=
  ∃ word ∈ split configured.toList, '_' ∈ word

section Characters

private theorem nameCharacters_eq (configured : String) :
    nameCharacters configured = ((split configured.toList).map capitalize).flatten.filter isNameChar := by
  rw [nameCharacters, pascal, String.toList_ofList]

private theorem underscore_mem_capitalize (word : List Char) : '_' ∈ capitalize word ↔ '_' ∈ word := by
  cases word with
  | nil => rfl
  | cons first rest =>
    rw [capitalize, List.mem_append, List.mem_cons, underscore_mem_upper, underscore_mem_lowerText, eq_comm]

private theorem underscore_mem_nameCharacters (configured : String) :
    '_' ∈ nameCharacters configured ↔ KeepsUnderscore configured := by
  rw [nameCharacters_eq, List.mem_filter, and_iff_left (by decide), List.mem_flatten]
  constructor
  · rintro ⟨capitalized, member, here⟩
    obtain ⟨word, known, rfl⟩ := List.mem_map.mp member
    exact ⟨word, known, (underscore_mem_capitalize word).mp here⟩
  · rintro ⟨word, known, here⟩
    exact ⟨capitalize word, List.mem_map_of_mem known, (underscore_mem_capitalize word).mpr here⟩

private theorem find?_capitalized {before after : List (List Char)} {word : List Char}
    (dropped : ∀ word ∈ before, ∀ c ∈ capitalize word, isNameChar c = false) {a : Char}
    (found : (capitalize word).find? isNameChar = some a) :
    ((before ++ word :: after).map capitalize).flatten.find? isNameChar = some a := by
  have none : (before.map capitalize).flatten.find? isNameChar = none := by
    rw [List.find?_eq_none, ← List.flatMap_def]
    intro c member
    obtain ⟨word, known, member⟩ := List.mem_flatMap.mp member
    simp [dropped word known c member]
  rw [List.map_append, List.map_cons, List.flatten_append, List.flatten_cons, List.find?_append, none, Option.none_or,
    List.find?_append, found, Option.some_or]

private theorem find?_capitalize (first : Char) (rest : List Char) :
    (capitalize (first :: rest)).find? isNameChar =
      ((upper first).find? isNameChar).or ((lowerText rest).find? isNameChar) :=
  List.find?_append

private theorem isUpper_first {configured : String} {a : Char} (found : (nameCharacters configured).head? = some a)
    (letter : a.isAlpha = true) : a.isUpper = true ↔ ¬ LosesCapital configured := by
  rw [nameCharacters_eq, List.head?_filter] at found
  constructor
  · rintro capital ⟨before, first, rest, after, words, dropped, lost, c, member, stays⟩
    have none : (upper first).find? isNameChar = none := List.find?_eq_none.mpr fun c member => by simp [lost c member]
    obtain ⟨b, inside⟩ := Option.isSome_iff_exists.mp (List.find?_isSome.mpr ⟨c, member, stays⟩)
    have here : (capitalize (first :: rest)).find? isNameChar = some b := by
      rw [find?_capitalize, none, Option.none_or, inside]
    rw [words, find?_capitalized dropped here, Option.some.injEq] at found
    have small := isUpper_of_mem_lowerText (List.mem_of_find?_eq_some inside)
    rw [found, capital] at small
    cases small
  · intro stays
    obtain ⟨kept, front, ys, zs, back, words, dropped, skipped⟩ := List.find?_flatten_eq_some_iff.mp found
    obtain ⟨before, others, words, rfl, others_eq⟩ := List.map_eq_append_iff.mp words
    obtain ⟨word, after, rfl, here, rfl⟩ := List.map_eq_cons_iff.mp others_eq
    cases word with
    | nil => simp [capitalize] at here
    | cons first rest =>
      have word_eq : (capitalize (first :: rest)).find? isNameChar = some a := by
        rw [here, List.find?_append, List.find?_eq_none.mpr fun c member => by simpa using skipped c member,
          Option.none_or, List.find?_cons_of_pos kept]
      rw [find?_capitalize] at word_eq
      cases capital : (upper first).find? isNameChar with
      | none =>
        rw [capital, Option.none_or] at word_eq
        refine absurd ⟨before, first, rest, after, words, fun word known c member => ?_, fun c member => ?_, a,
          List.mem_of_find?_eq_some word_eq, kept⟩ stays
        · simpa using dropped _ (List.mem_map_of_mem known) c member
        · simpa using List.find?_eq_none.mp capital c member
      | some b =>
        rw [capital, Option.some_or, Option.some.injEq] at word_eq
        have notSmall := isLower_of_mem_upper (List.mem_of_find?_eq_some capital)
        rw [word_eq] at notSmall
        simpa [Char.isAlpha, notSmall] using letter

end Characters

theorem isNameChar_componentName (configured : String) :
    ∀ c ∈ (componentName configured).toList, isNameChar c = true := by
  have default : ∀ c ∈ defaultName.toList, isNameChar c = true := List.all_eq_true.mp rfl
  unfold componentName
  split
  · exact default
  · rename_i first rest kept
    split
    · exact default
    · intro c member
      rw [String.toList_ofList, ← kept, List.mem_filter] at member
      exact member.2

private theorem isUsable_defaultName : IsUsable defaultName where
  pascal := ⟨'D', "esignComponent".toList, by decide +kernel, rfl, List.all_eq_true.mp rfl⟩
  free := by decide
  apart := by decide

private theorem reserved_small : ∀ word ∈ reservedWords, word.toList.head?.any Char.isUpper = false := by
  decide

/-- A name of a letter and more is usable unless it begins inside a word, has an underscore or is the imported one. -/
private theorem isUsable_iff {configured : String} {first : Char} {rest : List Char}
    (form : nameCharacters configured = first :: rest) (noDigit : first.isDigit = false) :
    IsUsable (String.ofList (first :: rest)) ↔
      ¬ LosesCapital configured ∧ ¬ KeepsUnderscore configured ∧ nameCharacters configured ≠ "React".toList := by
  have named : ∀ c ∈ first :: rest, isNameChar c = true := by
    rw [← form]
    exact fun c member => (List.mem_filter.mp member).2
  have head : (nameCharacters configured).head? = some first := form ▸ rfl
  have apart : String.ofList (first :: rest) ≠ "React" ↔ nameCharacters configured ≠ "React".toList := by
    rw [form, ne_eq, ne_eq, ← String.toList_inj, String.toList_ofList]
  constructor
  · intro usable
    obtain ⟨a, more, same, capital, letters⟩ := usable.pascal
    rw [String.toList_ofList, List.cons.injEq] at same
    obtain ⟨rfl, rfl⟩ := same
    refine ⟨(isUpper_first head (by simp [Char.isAlpha, capital])).mp capital, fun underscore => ?_,
      apart.mp usable.apart⟩
    rw [← underscore_mem_nameCharacters, form, List.mem_cons] at underscore
    rcases underscore with here | later
    · rw [← here] at capital
      cases capital
    · cases letters _ later
  · rintro ⟨capital, plain, differs⟩
    rw [← underscore_mem_nameCharacters, form] at plain
    have letters : ∀ c ∈ first :: rest, c.isAlphanum = true := by
      intro c member
      have := named c member
      rw [isNameChar, Bool.or_eq_true, beq_iff_eq] at this
      exact this.resolve_right fun underscore => plain (underscore ▸ member)
    rw [List.forall_mem_cons, Char.isAlphanum, Bool.or_eq_true, noDigit] at letters
    have capital := (isUpper_first head (letters.1.resolve_right Bool.false_ne_true)).mpr capital
    refine ⟨⟨first, rest, String.toList_ofList, capital, letters.2⟩, fun reserved => ?_, apart.mpr differs⟩
    have small := reserved_small _ reserved
    rw [String.toList_ofList, List.head?_cons, Option.any_some, capital] at small
    cases small

private theorem componentName_of_taken {configured : String} {first : Char} {rest : List Char}
    (form : nameCharacters configured = first :: rest) (noDigit : first.isDigit = false) :
    componentName configured = String.ofList (first :: rest) := by
  rw [nameCharacters] at form
  simp only [componentName, form, noDigit, Bool.false_eq_true, if_false]

private theorem componentName_of_not_taken {configured : String} (free : ¬ IsTaken configured) :
    componentName configured = defaultName := by
  unfold componentName
  split
  · rfl
  · rename_i first rest form
    cases digit : first.isDigit with
    | true => exact if_pos rfl
    | false => exact absurd ⟨first, by rw [nameCharacters, form]; rfl, digit⟩ free

private theorem exists_form_of_taken {configured : String} (taken : IsTaken configured) :
    ∃ first rest, nameCharacters configured = first :: rest ∧ first.isDigit = false := by
  obtain ⟨first, head, noDigit⟩ := taken
  obtain ⟨rest, form⟩ := List.head?_eq_some_iff.mp head
  exact ⟨first, rest, form, noDigit⟩

theorem isIdentifier_componentName (configured : String) : IsIdentifier (componentName configured) := by
  have letters : ∀ c ∈ (componentName configured).toList, c.isAlphanum = true ∨ c = '_' := by
    intro c member
    have := isNameChar_componentName configured c member
    rwa [isNameChar, Bool.or_eq_true, beq_iff_eq] at this
  by_cases taken : IsTaken configured
  · obtain ⟨first, rest, form, noDigit⟩ := exists_form_of_taken taken
    rw [componentName_of_taken form noDigit, String.toList_ofList] at letters
    rw [componentName_of_taken form noDigit]
    exact ⟨first, rest, String.toList_ofList, noDigit, letters⟩
  · rw [componentName_of_not_taken taken] at letters ⊢
    exact ⟨'D', "esignComponent".toList, by decide +kernel, rfl, letters⟩

/-- The name of a component is an identifier. It is the default name, a usable one, unless the configured name is taken.
Then it is what is left of that one, and it is usable unless it begins inside a word, has an underscore or is the
imported name. -/
theorem componentName_identifier (configured : String) :
    IsIdentifier (componentName configured) ∧
    (¬ IsTaken configured → componentName configured = defaultName ∧ IsUsable (componentName configured)) ∧
    (IsTaken configured → (componentName configured).toList = nameCharacters configured ∧
      (IsUsable (componentName configured) ↔
        ¬ LosesCapital configured ∧ ¬ KeepsUnderscore configured ∧ nameCharacters configured ≠ "React".toList)) := by
  refine ⟨isIdentifier_componentName configured, fun free => ?_, fun taken => ?_⟩
  · rw [componentName_of_not_taken free]
    exact ⟨rfl, isUsable_defaultName⟩
  · obtain ⟨first, rest, form, noDigit⟩ := exists_form_of_taken taken
    rw [componentName_of_taken form noDigit]
    exact ⟨String.toList_ofList.trans form.symm, isUsable_iff form noDigit⟩

/-- A capital that is dropped leaves a reserved word, and nothing keeps a name from being the imported one. -/
theorem not_isUsable_class : ¬ IsUsable (componentName "!class") ∧ ¬ IsUsable (componentName "React") := by
  have reserved : componentName "!class" = "class" := by decide +kernel
  have imported : componentName "React" = "React" := by decide +kernel
  rw [reserved, imported]
  exact ⟨fun usable => usable.free (by decide), fun usable => usable.apart rfl⟩

end Handoff.React
