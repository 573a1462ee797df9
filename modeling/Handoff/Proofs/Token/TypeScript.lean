import Handoff.Proofs.Decimal.Pixel
import Handoff.Proofs.Text.Lines
import Handoff.Proofs.Text.Scan
import Handoff.Proofs.Token.Interchange

set_option autoImplicit false
set_option relaxedAutoImplicit false

/-!
Reading the module of a catalog.

The module is read line by line: a line opens or closes a class, stands for a class without tokens, or has the name and
the value of a token. A value is a JSON string, a decimal number, or an object of a font's parts. Whatever texts names
and values are made of, they are read back, so catalogs that differ in either have different modules.
-/

namespace Handoff.Token
open Design

namespace TypeScript

/-- A JSON string at the head of a text, and what follows it. -/
def readString (cs : List Char) : Option (String × List Char) := do
  let rest ← Text.after? "\"" cs
  let (codes, rest) ← Written.readCodes rest
  let s ← Written.textOf codes
  return (s, rest)

/-- A string after an opening text, when the opening is there. -/
def readPart (opening : String) (cs : List Char) : Option (Option String × List Char) :=
  match Text.after? opening cs with
  | some rest => (readString rest).map fun (s, rest) => (some s, rest)
  | none => some (none, cs)

/-- An object of the parts of a font, the size first. -/
def readFace (cs : List Char) : Option (Typography × List Char) := do
  let rest ← Text.after? "\x7b fontSize: " cs
  let (fontSize, rest) ← readString rest
  let (fontFamily, rest) ← readPart ", fontFamily: " rest
  let (fontWeight, rest) ← readPart ", fontWeight: " rest
  let rest ← Text.after? " \x7d" rest
  return ({ fontSize, fontFamily, fontWeight }, rest)

/-- A decimal number at the head of a text, as the binary number that it stands for. -/
def readNumeral (cs : List Char) : Option (Float × List Char) :=
  (Numeral.read cs).map fun (n, rest) => (n.toFloat, rest)

/-- A value at the head of a text: a number, a string or an object. -/
def readValue (cs : List Char) : Option (Value × List Char) :=
  match readNumeral cs, readString cs with
  | some (x, rest), _ => some (.number x, rest)
  | none, some (s, rest) => some (.text s, rest)
  | none, none => (readFace cs).map fun (t, rest) => (.typography t, rest)

/-- The line of a token: its name and its value. -/
def readToken (line : String) : Option (String × Value) := do
  let rest ← Text.after? "    " line.toList
  let (name, rest) ← readString rest
  let rest ← Text.after? ": " rest
  let (value, rest) ← readValue rest
  if rest = [','] then return (name, value) else none

/-- The lines of tokens up to the end of their class, and the lines after it. -/
def readTokens : List String → Option (Entries Value × List String)
  | [] => none
  | line :: rest =>
    if line = "  \x7d," then some ([], rest)
    else do
      let token ← readToken line
      let (tokens, rest) ← readTokens rest
      return (token :: tokens, rest)

def readClass (key : String) : List String → Option (Entries Value × List String)
  | [] => none
  | line :: rest =>
    if line = "  " ++ key ++ ": \x7b\x7d," then some ([], rest)
    else if line = "  " ++ key ++ ": \x7b" then readTokens rest
    else none

def readClasses : List TokenClass → List String → Option (List (TokenClass × Entries Value) × List String)
  | [], rest => some ([], rest)
  | c :: classes, lines => do
    let (tokens, rest) ← readClass c.key lines
    let (others, rest) ← readClasses classes rest
    return ((c, tokens) :: others, rest)

def header : String :=
  "export const tokens = \x7b"

/-- The lines after the last class, with the empty one after the last line end. -/
def footer : List String :=
  ["\x7d as const;", "", "export type Tokens = typeof tokens;", ""]

/-- The names and values of the classes of a module. -/
def readModule (text : String) : Option (List (TokenClass × Entries Value)) :=
  match Text.lines text with
  | [] => none
  | line :: rest =>
    if line = header then
      match readClasses TokenClass.all rest with
      | some (classes, rest) => if rest = footer then some classes else none
      | none => none
    else none

end TypeScript

open TypeScript

/-- The names and values of a class. -/
def Catalog.values (catalog : Catalog) (c : TokenClass) : Entries Value :=
  (catalog.get c).map fun entry => (entry.1, entry.2.value)

section Values

private theorem toList_quote (s : String) (rest : List Char) :
    (Json.quote s).toList ++ rest =
      "\"".toList ++ ((Written.codesOf s).flatMap Written.codeChars ++ '"' :: rest) := by
  have chars : (Json.quote s).toList = Written.textChars (Written.codesOf s) := by
    rw [Json.quote, Json.compact, Json.print, String.toList_ofList, Json.written, Written.chars]
  rw [chars, Written.textChars, List.append_assoc]
  rfl

private theorem readString_quote (s : String) (rest : List Char) :
    readString ((Json.quote s).toList ++ rest) = some (s, rest) := by
  rw [readString, toList_quote, Text.after?_append]
  simp only [Option.bind_eq_bind, Option.bind_some, Written.readCodes_codesOf, Written.textOf_codesOf]
  rfl

private theorem toList_plainText {x : Float} (finite : x.isFinite = true) :
    ∃ n, Layout.plain.numeral x = some n ∧ (plainText x).toList = n.chars := by
  obtain ⟨n, form⟩ := Layout.plain.numeral_of_isFinite finite
  exact ⟨n, form, by rw [plainText, form, String.toList_ofList]⟩

private theorem readNumeral_plainText {x : Float} (finite : x.isFinite = true) {rest : List Char}
    (stop : Numeral.Stops rest) : readNumeral ((plainText x).toList ++ rest) = some (x, rest) := by
  obtain ⟨n, form, text⟩ := toList_plainText finite
  rw [readNumeral, text, Numeral.read_chars (Layout.strict_numeral form) stop, ← Layout.toFloat_numeral form]
  rfl

/-- The text of a part of a font, when it is there. -/
private def partChars (opening : String) : Option String → List Char
  | none => []
  | some s => opening.toList ++ (Json.quote s).toList

private theorem readPart_partChars {opening : String} (part : Option String) {rest : List Char}
    (other : Text.after? opening rest = none) :
    readPart opening (partChars opening part ++ rest) = some (part, rest) := by
  cases part with
  | none => rw [partChars, List.nil_append, readPart, other]
  | some s =>
    rw [partChars, List.append_assoc, readPart, Text.after?_append]
    simp only [readString_quote, Option.map_some]

private theorem toList_face (t : Typography) (rest : List Char) :
    (Value.typography t).expression.toList ++ rest =
      "\x7b fontSize: ".toList ++ ((Json.quote t.fontSize).toList ++ (partChars ", fontFamily: " t.fontFamily
        ++ (partChars ", fontWeight: " t.fontWeight ++ (" \x7d".toList ++ rest)))) := by
  obtain ⟨size, family, weight⟩ := t
  cases family <;> cases weight <;>
    simp [Value.expression, partField, partChars, String.toList_append]

private theorem readFace_expression (t : Typography) (rest : List Char) :
    readFace ((Value.typography t).expression.toList ++ rest) = some (t, rest) := by
  have family : Text.after? ", fontFamily: "
      (partChars ", fontWeight: " t.fontWeight ++ (" \x7d".toList ++ rest)) = none := by
    cases t.fontWeight <;> rfl
  have weight : Text.after? ", fontWeight: " (" \x7d".toList ++ rest) = none := rfl
  rw [readFace, toList_face, Text.after?_append]
  simp only [Option.bind_eq_bind, Option.bind_some, readString_quote, readPart_partChars _ family,
    readPart_partChars _ weight, Text.after?_append]
  rfl

private theorem readValue_expression {value : Value} (finite : ∀ x, value = .number x → x.isFinite = true)
    {rest : List Char} (stop : Numeral.Stops rest) :
    readValue (value.expression.toList ++ rest) = some (value, rest) := by
  cases value with
  | number x =>
    rw [readValue, Value.expression, readNumeral_plainText (finite x rfl) stop]
  | text s =>
    have none : readNumeral ((Json.quote s).toList ++ rest) = none := by
      rw [toList_quote]
      rfl
    rw [readValue, Value.expression, none, readString_quote]
  | typography t =>
    have number : readNumeral ((Value.typography t).expression.toList ++ rest) = none := by
      rw [toList_face]
      rfl
    have string : readString ((Value.typography t).expression.toList ++ rest) = none := by
      rw [toList_face]
      rfl
    rw [readValue, number, string, readFace_expression]
    rfl

end Values

section Characters

private def isClear (c : Char) : Bool :=
  Nat.ble 0x20 c.toNat

private def Clear (s : String) : Prop :=
  s.toList.all isClear = true

private instance (s : String) : Decidable (Clear s) :=
  instDecidableEqBool _ _

@[simp]
private theorem clear_append {s t : String} : Clear (s ++ t) ↔ Clear s ∧ Clear t := by
  simp only [Clear, String.toList_append, List.all_append, Bool.and_eq_true]

private theorem clear_codeChars (c : Char) : (Written.codeChars c.toNat).all isClear = true := by
  by_cases control : c.toNat < 0x20
  · have small : ∀ code : Fin 0x20, (Written.codeChars code).all isClear = true := by decide
    exact small ⟨c.toNat, control⟩
  · have own : ([Char.ofNat c.toNat]).all isClear = true := by
      rw [Char.ofNat_toNat, List.all_cons, isClear, Nat.ble_eq_true_of_le (Nat.not_lt.mp control)]
      rfl
    unfold Written.codeChars
    rw [if_neg (show ¬(c.toNat < 0x20 ∨ _ ∨ _) by simp [control, Written.not_half c])]
    repeat' split
    all_goals first | rfl | exact own

private theorem clear_quote (s : String) : Clear (Json.quote s) := by
  have chars : (Json.quote s).toList = '"' :: (Written.codesOf s).flatMap Written.codeChars ++ ['"'] := by
    have form := toList_quote s []
    rwa [List.append_nil] at form
  have inner : ((Written.codesOf s).flatMap Written.codeChars).all isClear = true := by
    rw [List.all_flatMap, List.all_eq_true]
    intro code member
    obtain ⟨c, -, rfl⟩ := List.mem_map.mp member
    exact clear_codeChars c
  rw [Clear, chars, List.all_append, List.all_cons, inner]
  rfl

private theorem clear_plainText {x : Float} (finite : x.isFinite = true) : Clear (plainText x) := by
  obtain ⟨n, form, text⟩ := toList_plainText finite
  rw [Clear, text, List.all_eq_true]
  intro c member
  have mark := Numeral.isMark_of_mem_chars (Layout.strict_numeral form) c member
  simp only [Numeral.isMark, Bool.or_eq_true, beq_iff_eq] at mark
  rcases mark with (((digit | rfl) | rfl) | rfl) | rfl
  · exact Nat.ble_eq.mpr ((by decide : 0x20 ≤ '0'.toNat).trans (Char.isDigit_iff_toNat.mp digit).1)
  all_goals decide

private theorem clear_expression {value : Value} (finite : ∀ x, value = .number x → x.isFinite = true) :
    Clear value.expression := by
  cases value with
  | number x => exact clear_plainText (finite x rfl)
  | text s => exact clear_quote s
  | typography t =>
    have part (opening : String) (clear : Clear opening) (s : Option String) :
        (partChars opening s).all isClear = true := by
      cases s with
      | none => rfl
      | some s => exact List.all_append.trans (Bool.and_eq_true_iff.mpr ⟨clear, clear_quote s⟩)
    have form := toList_face t []
    rw [List.append_nil] at form
    rw [Clear, form]
    simp only [List.all_append, Bool.and_eq_true, part _ (by decide : Clear ", fontFamily: "),
      part _ (by decide : Clear ", fontWeight: ")]
    exact ⟨by decide, clear_quote t.fontSize, trivial, trivial, by decide⟩

end Characters

section Lines

def tokenLine (entry : String × Value) : String :=
  "    " ++ Json.quote entry.1 ++ ": " ++ entry.2.expression ++ ","

/-- The lines of a class by the names and values of its tokens. -/
private def valueLines (key : String) (entries : Entries Value) : List String :=
  if entries = [] then ["  " ++ key ++ ": \x7b\x7d,"]
  else ("  " ++ key ++ ": \x7b") :: entries.map tokenLine ++ ["  \x7d,"]

private theorem classLines_eq (key : String) (tokens : Entries DesignToken) :
    classLines key tokens = valueLines key (tokens.map fun entry => (entry.1, entry.2.value)) := by
  cases tokens with
  | nil => rfl
  | cons entry rest =>
    rw [valueLines, if_neg (by simp), List.map_map]
    rfl

private abbrev FiniteEntries (entries : Entries Value) : Prop :=
  ∀ entry ∈ entries, ∀ x, entry.2 = .number x → x.isFinite = true

private theorem readToken_tokenLine {entry : String × Value} (finite : ∀ x, entry.2 = .number x → x.isFinite = true) :
    readToken (tokenLine entry) = some entry := by
  have chars : (tokenLine entry).toList = "    ".toList ++ ((Json.quote entry.1).toList ++ (": ".toList
      ++ (entry.2.expression.toList ++ [',']))) := by
    simp [tokenLine, String.toList_append]
  have stop : Numeral.Stops [','] := by
    rintro c first
    obtain rfl := Option.some.inj first
    decide
  rw [readToken, chars, Text.after?_append]
  simp only [Option.bind_eq_bind, Option.bind_some, readString_quote, Text.after?_append,
    readValue_expression finite stop, if_true]
  rfl

private theorem tokenLine_ne_end (entry : String × Value) : tokenLine entry ≠ "  \x7d," := by
  intro same
  have third := congrArg (fun s : String => s.toList[2]?) same
  simp [tokenLine, String.toList_append] at third

private theorem readTokens_lines {entries : Entries Value} (finite : FiniteEntries entries) (rest : List String) :
    readTokens (entries.map tokenLine ++ "  \x7d," :: rest) = some (entries, rest) := by
  induction entries with
  | nil => rw [List.map_nil, List.nil_append, readTokens, if_pos rfl]
  | cons entry others ih =>
    obtain ⟨first, later⟩ := List.forall_mem_cons.mp finite
    rw [List.map_cons, List.cons_append, readTokens, if_neg (tokenLine_ne_end entry), readToken_tokenLine first,
      ih later]
    rfl

private theorem opening_ne (key : String) : "  " ++ key ++ ": \x7b" ≠ "  " ++ key ++ ": \x7b\x7d," := by
  intro same
  have length := congrArg String.length same
  simp only [String.length_append, Nat.add_left_cancel_iff] at length
  exact absurd length (by decide)

private theorem readClass_lines (key : String) {entries : Entries Value} (finite : FiniteEntries entries)
    (rest : List String) : readClass key (valueLines key entries ++ rest) = some (entries, rest) := by
  rw [valueLines]
  split
  · rename_i none
    rw [List.singleton_append, readClass, if_pos rfl, none]
  · rw [List.cons_append, List.cons_append, readClass, if_neg (opening_ne key), if_pos rfl, List.append_assoc,
      List.singleton_append, readTokens_lines finite]

private theorem clear_valueLines (c : TokenClass) {entries : Entries Value} (finite : FiniteEntries entries) :
    ∀ line ∈ valueLines c.key entries, Clear line := by
  have key : Clear c.key := by
    cases c <;> decide
  have inner : ∀ line ∈ entries.map tokenLine, Clear line := by
    intro line member
    obtain ⟨entry, held, rfl⟩ := List.mem_map.mp member
    simp only [tokenLine, clear_append, clear_quote, clear_expression (finite entry held), and_true]
    decide
  have opening (last : String) (clear : Clear last) : Clear ("  " ++ c.key ++ last) := by
    simp only [clear_append, key, clear, and_true]
    decide
  rw [valueLines]
  split
  · exact List.forall_mem_singleton.mpr (opening _ (by decide))
  · exact List.forall_mem_append.mpr
      ⟨List.forall_mem_cons.mpr ⟨opening _ (by decide), inner⟩, List.forall_mem_singleton.mpr (by decide)⟩

end Lines

section Modules

variable {catalog : Catalog}

private theorem Catalog.WellFormed.finite_values (form : catalog.WellFormed) (c : TokenClass) :
    FiniteEntries (catalog.values c) := by
  intro entry member
  obtain ⟨told, held, rfl⟩ := List.mem_map.mp member
  exact form.finite c told held

private theorem moduleLines_eq (catalog : Catalog) :
    catalog.moduleLines = header :: TokenClass.all.flatMap (fun c => valueLines c.key (catalog.values c))
      ++ ["\x7d as const;", "", "export type Tokens = typeof tokens;"] := by
  simp only [Catalog.moduleLines, classLines_eq]
  rfl

private theorem readClasses_lines (form : catalog.WellFormed) (classes : List TokenClass) (rest : List String) :
    readClasses classes (classes.flatMap (fun c => valueLines c.key (catalog.values c)) ++ rest) =
      some (classes.map fun c => (c, catalog.values c), rest) := by
  induction classes with
  | nil => rfl
  | cons c others ih =>
    rw [List.flatMap_cons, List.append_assoc, readClasses, readClass_lines c.key (form.finite_values c)]
    simp only [Option.bind_eq_bind, Option.bind_some, ih]
    rfl

private theorem clear_moduleLines (form : catalog.WellFormed) : ∀ line ∈ catalog.moduleLines, Clear line := by
  have inner : ∀ line ∈ TokenClass.all.flatMap (fun c => valueLines c.key (catalog.values c)), Clear line := by
    intro line member
    obtain ⟨c, -, held⟩ := List.mem_flatMap.mp member
    exact clear_valueLines c (form.finite_values c) line held
  have opening : Clear header := by decide
  have closing : ∀ line ∈ ["\x7d as const;", "", "export type Tokens = typeof tokens;"], Clear line := by decide
  rw [moduleLines_eq]
  exact List.forall_mem_append.mpr ⟨List.forall_mem_cons.mpr ⟨opening, inner⟩, closing⟩

/-- The lines of a catalog's module are those that it was put together of, with an empty one after the last line end. -/
private theorem lines_typeScript (form : catalog.WellFormed) :
    Text.lines catalog.typeScript = catalog.moduleLines ++ [""] := by
  rw [Catalog.typeScript, Text.lines_unlines]
  intro line member ends
  exact absurd (List.all_eq_true.mp (clear_moduleLines form line member) _ ends) (by decide)

private theorem lines_classes (form : catalog.WellFormed) :
    Text.lines catalog.typeScript =
      header :: (TokenClass.all.flatMap (fun c => valueLines c.key (catalog.values c)) ++ footer) := by
  rw [lines_typeScript form, moduleLines_eq, List.cons_append, List.cons_append, List.append_assoc]
  rfl

/-- A well-formed catalog's module is read as the names and values of its tokens. -/
theorem readModule_typeScript (form : catalog.WellFormed) :
    readModule catalog.typeScript = some (TokenClass.all.map fun c => (c, catalog.values c)) := by
  rw [readModule, lines_classes form]
  simp only [if_true, readClasses_lines form]

/-- The module of a design's catalog can be read back. Line by line it is the header; for each class one line if it has
no tokens, or else a line that opens it, one for each token, and one that closes it; and the footer. No line has control
characters, so none is split by what names and values are made of. The line of each token is read as its name and its
value, in the order of the catalog, and the whole module as the names and values of all classes; so only catalogs with
the same ones have the same module. -/
theorem typeScript_extract (options : Options) (tree : Tree) :
    (∃ rows : TokenClass → List String,
      Text.lines (extract options tree).typeScript =
        header :: (TokenClass.all.flatMap (fun c =>
          if (extract options tree).values c = [] then ["  " ++ c.key ++ ": \x7b\x7d,"]
          else ("  " ++ c.key ++ ": \x7b") :: rows c ++ ["  \x7d,"]) ++ footer) ∧
      ∀ c, List.Forall₂ (fun row entry => readToken row = some entry) (rows c) ((extract options tree).values c)) ∧
    (∀ line ∈ Text.lines (extract options tree).typeScript, ∀ char ∈ line.toList, 0x20 ≤ char.toNat) ∧
    readModule (extract options tree).typeScript =
      some (TokenClass.all.map fun c => (c, (extract options tree).values c)) ∧
    ∀ (others : Options) (design : Tree),
      (extract options tree).typeScript = (extract others design).typeScript ↔
        ∀ c, (extract options tree).values c = (extract others design).values c := by
  have form := wellFormed_extract options tree
  refine ⟨⟨fun c => ((extract options tree).values c).map tokenLine, lines_classes form, fun c => ?_⟩, ?_,
    readModule_typeScript form, fun others design => ⟨fun same c => ?_, fun same => ?_⟩⟩
  · rw [List.forall₂_map_left_iff, List.forall₂_same]
    exact fun entry member => readToken_tokenLine (form.finite_values c entry member)
  · rw [lines_typeScript form]
    have last : ∀ line ∈ [""], Clear line := by decide
    have clear := List.forall_mem_append.mpr ⟨clear_moduleLines form, last⟩
    exact fun line member char held => Nat.le_of_ble_eq_true (List.all_eq_true.mp (clear line member) char held)
  · have read := readModule_typeScript form
    rw [same, readModule_typeScript (wellFormed_extract others design), Option.some.injEq] at read
    exact (congrArg Prod.snd (List.map_inj_left.mp read c c.mem_all)).symm
  · simp only [Catalog.typeScript, moduleLines_eq, same]

end Modules

end Handoff.Token
