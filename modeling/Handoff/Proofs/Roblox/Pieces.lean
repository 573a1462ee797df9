import Handoff.Proofs.Roblox.Line

set_option autoImplicit false
set_option relaxedAutoImplicit false

/-!
The code and the literals of a script.

Each statement has texts in the places of literals, and the rest of its line is code. A scan of the whole script finds
just these literals and this code, whatever the texts are.
-/

namespace Handoff.Roblox
open Design
open Text (Piece coded literalsOf codeOf luau)

/-- The pieces that a value is written with. -/
def Value.pieces (units : Units) : Value → List Piece
  | .text s => [.literal s]
  | .font asset weight style =>
    coded "Font.new(" ++ .literal asset ::
      coded (", " ++ enumText "FontWeight" weight ++ ", " ++ enumText "FontStyle" style ++ ")")
  | value => coded (value.expression units)

def Origin.pieces : Origin → List Piece
  | .service name => coded "game:GetService(" ++ .literal name :: coded ")"
  | .member of name => coded (of.name ++ "." ++ name)
  | .child of name => coded (of.name ++ ":WaitForChild(") ++ .literal name :: coded ")"
  | .fresh cls => coded "Instance.new(" ++ .literal cls.name :: coded ")"

def Statement.pieces (units : Units) : Statement → List Piece
  | .declare v origin => coded ("local " ++ v.name ++ " = ") ++ origin.pieces
  | .set v property value => coded (v.name ++ "." ++ property.label ++ " = ") ++ value.pieces units
  | .attach v parent => coded (v.name ++ ".Parent = " ++ parent.name)

/-- The pieces of each line of a chunk. -/
def Chunk.pieces (units : Units) : Chunk → List (List Piece)
  | .statement s => s.lead.map coded ++ [s.pieces units]
  | .block body => [coded "", coded "do"] ++ body.map (fun s => .code '\t' :: s.pieces units) ++ [coded "end"]

/-- The pieces of a script, with the ends of its lines. -/
def scriptPieces (units : Units) (script : List Chunk) : List Piece :=
  (script.flatMap (Chunk.pieces units)).flatMap (· ++ [.code '\n'])

section Code

private def IsCode (cs : List Char) : Prop :=
  luau.Spells cs (cs.map .code)

private theorem IsCode.append {first second : List Char} (here : IsCode first) (there : IsCode second) :
    IsCode (first ++ second) := by
  unfold IsCode
  rw [List.map_append]
  exact Text.Lexis.Spells.append here there

private def isCodeChar (c : Char) : Bool :=
  c ∉ ['"', '\'', '\x60', '-', '[']

private theorem isCode_plain (cs : List Char) (plain : cs.all isCodeChar = true) : IsCode cs := by
  refine .plain fun c member => ?_
  have apart := List.all_eq_true.mp plain c member
  simp only [isCodeChar, List.mem_cons, List.not_mem_nil, or_false, decide_eq_true_eq, not_or] at apart
  obtain ⟨double, single, back, dash, bracket⟩ := apart
  exact ⟨double, fun next => by simp [luau, single, back, dash, bracket]⟩

private theorem isCode_names {cs : List Char} (names : ∀ c ∈ cs, isNameChar c = true) : IsCode cs := by
  have marks : ['"', '\'', '\x60', '-', '['].all (fun c => !isNameChar c) = true := rfl
  refine isCode_plain _ (List.all_eq_true.mpr fun c member => decide_eq_true fun other => ?_)
  exact absurd (List.all_eq_true.mp marks c other) (by simp [names c member])

private theorem isCode_digits {digits : List Char} (all : Numeral.Digits digits) : IsCode digits :=
  isCode_names fun c member => isNameChar_of_isDigit (all.all c member)

private theorem isCode_dash {digits : List Char} (all : Numeral.Digits digits) : IsCode ('-' :: digits) := by
  refine .cons (by decide) (fun after => ?_) (isCode_digits all)
  obtain ⟨d, tail, rfl⟩ := List.exists_cons_of_ne_nil all.some
  have digit : d ≠ '-' := by
    rintro rfl
    exact absurd (all.all '-' List.mem_cons_self) (by decide)
  simp [luau, digit]

private theorem isCode_pixelText (x : Float) : IsCode (pixelText x).toList := by
  rcases pixelText_form x with ⟨n, strict, form⟩ | named
  · rw [form, String.toList_ofList, Numeral.chars]
    refine .append (.append ?whole ?fraction) ?exponent
    case whole =>
      split
      · exact isCode_dash strict.whole
      · exact isCode_digits strict.whole
    case fraction =>
      split
      · exact .nil
      · rename_i digits some
        exact .append (isCode_plain ['.'] rfl) (isCode_digits (strict.fraction digits some))
    case exponent =>
      split
      · exact .nil
      · rename_i below digits some
        have all := strict.exponent below digits some
        refine .append (isCode_plain ['e'] rfl) ?_
        cases below with
        | true => exact isCode_dash all
        | false => exact .append (isCode_plain ['+'] rfl) (isCode_digits all)
  · simp only [valueNames, List.mem_cons, List.not_mem_nil, or_false] at named
    rcases named with form | form | form
    · rw [form]
      exact isCode_plain _ rfl
    · rw [form]
      exact .cons (by decide) (fun _ => rfl) (isCode_plain "inf".toList rfl)
    · rw [form]
      exact isCode_plain _ rfl

theorem spells_literal (s : String) : luau.Spells (literal s).toList [.literal s] := by
  have form : literal s = Text.quoted luau.quote s := rfl
  rw [form]
  exact Text.spells_quoted Text.unquotes_luau s

private theorem spells_around (opening s closing : String) (before : IsCode opening.toList)
    (after : IsCode closing.toList) :
    luau.Spells (opening ++ literal s ++ closing).toList (coded opening ++ .literal s :: coded closing) := by
  rw [String.toList_append, String.toList_append, List.append_cons]
  exact .append (.append before (spells_literal s)) after

end Code

section Spelling

variable (units : Units)

private theorem isCode_append {s t : String} (first : IsCode s.toList) (second : IsCode t.toList) :
    IsCode (s ++ t).toList := by
  rw [String.toList_append]
  exact first.append second

private theorem isCode_word {s : String} (word : IsWord s) : IsCode s.toList :=
  isCode_names word.all

private theorem isCode_enumText {family item : String} (plain : IsWord family ∧ IsWord item) :
    IsCode (enumText family item).toList :=
  isCode_append (isCode_append (isCode_append (isCode_plain "Enum.".toList rfl) (isCode_word plain.1))
    (isCode_plain ".".toList rfl)) (isCode_word plain.2)

-- The expressions are spelled out: the equations of their definition are too costly to derive here.
private theorem spells_value {value : Value} (plain : value.Plain) :
    luau.Spells (value.expression units).toList (value.pieces units) := by
  cases value with
  | text s => exact spells_literal s
  | flag b =>
    cases b with
    | true => exact isCode_plain "true".toList rfl
    | false => exact isCode_plain "false".toList rfl
  | count n => exact isCode_word (isWord_toString n)
  | ratio x => exact isCode_pixelText x
  | length px => exact isCode_pixelText (units px)
  | offset px =>
    change IsCode ("UDim.new(0," ++ lengthText units px ++ ")").toList
    exact isCode_append (isCode_append (isCode_plain _ rfl) (isCode_pixelText (units px))) (isCode_plain _ rfl)
  | offsets x y =>
    change IsCode ("UDim2.new(0," ++ lengthText units x ++ ",0," ++ lengthText units y ++ ")").toList
    have right := isCode_append (isCode_plain "UDim2.new(0,".toList rfl) (isCode_pixelText (units x))
    have down := isCode_append (isCode_append right (isCode_plain ",0,".toList rfl)) (isCode_pixelText (units y))
    exact isCode_append down (isCode_plain _ rfl)
  | half => exact isCode_plain "UDim.new(0.5,0)".toList rfl
  | rgb r g b =>
    change IsCode ("Color3.fromRGB(" ++ toString r.toNat ++ "," ++ toString g.toNat ++ "," ++ toString b.toNat
      ++ ")").toList
    have count (n : Nat) : IsCode (toString n).toList := isCode_word (isWord_toString n)
    have red := isCode_append (isCode_plain "Color3.fromRGB(".toList rfl) (count r.toNat)
    have green := isCode_append (isCode_append red (isCode_plain ",".toList rfl)) (count g.toNat)
    have blue := isCode_append (isCode_append green (isCode_plain ",".toList rfl)) (count b.toNat)
    exact isCode_append blue (isCode_plain _ rfl)
  | choice family item => exact isCode_enumText plain
  | font asset weight style =>
    have heavy := isCode_append (isCode_plain ", ".toList rfl)
      (isCode_enumText ⟨(by decide : IsWord "FontWeight"), plain.1⟩)
    have slanted := isCode_append (isCode_append heavy (isCode_plain ", ".toList rfl))
      (isCode_enumText ⟨(by decide : IsWord "FontStyle"), plain.2⟩)
    have all := spells_around "Font.new(" asset _ (isCode_plain _ rfl)
      (isCode_append slanted (isCode_plain ")".toList rfl))
    have text : (Value.font asset weight style).expression units = "Font.new(" ++ literal asset ++
        (", " ++ enumText "FontWeight" weight ++ ", " ++ enumText "FontStyle" style ++ ")") := by
      change "Font.new(" ++ literal asset ++ ", " ++ enumText "FontWeight" weight ++ ", "
        ++ enumText "FontStyle" style ++ ")" = _
      simp only [String.append_assoc]
    rw [text]
    exact all

private theorem spells_origin {origin : Origin} (plain : origin.Plain) :
    luau.Spells origin.expression.toList origin.pieces := by
  cases origin with
  | service name => exact spells_around "game:GetService(" name ")" (isCode_plain _ rfl) (isCode_plain _ rfl)
  | member of name =>
    exact isCode_append (isCode_append (isCode_word (isWord_variable of)) (isCode_plain _ rfl)) (isCode_word plain)
  | child of name =>
    exact spells_around (of.name ++ ":WaitForChild(") name ")"
      (isCode_append (isCode_word (isWord_variable of)) (isCode_plain _ rfl)) (isCode_plain _ rfl)
  | fresh cls => exact spells_around "Instance.new(" cls.name ")" (isCode_plain _ rfl) (isCode_plain _ rfl)

private theorem spells_line {s : Statement} (plain : s.Plain) :
    luau.Spells (s.line units).toList (s.pieces units) := by
  have name (v : Variable) : IsCode v.name.toList := isCode_word (isWord_variable v)
  cases s with
  | declare v origin =>
    rw [Statement.line, String.toList_append]
    exact .append (isCode_append (isCode_append (isCode_plain _ rfl) (name v)) (isCode_plain _ rfl))
      (spells_origin plain)
  | set v property value =>
    rw [Statement.line, String.toList_append]
    exact .append (isCode_append (isCode_append (isCode_append (name v) (isCode_plain _ rfl))
      (isCode_word (isWord_label property))) (isCode_plain _ rfl)) (spells_value units plain)
  | attach v parent =>
    exact isCode_append (isCode_append (name v) (isCode_plain _ rfl)) (name parent)

private abbrev SpellsLine (line : String) (pieces : List Piece) : Prop :=
  luau.Spells line.toList pieces

private theorem spells_lines {chunk : Chunk} (plain : ∀ s ∈ statements [chunk], s.Plain) :
    List.Forall₂ SpellsLine (chunk.lines units) (chunk.pieces units) := by
  cases chunk with
  | statement s =>
    have line : SpellsLine (s.line units) (s.pieces units) := spells_line units (plain s (by simp [statements]))
    have lead : List.Forall₂ SpellsLine s.lead (s.lead.map coded) := by
      unfold Statement.lead
      split
      · exact .cons .nil .nil
      · exact .nil
    exact List.rel_append lead (.cons line .nil)
  | block body =>
    have opening : List.Forall₂ SpellsLine ["", "do"] [coded "", coded "do"] :=
      .cons .nil (.cons (isCode_plain _ rfl) .nil)
    have closing : List.Forall₂ SpellsLine ["end"] [coded "end"] := .cons (isCode_plain _ rfl) .nil
    have inner : List.Forall₂ SpellsLine (body.map fun s => "\t" ++ s.line units)
        (body.map fun s => .code '\t' :: s.pieces units) := by
      rw [List.forall₂_map_left_iff, List.forall₂_map_right_iff, List.forall₂_same]
      intro s member
      rw [SpellsLine, String.toList_append]
      exact .append (isCode_plain ['\t'] rfl) (spells_line units (plain s (by simpa [statements] using member)))
    exact List.rel_append (List.rel_append opening inner) closing

theorem scan_print {script : List Chunk} (plain : ∀ s ∈ statements script, s.Plain) :
    luau.scan .code (print units script).toList = some (scriptPieces units script) := by
  refine (Text.Lexis.Spells.unlines (isCode_plain _ rfl) ?_).scan_eq
  induction script with
  | nil => exact .nil
  | cons chunk rest ih =>
    rw [← List.singleton_append, statements_append, List.forall_mem_append] at plain
    exact List.rel_append (spells_lines units plain.1) (ih plain.2)

end Spelling

section Texts

def Value.literals : Value → List String
  | .text s => [s]
  | .font asset _ _ => [asset]
  | _ => []

def Origin.literals : Origin → List String
  | .service name | .child _ name => [name]
  | .fresh cls => [cls.name]
  | .member _ _ => []

def Statement.literals : Statement → List String
  | .declare _ origin => origin.literals
  | .set _ _ value => value.literals
  | .attach _ _ => []

private theorem literalsOf_value (units : Units) (value : Value) :
    literalsOf (value.pieces units) = value.literals := by
  cases value <;> simp [Value.pieces, Value.literals]

private theorem literalsOf_statement (units : Units) (s : Statement) : literalsOf (s.pieces units) = s.literals := by
  cases s with
  | declare v origin => cases origin <;> simp [Statement.pieces, Origin.pieces, Statement.literals, Origin.literals]
  | set v property value => simp [Statement.pieces, Statement.literals, literalsOf_value]
  | attach v parent => simp [Statement.pieces, Statement.literals]

private theorem literalsOf_lines (lines : List (List Piece)) :
    literalsOf (lines.flatMap (· ++ [.code '\n'])) = lines.flatMap literalsOf := by
  induction lines with
  | nil => rfl
  | cons line rest ih => simp [ih]

private theorem literalsOf_chunk (units : Units) (chunk : Chunk) :
    (chunk.pieces units).flatMap literalsOf = (statements [chunk]).flatMap Statement.literals := by
  cases chunk with
  | statement s =>
    have lead : (s.lead.map coded).flatMap literalsOf = [] := by simp [List.flatMap_eq_nil_iff]
    simp [Chunk.pieces, statements, lead, literalsOf_statement]
  | block body =>
    have inner : (body.map fun s => .code '\t' :: s.pieces units).flatMap literalsOf =
        body.flatMap Statement.literals := by
      simp [List.flatMap_map, literalsOf_statement]
    simp only [Chunk.pieces, List.flatMap_append, inner]
    simp [statements]

theorem literalsOf_scriptPieces (units : Units) (script : List Chunk) :
    literalsOf (scriptPieces units script) = (statements script).flatMap Statement.literals := by
  rw [scriptPieces, literalsOf_lines]
  induction script with
  | nil => rfl
  | cons chunk rest ih =>
    rw [← List.singleton_append, statements_append, List.flatMap_append, List.flatMap_append, List.flatMap_append, ih,
      List.flatMap_singleton, literalsOf_chunk]

end Texts

section Wordless

/-- A value without the text that it may be. -/
def Value.wordless : Value → Value
  | .text _ => .text ""
  | value => value

def Statement.wordless : Statement → Statement
  | .set v property value => .set v property value.wordless
  | s => s

def Chunk.wordless : Chunk → Chunk
  | .statement s => .statement s.wordless
  | .block body => .block (body.map Statement.wordless)

private theorem codeOf_wordless (units : Units) (s : Statement) :
    codeOf (s.wordless.pieces units) = codeOf (s.pieces units) := by
  cases s with
  | declare | attach => rfl
  | set v property value =>
    rw [Statement.wordless, Statement.pieces, Statement.pieces, Text.codeOf_append, Text.codeOf_append]
    cases value <;> rfl

private theorem codeOf_lines (lines : List (List Piece)) :
    codeOf (lines.flatMap (· ++ [.code '\n'])) = (lines.map codeOf).flatMap (· ++ ['\n']) := by
  induction lines with
  | nil => rfl
  | cons line rest ih =>
    rw [List.flatMap_cons, Text.codeOf_append, Text.codeOf_append, ih]
    rfl

private theorem codeOf_chunk (units : Units) (chunk : Chunk) :
    (chunk.wordless.pieces units).map codeOf = (chunk.pieces units).map codeOf := by
  cases chunk with
  | statement s =>
    have lead : s.wordless.lead = s.lead := by cases s <;> rfl
    simp [Chunk.wordless, Chunk.pieces, lead, codeOf_wordless]
  | block body =>
    have tab (s : Statement) : codeOf (.code '\t' :: s.pieces units) = '\t' :: codeOf (s.pieces units) := rfl
    simp [Chunk.wordless, Chunk.pieces, Function.comp_def, tab, codeOf_wordless]

theorem codeOf_scriptPieces_wordless (units : Units) (script : List Chunk) :
    codeOf (scriptPieces units (script.map Chunk.wordless)) = codeOf (scriptPieces units script) := by
  have same : ((script.map Chunk.wordless).flatMap (Chunk.pieces units)).map codeOf =
      (script.flatMap (Chunk.pieces units)).map codeOf := by
    simp only [List.flatMap_map, List.map_flatMap, codeOf_chunk]
  rw [scriptPieces, scriptPieces, codeOf_lines, codeOf_lines, same]

end Wordless

end Handoff.Roblox
