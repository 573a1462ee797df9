import Handoff.Proofs.Roblox.Settings
import Handoff.Proofs.Roblox.Statements
import Handoff.Proofs.Text.Lines
import Handoff.Proofs.Text.Literals
import Handoff.Proofs.Text.Scan

set_option autoImplicit false
set_option relaxedAutoImplicit false

/-!
Reading the lines of a script.

A line opens or closes a block, declares a local, or assigns to a property of one; the last two use names in their
expressions. The lines of a printed script are read back as what its statements do, since no value that a widget sets
has a line end in its text.
-/

namespace Handoff.Roblox
open Design

/-- What a line of a script does, as far as scopes go. -/
inductive Line where
  | blank
  | opening
  | closing
  | declare (name : String) (used : List String)
  | assign (name : String) (used : List String)
  deriving DecidableEq, Repr

namespace Line

/-- The name at the head of a text, and what follows it. -/
def takeName (cs : List Char) : String × List Char :=
  Text.takeRun isNameChar cs

def readDeclaration (cs : List Char) : Option Line := do
  let (name, rest) := takeName cs
  let value ← Text.after? " = " rest
  return .declare name (uses (String.ofList value))

def readAssignment (cs : List Char) : Option Line := do
  let (name, rest) := takeName cs
  let rest ← Text.after? "." rest
  let (_, rest) := takeName rest
  let value ← Text.after? " = " rest
  return .assign name (uses (String.ofList value))

/-- What a line does; `none` for one that is none of these. -/
def read? (line : String) : Option Line :=
  let cs := line.toList.dropWhile (· == '\t')
  if cs = [] then some .blank
  else if cs = "do".toList then some .opening
  else if cs = "end".toList then some .closing
  else
    match Text.after? "local " cs with
    | some rest => readDeclaration rest
    | none => readAssignment cs

def readAll? : List String → Option (List Line)
  | [] => some []
  | line :: rest =>
    match read? line, readAll? rest with
    | some first, some others => some (first :: others)
    | _, _ => none

end Line

section Reading

def Statement.effect (units : Units) : Statement → Line
  | .declare v origin => .declare v.name (uses origin.expression)
  | .set v _ value => .assign v.name (uses (value.expression units))
  | .attach v parent => .assign v.name (uses parent.name)

def Chunk.effects (units : Units) : Chunk → List Line
  | .statement s => s.lead.map (fun _ => .blank) ++ [s.effect units]
  | .block body => [.blank, .opening] ++ body.map (Statement.effect units) ++ [.closing]

private theorem readAll?_of_forall₂ {lines : List String} {effects : List Line}
    (all : List.Forall₂ (fun line effect => Line.read? line = some effect) lines effects) :
    Line.readAll? lines = some effects := by
  induction all with
  | nil => rfl
  | cons first _ ih => rw [Line.readAll?, first, ih]

theorem Line.takeName_append {name : String} (word : IsWord name) {c : Char}
    (stop : isNameChar c = false) (rest : List Char) :
    Line.takeName (name.toList ++ c :: rest) = (name, c :: rest) := by
  rw [Line.takeName, Text.takeRun_append word.all (by simpa using stop), String.ofList_toList]

private theorem read?_tab (line : String) : Line.read? ("\t" ++ line) = Line.read? line := by
  have same : ("\t" ++ line).toList.dropWhile (· == '\t') = line.toList.dropWhile (· == '\t') := by
    rw [String.toList_append]
    rfl
  simp only [Line.read?, same]

private theorem read?_declaration (v : Variable) (expression : String) :
    Line.read? ("local " ++ v.name ++ " = " ++ expression) =
      some (.declare v.name (uses expression)) := by
  have chars : ("local " ++ v.name ++ " = " ++ expression).toList =
      "local ".toList ++ (v.name.toList ++ ' ' :: ("= ".toList ++ expression.toList)) := by
    simp [String.toList_append]
  have text : ("local ".toList ++ (v.name.toList ++ ' ' :: ("= ".toList ++ expression.toList))).dropWhile (· == '\t') =
      "local ".toList ++ (v.name.toList ++ ' ' :: ("= ".toList ++ expression.toList)) := rfl
  simp only [Line.read?, chars, text]
  rw [if_neg (by simp), if_neg (by simp), if_neg (by simp), Text.after?_append]
  simp only [Line.readDeclaration, Line.takeName_append (isWord_variable v) (show isNameChar ' ' = false by decide)]
  rw [show ' ' :: ("= ".toList ++ expression.toList) = " = ".toList ++ expression.toList from rfl, Text.after?_append]
  simp [String.ofList_toList]

private theorem read?_assignment (v : Variable) {property : String}
    (named : IsWord property) (value : String) :
    Line.read? (v.name ++ "." ++ property ++ " = " ++ value) = some (.assign v.name (uses value)) := by
  have chars : (v.name ++ "." ++ property ++ " = " ++ value).toList =
      v.name.toList ++ '.' :: (property.toList ++ ' ' :: ("= ".toList ++ value.toList)) := by
    simp [String.toList_append]
  obtain ⟨c, cs, form, -, tab, d, e, l⟩ := head_variable v
  have text : (v.name.toList ++ '.' :: (property.toList ++ ' ' :: ("= ".toList ++ value.toList))).dropWhile
      (· == '\t') = v.name.toList ++ '.' :: (property.toList ++ ' ' :: ("= ".toList ++ value.toList)) := by
    rw [form, List.cons_append, List.dropWhile_cons, if_neg (by simp [tab])]
  have plain (rest : List Char) : Text.after? "local " (v.name.toList ++ rest) = none := by
    rw [Text.after?, if_neg]
    simp [form, Ne.symm l]
  simp only [Line.read?, chars, text, plain]
  rw [if_neg (by simp), if_neg (by simp [form, d]), if_neg (by simp [form, e])]
  simp only [Line.readAssignment, Line.takeName_append (isWord_variable v) (show isNameChar '.' = false by decide)]
  rw [show '.' :: (property.toList ++ ' ' :: ("= ".toList ++ value.toList)) =
    ".".toList ++ (property.toList ++ ' ' :: ("= ".toList ++ value.toList)) from rfl, Text.after?_append]
  simp only [Option.bind_eq_bind, Option.bind_some, Line.takeName_append named (show isNameChar ' ' = false by decide)]
  rw [show ' ' :: ("= ".toList ++ value.toList) = " = ".toList ++ value.toList from rfl, Text.after?_append]
  simp [String.ofList_toList]

private theorem read?_line (units : Units) (s : Statement) : Line.read? (s.line units) = some (s.effect units) := by
  cases s with
  | declare v origin => exact read?_declaration v origin.expression
  | set v property value => exact read?_assignment v (isWord_label property) (value.expression units)
  | attach v parent =>
    have line : v.name ++ ".Parent = " ++ parent.name = v.name ++ "." ++ "Parent" ++ " = " ++ parent.name := by
      simp [String.append_assoc]
    rw [Statement.line, line]
    exact read?_assignment v (by decide) parent.name

private abbrev Reads (line : String) (effect : Line) : Prop :=
  Line.read? line = some effect

private theorem read?_lines (units : Units) (chunk : Chunk) :
    List.Forall₂ Reads (chunk.lines units) (chunk.effects units) := by
  cases chunk with
  | statement s =>
    have line : List.Forall₂ Reads [s.line units] [s.effect units] := .cons (read?_line units s) .nil
    have lead : List.Forall₂ Reads s.lead (s.lead.map fun _ => .blank) := by
      unfold Statement.lead
      split
      · exact .cons rfl .nil
      · exact .nil
    exact List.rel_append lead line
  | block body =>
    have opening : List.Forall₂ Reads ["", "do"] [.blank, .opening] := .cons rfl (.cons rfl .nil)
    have closing : List.Forall₂ Reads ["end"] [.closing] := .cons rfl .nil
    have inner : List.Forall₂ Reads (body.map fun s => "\t" ++ s.line units) (body.map (Statement.effect units)) := by
      rw [List.forall₂_map_left_iff, List.forall₂_map_right_iff, List.forall₂_same]
      exact fun s _ => (read?_tab _).trans (read?_line units s)
    exact List.rel_append (List.rel_append opening inner) closing

private theorem read?_script (units : Units) (script : List Chunk) :
    List.Forall₂ Reads (script.flatMap (Chunk.lines units)) (script.flatMap (Chunk.effects units)) := by
  induction script with
  | nil => exact .nil
  | cons chunk rest ih => exact List.rel_append (read?_lines units chunk) ih

end Reading

section OneLine

/-- A text on one line, whichever of the two ends lines. -/
def OneLine (s : String) : Prop :=
  '\n' ∉ s.toList ∧ '\r' ∉ s.toList

instance (s : String) : Decidable (OneLine s) :=
  instDecidableAnd

@[simp]
private theorem oneLine_append {s t : String} : OneLine (s ++ t) ↔ OneLine s ∧ OneLine t := by
  simp only [OneLine, String.toList_append, List.mem_append, not_or]
  exact and_and_and_comm

private theorem oneLine_of_all {s : String} {p : Char → Prop} (all : ∀ c ∈ s.toList, p c)
    (ends : ¬ p '\n' ∧ ¬ p '\r') : OneLine s :=
  ⟨fun member => ends.1 (all _ member), fun member => ends.2 (all _ member)⟩

private theorem oneLine_word {s : String} (word : IsWord s) : OneLine s :=
  oneLine_of_all word.all (by decide)

private theorem oneLine_literal (s : String) : OneLine (literal s) :=
  Text.oneLine_quoted (by decide) (by decide) s

private theorem oneLine_number (x : Float) : OneLine (pixelText x) :=
  oneLine_of_all (fun _ member => mem_pixelText member) (by decide)

private theorem oneLine_count (n : Nat) : OneLine (toString n) :=
  oneLine_word (isWord_toString n)

private theorem oneLine_length (units : Units) (px : Float) : OneLine (lengthText units px) :=
  oneLine_number (units px)

private theorem oneLine_enumText {family item : String} (plain : IsWord family ∧ IsWord item) :
    OneLine (enumText family item) := by
  simp only [enumText, oneLine_append, oneLine_word plain.1, oneLine_word plain.2, and_true]
  decide

-- The expressions are spelled out: the equations of their definition are too costly to derive here.
private theorem oneLine_expression (units : Units) {value : Value} (plain : value.Plain) :
    OneLine (value.expression units) := by
  cases value with
  | text s => exact oneLine_literal s
  | flag b =>
    cases b with
    | true => exact (by decide : OneLine "true")
    | false => exact (by decide : OneLine "false")
  | count n => exact oneLine_count n
  | ratio x => exact oneLine_number x
  | length px => exact oneLine_length units px
  | offset px =>
    change OneLine ("UDim.new(0," ++ lengthText units px ++ ")")
    simp only [oneLine_append, oneLine_length, and_true]
    decide
  | offsets x y =>
    change OneLine ("UDim2.new(0," ++ lengthText units x ++ ",0," ++ lengthText units y ++ ")")
    simp only [oneLine_append, oneLine_length, and_true]
    decide
  | half => exact (by decide : OneLine "UDim.new(0.5,0)")
  | rgb r g b =>
    change OneLine ("Color3.fromRGB(" ++ toString r.toNat ++ "," ++ toString g.toNat ++ ","
      ++ toString b.toNat ++ ")")
    simp only [oneLine_append, oneLine_count, and_true]
    decide
  | choice family item => exact oneLine_enumText plain
  | font asset weight style =>
    change OneLine ("Font.new(" ++ literal asset ++ ", " ++ enumText "FontWeight" weight ++ ", "
      ++ enumText "FontStyle" style ++ ")")
    simp only [oneLine_append, oneLine_literal, oneLine_enumText ⟨(by decide : IsWord "FontWeight"), plain.1⟩,
      oneLine_enumText ⟨(by decide : IsWord "FontStyle"), plain.2⟩, and_true]
    decide

private theorem oneLine_name (v : Variable) : OneLine v.name :=
  oneLine_word (isWord_variable v)

private theorem oneLine_label (p : Property) : OneLine p.label :=
  oneLine_word (isWord_label p)

private theorem oneLine_origin {origin : Origin} (plain : origin.Plain) : OneLine origin.expression := by
  cases origin with
  | service name =>
    change OneLine ("game:GetService(" ++ literal name ++ ")")
    simp only [oneLine_append, oneLine_literal, and_true]
    decide
  | member of name =>
    exact oneLine_append.mpr ⟨oneLine_append.mpr ⟨oneLine_name of, by decide⟩, oneLine_word plain⟩
  | child of name =>
    change OneLine (of.name ++ ":WaitForChild(" ++ literal name ++ ")")
    simp only [oneLine_append, oneLine_name, oneLine_literal, and_true, true_and]
    decide
  | fresh cls =>
    change OneLine ("Instance.new(" ++ literal cls.name ++ ")")
    simp only [oneLine_append, oneLine_literal, and_true]
    decide

private theorem oneLine_line (units : Units) {s : Statement} (plain : s.Plain) : OneLine (s.line units) := by
  cases s with
  | declare v origin =>
    simp only [Statement.line, oneLine_append, oneLine_name, oneLine_origin plain, and_true]
    decide
  | set v property value =>
    simp only [Statement.line, oneLine_append, oneLine_name, oneLine_label, oneLine_expression units plain, and_true,
      true_and]
    decide
  | attach v parent =>
    simp only [Statement.line, oneLine_append, oneLine_name, and_true, true_and]
    decide

private theorem oneLine_lines (units : Units) {chunk : Chunk} (plain : ∀ s ∈ statements [chunk], s.Plain) :
    ∀ line ∈ chunk.lines units, OneLine line := by
  cases chunk with
  | statement s =>
    have lead : ∀ line ∈ s.lead, OneLine line := by
      unfold Statement.lead
      split
      · decide
      · simp
    have line : OneLine (s.line units) := oneLine_line units (plain s (by simp [statements]))
    exact List.forall_mem_append.mpr ⟨lead, List.forall_mem_singleton.mpr line⟩
  | block body =>
    have inner : ∀ line ∈ body.map (fun s => "\t" ++ s.line units), OneLine line := by
      intro line member
      obtain ⟨s, held, rfl⟩ := List.mem_map.mp member
      exact oneLine_append.mpr ⟨by decide, oneLine_line units (plain s (by simpa [statements] using held))⟩
    exact List.forall_mem_append.mpr ⟨List.forall_mem_append.mpr ⟨by decide, inner⟩, by decide⟩

theorem oneLine_script (units : Units) {script : List Chunk} (plain : ∀ s ∈ statements script, s.Plain) :
    ∀ line ∈ script.flatMap (Chunk.lines units), OneLine line := by
  intro line member
  obtain ⟨chunk, held, member⟩ := List.mem_flatMap.mp member
  refine oneLine_lines units (fun s inner => plain s ?_) line member
  exact List.mem_flatMap.mpr ⟨chunk, held, by simpa [statements] using inner⟩

/-- The lines of a script are those of its chunks, with an empty one after the last line end. -/
theorem lines_print (units : Units) {script : List Chunk} (plain : ∀ s ∈ statements script, s.Plain) :
    Text.lines (print units script) = script.flatMap (Chunk.lines units) ++ [""] :=
  Text.lines_unlines fun line member => (oneLine_script units plain line member).1

theorem readAll?_print (units : Units) {script : List Chunk} (plain : ∀ s ∈ statements script, s.Plain) :
    Line.readAll? (Text.lines (print units script)) =
      some (script.flatMap (Chunk.effects units) ++ [.blank]) := by
  rw [lines_print units plain]
  exact readAll?_of_forall₂ (List.rel_append (read?_script units script) (.cons rfl .nil))

private theorem plain_widgets : HoldsOfWidgets Statement.Plain where
  fresh _ _ := trivial
  attach _ _ := trivial
  main order node w main s member _ := plain_mainWidget order node w main s member
  decoration node w held s member _ := plain_decoration node w held s member

theorem plain_scriptOf (options : Options) (tree : Tree) :
    ∀ s ∈ statements (scriptOf options tree).script, s.Plain := by
  rw [scriptOf, statements_append, preamble, statements_map_statement]
  refine List.forall_mem_append.mpr ⟨List.forall_mem_append.mpr
    ⟨?_, plain_widgets.widget (fun s member _ => plain_screen options s member) _ _⟩,
    plain_widgets.draw _ _ _ tree.root⟩
  intro s member
  rcases List.mem_cons.mp member with rfl | member
  · trivial
  rcases List.mem_cons.mp member with rfl | member
  · exact (by decide : IsWord "LocalPlayer")
  · obtain rfl := List.mem_singleton.mp member
    trivial

theorem lines_generate (options : Options) (units : Units) (tree : Tree) :
    Text.lines (generate options units tree) = (scriptOf options tree).script.flatMap (Chunk.lines units) ++ [""] :=
  lines_print units (plain_scriptOf options tree)

end OneLine

end Handoff.Roblox
