import Handoff.Proofs.Decimal.Exact
import Handoff.Proofs.Roblox.Line

set_option autoImplicit false
set_option relaxedAutoImplicit false

/-!
Where the unit of the engine enters a script.

A design leads to rows of text in which the numbers of lengths are left open, each with the length that it stands for.
The script for a unit is what the rows become when the numbers are filled in; all else in them, and the order of the
rows, is the same for every unit.
-/

namespace Handoff.Roblox
open Design

/-- A part of a line: characters, or the number of a length in design pixels. -/
inductive Piece where
  | text (s : String)
  | pixels (px : Float)

def Piece.print (units : Units) : Piece → String
  | .text s => s
  | .pixels px => pixelText (units px)

/-- A line in which the numbers of lengths are left open. -/
abbrev Row := List Piece

def Row.line (units : Units) (row : Row) : String :=
  String.join (row.map (Piece.print units))

/-- A value that is made of lengths. -/
inductive Extent where
  | point (x y : Float)
  | span (px : Float)
  | number (px : Float)

def pointLabels : List String :=
  ["Position", "Size", "CellSize", "CellPadding"]

def spanLabels : List String :=
  ["CornerRadius", "PaddingTop", "PaddingRight", "PaddingBottom", "PaddingLeft", "Padding"]

def numberLabels : List String :=
  ["Thickness", "TextSize"]

/-- The properties that are measured in lengths. -/
def measuredLabels : List String :=
  pointLabels ++ spanLabels ++ numberLabels

namespace Extent

/-- The properties that take such a value. -/
def labels : Extent → List String
  | .point .. => pointLabels
  | .span _ => spanLabels
  | .number _ => numberLabels

/-- The value as it is written. -/
def row : Extent → Row
  | .point x y => [.text "UDim2.new(0,", .pixels x, .text ",0,", .pixels y, .text ")"]
  | .span px => [.text "UDim.new(0,", .pixels px, .text ")"]
  | .number px => [.pixels px]

end Extent

/-- The property that a line gives a value, with the value as it is written. -/
def Line.assigned? (line : String) : Option (String × String) := do
  let (_, rest) := takeName (line.toList.dropWhile (· == '\t'))
  let rest ← Text.after? "." rest
  let (label, rest) := takeName rest
  let value ← Text.after? " = " rest
  return (label, String.ofList value)

namespace Row

/-- A line that gives lengths to a property that is measured in them. -/
def Measures (row : Row) : Prop :=
  ∃ (lead : String) (v : Variable) (label : String) (extent : Extent), lead ∈ ["", "\t"] ∧ label ∈ extent.labels ∧
    row = .text (lead ++ v.name ++ "." ++ label ++ " = ") :: extent.row

/-- A line with no number left open. The only property in it that could be measured in lengths is the radius of corners
that meet, which is half of what they are on. -/
def Fixed (row : Row) : Prop :=
  ∃ line, row = [.text line] ∧ ∀ label value, Line.assigned? line = some (label, value) →
    label ∈ measuredLabels → label = "CornerRadius" ∧ value = "UDim.new(0.5,0)"

end Row

section Values

def Value.extent? : Value → Option Extent
  | .length px => some (.number px)
  | .offset px => some (.span px)
  | .offsets x y => some (.point x y)
  | _ => none

/-- Lengths go to the properties that are measured in them, and these get nothing else apart from a half. -/
def Value.Fits (p : Property) : Value → Prop
  | .offsets .. => p.label ∈ pointLabels
  | .offset _ => p.label ∈ spanLabels
  | .length _ => p.label ∈ numberLabels
  | .half => p = .cornerRadius
  | _ => p.label ∉ measuredLabels

def Statement.Fits : Statement → Prop
  | .set _ p value => value.Fits p
  | _ => True

private theorem fits_common (h : Header) (order : Option Nat) : ∀ s ∈ commonSettings h order, s.2.Fits s.1 := by
  cases order <;> simp +decide [commonSettings, Value.Fits]

theorem Facet.fits {p : Property} {value : Value} (facet : Facet p value) : value.Fits p := by
  cases facet with
  | font => exact (by decide : Property.label .fontFace ∉ measuredLabels)
  | half => rfl
  | paint | ratio | count | flag | text | choice =>
    rename_i member
    change p.label ∉ measuredLabels
    revert p
    decide
  | number _ member =>
    change p.label ∈ numberLabels
    revert p
    decide
  | span _ member =>
    change p.label ∈ spanLabels
    revert p
    decide
  | point _ _ member =>
    change p.label ∈ pointLabels
    revert p
    decide

private theorem fits_screen (options : Options) : ∀ s ∈ (screenWidget options).settings, s.2.Fits s.1 := by
  simp +decide [screenWidget, Value.Fits]

theorem fits_widgets : HoldsOfWidgets Statement.Fits where
  fresh _ _ := trivial
  attach _ _ := trivial
  main order node w main s member _ :=
    forall_mainWidget (P := fun p value => value.Fits p) fits_common (fun _ _ => Facet.fits) order node w main s member
  decoration node w held s member _ := (facets_decoration node w held s member).fits

end Values

section Rows

/-- The line of a statement after what leads it, with the numbers of lengths left open. -/
def Statement.row (lead : String) : Statement → Row
  | .set v p value =>
    match value.extent? with
    | some extent => .text (lead ++ v.name ++ "." ++ p.label ++ " = ") :: extent.row
    | none => [.text (lead ++ (Statement.set v p value).line pixelUnits)]
  | s => [.text (lead ++ s.line pixelUnits)]

/-- The lines of a chunk with the numbers of lengths left open. -/
def Chunk.rows : Chunk → List Row
  | .statement s => s.lead.map (fun line => [.text line]) ++ [s.row ""]
  | .block body => [[.text ""], [.text "do"]] ++ body.map (Statement.row "\t") ++ [[.text "end"]]

@[simp]
private theorem Row.line_cons (units : Units) (piece : Piece) (rest : Row) :
    Row.line units (piece :: rest) = piece.print units ++ Row.line units rest := by
  simp [Row.line, String.join_cons]

@[simp]
private theorem Row.line_nil (units : Units) : Row.line units [] = "" :=
  rfl

@[simp]
private theorem Piece.print_text (units : Units) (s : String) : Piece.print units (.text s) = s :=
  rfl

@[simp]
private theorem Piece.print_pixels (units : Units) (px : Float) :
    Piece.print units (.pixels px) = lengthText units px :=
  rfl

private theorem line_extent (units : Units) {value : Value} {extent : Extent} (made : value.extent? = some extent) :
    Row.line units extent.row = value.expression units := by
  cases value with
  | length px =>
    obtain rfl := Option.some.inj made
    simp only [Extent.row, Row.line_cons, Row.line_nil, Piece.print_pixels, String.append_empty]
    rfl
  | offset px =>
    obtain rfl := Option.some.inj made
    simp only [Extent.row, Row.line_cons, Row.line_nil, Piece.print_pixels, Piece.print_text, String.append_empty,
      ← String.append_assoc]
    rfl
  | offsets x y =>
    obtain rfl := Option.some.inj made
    simp only [Extent.row, Row.line_cons, Row.line_nil, Piece.print_pixels, Piece.print_text, String.append_empty,
      ← String.append_assoc]
    rfl
  | _ => cases made

private theorem expression_eq (units : Units) {value : Value} (plain : value.extent? = none) :
    value.expression units = value.expression pixelUnits := by
  cases value with
  | length | offset | offsets => cases plain
  | _ => rfl

private theorem line_row (units : Units) (lead : String) (s : Statement) :
    Row.line units (s.row lead) = lead ++ s.line units := by
  cases s with
  | set v p value =>
    simp only [Statement.row]
    cases made : value.extent? with
    | some extent =>
      simp only [Row.line_cons, Piece.print_text, line_extent units made, Statement.line, String.append_assoc]
    | none =>
      simp only [Row.line_cons, Row.line_nil, Piece.print_text, Statement.line, expression_eq units made,
        String.append_empty]
  | declare | attach =>
    simp only [Statement.row, Row.line_cons, Row.line_nil, Piece.print_text, String.append_empty]
    rfl

private theorem lines_eq (units : Units) (chunk : Chunk) : chunk.lines units = chunk.rows.map (Row.line units) := by
  cases chunk with
  | statement s =>
    simp [Chunk.lines, Chunk.rows, Function.comp_def, line_row]
  | block body =>
    simp [Chunk.lines, Chunk.rows, Function.comp_def, line_row]

end Rows

section Reading

private theorem dropWhile_tab {lead : String} (tabs : lead ∈ ["", "\t"]) {cs : List Char}
    (stop : ∀ c ∈ cs.head?, c ≠ '\t') : (lead.toList ++ cs).dropWhile (· == '\t') = cs := by
  refine Text.dropWhile_append_of_stop ?_ (fun c first => beq_false_of_ne (stop c first))
  rcases List.mem_cons.mp tabs with rfl | tabs
  · exact List.forall_mem_nil _
  · obtain rfl := List.mem_singleton.mp tabs
    exact List.forall_mem_singleton.mpr rfl

private theorem assigned?_assignment {lead : String} (tabs : lead ∈ ["", "\t"]) (v : Variable) {label : String}
    (word : IsWord label) (value : String) :
    Line.assigned? (lead ++ (v.name ++ "." ++ label ++ " = " ++ value)) = some (label, value) := by
  obtain ⟨c, cs, form, -, tab, -⟩ := head_variable v
  have chars : (lead ++ (v.name ++ "." ++ label ++ " = " ++ value)).toList =
      lead.toList ++ (v.name.toList ++ '.' :: (label.toList ++ ' ' :: ("= ".toList ++ value.toList))) := by
    simp [String.toList_append]
  have text : (lead.toList ++ (v.name.toList ++ '.' :: (label.toList ++ ' ' :: ("= ".toList
      ++ value.toList)))).dropWhile (· == '\t') =
        v.name.toList ++ '.' :: (label.toList ++ ' ' :: ("= ".toList ++ value.toList)) := by
    refine dropWhile_tab tabs ?_
    simp [form, tab]
  have owner := Line.takeName_append (isWord_variable v) (show isNameChar '.' = false by decide)
  simp only [Line.assigned?, chars, text, owner]
  rw [show '.' :: (label.toList ++ ' ' :: ("= ".toList ++ value.toList)) =
    ".".toList ++ (label.toList ++ ' ' :: ("= ".toList ++ value.toList)) from rfl, Text.after?_append]
  simp only [Option.bind_eq_bind, Option.bind_some, Line.takeName_append word (show isNameChar ' ' = false by decide)]
  rw [show ' ' :: ("= ".toList ++ value.toList) = " = ".toList ++ value.toList from rfl, Text.after?_append]
  simp [String.ofList_toList]

private theorem assigned?_declaration {lead : String} (tabs : lead ∈ ["", "\t"]) (text : String) :
    Line.assigned? (lead ++ ("local " ++ text)) = none := by
  have chars : (lead ++ ("local " ++ text)).toList = lead.toList ++ ("local".toList ++ ' ' :: text.toList) := by
    simp [String.toList_append]
  have rest : (lead.toList ++ ("local".toList ++ ' ' :: text.toList)).dropWhile (· == '\t') =
      "local".toList ++ ' ' :: text.toList := dropWhile_tab tabs (by simp)
  have keyword := Line.takeName_append (by decide : IsWord "local") (show isNameChar ' ' = false by decide) text.toList
  simp only [Line.assigned?, chars, rest, keyword]
  rfl

private theorem fixed_of_none {line : String} (none : Line.assigned? line = none) : Row.Fixed [.text line] := by
  refine ⟨line, rfl, fun label value given => ?_⟩
  rw [none] at given
  cases given

private theorem fixed_assignment {lead : String} (tabs : lead ∈ ["", "\t"]) (v : Variable) {label value : String}
    (word : IsWord label) (fits : label ∈ measuredLabels → label = "CornerRadius" ∧ value = "UDim.new(0.5,0)") :
    Row.Fixed [.text (lead ++ (v.name ++ "." ++ label ++ " = " ++ value))] := by
  refine ⟨_, rfl, fun found written given => ?_⟩
  rw [assigned?_assignment tabs v word, Option.some.injEq, Prod.mk.injEq] at given
  obtain ⟨rfl, rfl⟩ := given
  exact fits

private theorem extent_of_fits {p : Property} {value : Value} (fits : value.Fits p) :
    (∃ extent, value.extent? = some extent ∧ p.label ∈ extent.labels) ∨
      value.extent? = none ∧ (p.label ∈ measuredLabels → p = .cornerRadius ∧ value = .half) := by
  cases value with
  | length | offset | offsets => exact .inl ⟨_, rfl, fits⟩
  | half => exact .inr ⟨rfl, fun _ => ⟨fits, rfl⟩⟩
  | text | flag | count | ratio | rgb | choice | font => exact .inr ⟨rfl, fun measured => absurd measured fits⟩

private theorem measures_or_fixed_row {lead : String} (tabs : lead ∈ ["", "\t"]) {s : Statement} (fits : s.Fits) :
    (s.row lead).Measures ∨ (s.row lead).Fixed := by
  cases s with
  | declare v origin =>
    have row : (Statement.declare v origin).row lead =
        [.text (lead ++ ("local " ++ (v.name ++ " = " ++ origin.expression)))] := by
      simp only [Statement.row, Statement.line, String.append_assoc]
    rw [row]
    exact .inr (fixed_of_none (assigned?_declaration tabs _))
  | attach v parent =>
    have row : (Statement.attach v parent).row lead =
        [.text (lead ++ (v.name ++ "." ++ "Parent" ++ " = " ++ parent.name))] := by
      simp [Statement.row, Statement.line, String.append_assoc]
    rw [row]
    exact .inr (fixed_assignment tabs v (by decide) fun measured => absurd measured (by decide))
  | set v p value =>
    rw [Statement.row]
    obtain ⟨extent, made, measured⟩ | ⟨none, other⟩ := extent_of_fits fits
    · simp only [made]
      exact .inl ⟨lead, v, p.label, extent, tabs, measured, rfl⟩
    · simp only [none]
      refine .inr (fixed_assignment tabs v (isWord_label p) fun measured => ?_)
      obtain ⟨rfl, rfl⟩ := other measured
      exact ⟨rfl, rfl⟩

/-- True of a line that gives lengths or leaves nothing open. -/
private abbrev Row.Known (row : Row) : Prop :=
  row.Measures ∨ row.Fixed

private theorem known_blank : Row.Known [.text ""] :=
  .inr (fixed_of_none rfl)

private theorem known_rows {chunk : Chunk} (fits : ∀ s ∈ statements [chunk], s.Fits) :
    ∀ row ∈ chunk.rows, row.Known := by
  cases chunk with
  | statement s =>
    have lead : ∀ row ∈ s.lead.map (fun line => [Piece.text line]), Row.Known row := by
      unfold Statement.lead
      split
      · exact List.forall_mem_singleton.mpr known_blank
      · exact List.forall_mem_nil _
    have own : (s.row "").Known := measures_or_fixed_row List.mem_cons_self (fits s (by simp [statements]))
    exact List.forall_mem_append.mpr ⟨lead, List.forall_mem_singleton.mpr own⟩
  | block body =>
    have inner : ∀ row ∈ body.map (Statement.row "\t"), row.Known := by
      intro row member
      obtain ⟨s, held, rfl⟩ := List.mem_map.mp member
      exact measures_or_fixed_row (by simp) (fits s (by simpa [statements] using held))
    have opening : Row.Known [.text "do"] := .inr (fixed_of_none rfl)
    have closing : Row.Known [.text "end"] := .inr (fixed_of_none rfl)
    exact List.forall_mem_append.mpr ⟨List.forall_mem_append.mpr
      ⟨List.forall_mem_cons.mpr ⟨known_blank, List.forall_mem_singleton.mpr opening⟩, inner⟩,
      List.forall_mem_singleton.mpr closing⟩

private theorem known_script {script : List Chunk} (fits : ∀ s ∈ statements script, s.Fits) :
    ∀ row ∈ script.flatMap Chunk.rows, row.Known := by
  intro row member
  obtain ⟨chunk, held, inner⟩ := List.mem_flatMap.mp member
  refine known_rows (fun s own => fits s ?_) row inner
  exact List.mem_flatMap.mpr ⟨chunk, held, by simpa [statements] using own⟩

end Reading

section Script

private theorem lines_script (units : Units) (script : List Chunk) :
    script.flatMap (Chunk.lines units) = (script.flatMap Chunk.rows).map (Row.line units) := by
  rw [List.map_flatMap]
  exact List.flatMap_congr fun chunk _ => lines_eq units chunk

private theorem fits_preamble (options : Options) : ∀ s ∈ statements (preamble options), s.Fits := by
  rw [preamble, statements_map_statement]
  refine List.forall_mem_append.mpr
    ⟨?_, fits_widgets.widget (fun s member _ => fits_screen options s member) _ _⟩
  simp [Statement.Fits]

private theorem rows_preamble (options : Options) :
    (preamble options).flatMap Chunk.rows =
      ((preamble options).flatMap (Chunk.lines pixelUnits)).map fun line => [.text line] := by
  simp [preamble, screenWidget, Widget.statements, Chunk.rows, Chunk.lines, Statement.lead, Statement.row,
    Value.extent?]

private theorem assigned?_measures {row : Row} (measures : row.Measures) (units : Units) :
    ∃ (label : String) (extent : Extent), label ∈ extent.labels ∧
      Line.assigned? (row.line units) = some (label, Row.line units extent.row) := by
  obtain ⟨lead, v, label, extent, tabs, measured, rfl⟩ := measures
  have word : ∀ label ∈ measuredLabels, IsWord label := by decide
  have known : label ∈ measuredLabels := by
    simp only [measuredLabels, List.mem_append]
    cases extent with
    | point => exact .inl (.inl measured)
    | span => exact .inl (.inr measured)
    | number => exact .inr measured
  refine ⟨label, extent, measured, ?_⟩
  rw [← assigned?_assignment tabs v (word label known), Row.line_cons, Piece.print_text]
  simp only [String.append_assoc]

/-- What a script gives to the properties that are measured in lengths is made of the numbers of lengths, apart from the
half where corners meet. -/
theorem assigned_lengths (options : Options) (units : Units) (tree : Tree) :
    ∀ line ∈ Text.lines (generate options units tree), ∀ label ∈ measuredLabels, ∀ value,
      Line.assigned? line = some (label, value) →
        value = "UDim.new(0.5,0)" ∨ ∃ extent : Extent, label ∈ extent.labels ∧ value = Row.line units extent.row := by
  intro line member label measured value given
  have fits : ∀ s ∈ statements (scriptOf options tree).script, s.Fits := by
    rw [scriptOf, statements_append]
    exact List.forall_mem_append.mpr ⟨fits_preamble options, fits_widgets.draw _ _ _ tree.root⟩
  rw [generate, lines_print units (plain_scriptOf options tree), lines_script, List.mem_append] at member
  rcases member with member | blank
  · obtain ⟨row, held, rfl⟩ := List.mem_map.mp member
    rcases known_script fits row held with measures | ⟨text, rfl, fixed⟩
    · obtain ⟨own, extent, its, assigned⟩ := assigned?_measures measures units
      rw [assigned, Option.some.injEq, Prod.mk.injEq] at given
      obtain ⟨rfl, rfl⟩ := given
      exact .inr ⟨extent, its, rfl⟩
    · rw [Row.line_cons, Row.line_nil, Piece.print_text, String.append_empty] at given
      exact .inl (fixed label value given measured).2
  · obtain rfl := List.mem_singleton.mp blank
    cases given

theorem scaledUnits_one : scaledUnits 1 = pixelUnits :=
  funext mul_one_eq

/-- The unit of the engine enters the script of a design in the numbers of lengths alone. A design leads to rows in which
these numbers are left open, and to the nodes that are left out; whatever the unit, the script is the rows with the
numbers of their lengths in it, after the lines that make the screen. The rows with open numbers are those that give
lengths to the properties that are measured in them. One unit for each pixel is the same as pixels. -/
theorem report_of_units (tree : Tree) :
    (∃ (rows : List Row) (skipped : List Skipped), (∀ row ∈ rows, row.Measures ∨ row.Fixed) ∧
      ∀ options, ∃ opening : List String, (∀ line ∈ opening, Row.Fixed [.text line]) ∧
        ∀ units, Text.lines (report options units tree).script = opening ++ rows.map (Row.line units) ∧
          (report options units tree).skipped = skipped) ∧
      ∀ options, report options (scaledUnits 1) tree = report options pixelUnits tree := by
  refine ⟨?_, fun options => by rw [scaledUnits_one]⟩
  let drawn := draw .screenGui none 0 tree.root
  have known : ∀ row ∈ drawn.script.flatMap Chunk.rows, row.Known := known_script (fits_widgets.draw _ _ _ tree.root)
  refine ⟨drawn.script.flatMap Chunk.rows ++ [[.text ""]], drawn.skipped,
    List.forall_mem_append.mpr ⟨known, List.forall_mem_singleton.mpr known_blank⟩, fun options => ?_⟩
  refine ⟨(preamble options).flatMap (Chunk.lines pixelUnits), ?_, fun units => ⟨?_, rfl⟩⟩
  · intro line member
    have row : [Piece.text line] ∈ (preamble options).flatMap Chunk.rows := by
      rw [rows_preamble]
      exact List.mem_map_of_mem member
    rcases known_script (fits_preamble options) _ row with ⟨lead, v, label, extent, -, -, form⟩ | fixed
    · cases extent <;> cases form
    · exact fixed
  · have filled : (preamble options).flatMap (Chunk.lines units) =
        (preamble options).flatMap (Chunk.lines pixelUnits) := by
      rw [lines_script, rows_preamble, List.map_map]
      simp [Function.comp_def]
    rw [report, generate, lines_print units (plain_scriptOf options tree), scriptOf, List.flatMap_append, filled,
      lines_script units drawn.script, List.map_append, List.append_assoc]
    rfl

end Script

end Handoff.Roblox
