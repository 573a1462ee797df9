import Handoff.Proofs.React.Reading
import Handoff.Proofs.React.Name

set_option autoImplicit false
set_option relaxedAutoImplicit false

/-!
What a component returns, read back, has the shape of the design.

`outlineOf` says which shape a node has: an element for each node of a known type, nested and ordered as the nodes are,
with the texts of the node as they were, and comments that mark nodes or stand for those of no known type.
-/

namespace Handoff.React
open Design

def leafOutline (h : Header) : Leaf → Outline
  | .rect _ | .ellipse _ => .element "div" [] []
  | .text a => .element (textTag a.variant) [] (if a.text = "" then [] else [.text a.text])
  | .image a => .element "img" [("src", a.src), ("alt", a.alt.getD "")] []
  | .line _ => .element "svg" [] [.element "line" [] []]
  | .path role a => .element "svg" [] [.element (if isClosed role a then "polygon" else "polyline") [] []]
  | .unknown type => .comment (" " ++ commentText ("Unsupported node type: " ++ type ++ " (" ++ h.id ++ ")") ++ " ")

def markerOutlines (comments : Bool) (node : Node) : List Outline :=
  (markerName comments node).toList.map fun name => .comment (" " ++ commentText name ++ " ")

mutual

/-- The shape of a node. -/
def outlineOf (comments : Bool) : Node → Outline
  | .leaf header kind => leafOutline header kind
  | .container _ _ children => .element "div" [] (outlinesOf comments children)

/-- The shapes of siblings, each after the comments that mark it. -/
def outlinesOf (comments : Bool) : List Node → List Outline
  | [] => []
  | node :: rest => markerOutlines comments node ++ outlineOf comments node :: outlinesOf comments rest

end

/-- True of nodes of a known type. -/
def isKnown : Node → Bool
  | .leaf _ (.unknown _) => false
  | _ => true

theorem exists_unknown {node : Node} (unknown : isKnown node = false) :
    ∃ header type, node = .leaf header (.unknown type) := by
  cases node with
  | container => cases unknown
  | leaf header kind =>
    cases kind with
    | unknown type => exact ⟨header, type, rfl⟩
    | rect | ellipse | text | image | line | path => cases unknown

section Looks

private def PlainClasses (names : List String) : Prop :=
  Jsx.PlainAttribute (.classes names)

private def PlainStyle (style : Style) : Prop :=
  Jsx.PlainAttribute (.style style)

@[simp]
private theorem plainClasses_append {first second : List String} :
    PlainClasses (first ++ second) ↔ PlainClasses first ∧ PlainClasses second :=
  List.forall_mem_append

@[simp]
private theorem plainStyle_append {first second : Style} :
    PlainStyle (first ++ second) ↔ PlainStyle first ∧ PlainStyle second :=
  List.forall_mem_append

private instance (names : List String) : Decidable (PlainClasses names) :=
  inferInstanceAs (Decidable (∀ name ∈ names, name.toList.all (fun c => Jsx.isNameChar c || c == '-') = true))

private theorem plainStyle_nil : PlainStyle [] := nofun

private theorem plainStyle_singleton {key : String} (named : Jsx.IsName key) (value : StyleValue) :
    PlainStyle [(key, value)] := by
  intro entry member
  rw [List.mem_singleton.mp member]
  exact named

private theorem plain_numberEntry {key : String} (named : Jsx.IsName key) (x : Option Float) :
    PlainStyle (numberEntry key x) := by
  cases x with
  | none => exact plainStyle_nil
  | some x => exact plainStyle_singleton named _

private theorem plain_textEntry {key : String} (named : Jsx.IsName key) (s : Option String) :
    PlainStyle (textEntry key s) := by
  cases s with
  | none => exact plainStyle_nil
  | some s => exact plainStyle_singleton named _

private theorem plain_pair {first second : String} (named : Jsx.IsName first ∧ Jsx.IsName second)
    (value other : StyleValue) : PlainStyle [(first, value), (second, other)] :=
  List.forall_mem_cons.mpr ⟨named.1, plainStyle_singleton named.2 other⟩

private theorem plain_geometry (h : Header) (placement : Placement) : PlainStyle (geometry h placement) := by
  refine plainStyle_append.mpr ⟨?_, ?_⟩
  · split
    · exact plain_pair (by decide) _ _
    · exact plainStyle_nil
  · cases h.size with
    | none => exact plainStyle_nil
    | some size => exact plain_pair (by decide) _ _

private theorem plain_background (paint : Option String) : PlainStyle (background paint) :=
  plain_textEntry (by decide) _

private theorem plain_border (stroke : Option String) (width : Option Float) : PlainStyle (border stroke width) := by
  unfold border
  cases paintOf stroke with
  | none => exact plainStyle_nil
  | some color =>
    exact List.forall_mem_cons.mpr ⟨(by decide : Jsx.IsName "borderWidth"), plain_pair (by decide) _ _⟩

private theorem plain_padding (padding : Option Padding) : PlainStyle (paddingEntry padding) := by
  unfold paddingEntry
  split
  · exact plainStyle_singleton (by decide) _
  · exact plainStyle_singleton (by decide) _
  · exact plainStyle_nil

private theorem plain_corner (radius : Option Float) : PlainStyle (cornerEntry radius) :=
  plain_numberEntry (by decide) _

private theorem plain_opacity (h : Header) : PlainStyle (opacityEntry h) :=
  plain_numberEntry (by decide) _

private theorem plain_size (t : Label) : PlainStyle (sizeEntry t) := by
  unfold sizeEntry
  split
  · exact plainStyle_singleton (by decide) _
  · exact plainStyle_nil

private theorem plain_weight (weight : Option FontWeight) : PlainStyle (weightEntry weight) := by
  unfold weightEntry
  split
  · split
    · exact plainStyle_nil
    · split <;> exact plainStyle_singleton (by decide) _
  · exact plainStyle_nil

private theorem plain_placement (placement : Placement) : PlainClasses placement.classes := by
  cases placement <;> decide

private theorem plain_rounded (radius : Option Float) : PlainClasses (roundedClass radius) := by
  unfold roundedClass
  split <;> decide

private theorem plain_columns (n : Nat) : PlainClasses ["grid", "grid-cols-" ++ toString n] := by
  have digits : (toString n).toList.all (fun c => Jsx.isNameChar c || c == '-') = true := by
    rw [List.all_eq_true]
    intro c member
    rw [Nat.toString_eq_repr, Nat.toList_repr] at member
    simp [Jsx.isNameChar, Char.isAlphanum, Numeral.isDigit_of_mem_toDigits member]
  have columns : ("grid-cols-" ++ toString n).toList.all (fun c => Jsx.isNameChar c || c == '-') = true := by
    rw [String.toList_append, List.all_append, digits]
    decide
  exact List.forall_mem_cons.mpr ⟨by decide, List.forall_mem_singleton.mpr columns⟩

private theorem plain_look {classes : List String} {style : Style} (named : PlainClasses classes)
    (keyed : PlainStyle style) : ∀ a ∈ look classes style, Jsx.PlainAttribute a :=
  List.forall_mem_cons.mpr ⟨named, List.forall_mem_singleton.mpr keyed⟩

private theorem plain_containerLook (h : Header) (placement : Placement) (kind : Container) :
    ∀ a ∈ containerLook h placement kind, Jsx.PlainAttribute a := by
  cases kind with
  | panel role a =>
    have clipped : PlainClasses (if role = .frame then ["overflow-hidden"] else []) := by split <;> decide
    apply plain_look
    · simp only [plainClasses_append, plain_placement, clipped, plain_rounded, and_self]
    · simp only [plainStyle_append, plain_geometry, plain_background, plain_padding, plain_corner, plain_opacity,
        and_self]
  | stack a =>
    have direction : PlainClasses ["flex", directionClass a.direction] := by
      cases a.direction <;> decide
    have aligned : PlainClasses (a.align.map alignClass).toList := by
      rcases a.align with _ | align
      · decide
      · cases align <;> decide
    have justified : PlainClasses (a.justify.map justifyClass).toList := by
      rcases a.justify with _ | justify
      · decide
      · cases justify <;> decide
    apply plain_look
    · simp only [plainClasses_append, plain_placement, direction, aligned, justified, and_self]
    · simp only [plainStyle_append, plain_geometry, plain_numberEntry (by decide : Jsx.IsName "gap"), plain_background,
        plain_padding, plain_opacity, and_self]
  | grid a =>
    apply plain_look
    · simp only [plainClasses_append, plain_placement, plain_columns, and_self]
    · simp only [plainStyle_append, plain_geometry, plain_numberEntry (by decide : Jsx.IsName "gap"), plain_background,
        plain_padding, plain_opacity, and_self]

private theorem plain_labelLook (h : Header) (placement : Placement) (t : Label) :
    ∀ a ∈ labelLook h placement t, Jsx.PlainAttribute a := by
  have bold : PlainClasses (if t.isBold then ["font-bold"] else []) := by split <;> decide
  have italic : PlainClasses (if t.isItalic then ["italic"] else []) := by split <;> decide
  have aligned : PlainClasses (t.align.map textAlignClass).toList := by
    rcases t.align with _ | align
    · decide
    · cases align <;> decide
  apply plain_look
  · simp only [plainClasses_append, plain_placement, bold, italic, aligned, and_self]
  · simp only [plainStyle_append, plain_geometry, plain_textEntry (by decide : Jsx.IsName "color"),
      plain_textEntry (by decide : Jsx.IsName "fontFamily"), plain_size, plain_weight, plain_opacity, and_self]

private theorem plain_rectLook (h : Header) (placement : Placement) (a : Rect) :
    ∀ b ∈ rectLook h placement a, Jsx.PlainAttribute b := by
  apply plain_look
  · simp only [plainClasses_append, plain_placement, plain_rounded, and_self]
  · simp only [plainStyle_append, plain_geometry, plain_background, plain_border, plain_corner, plain_opacity, and_self]

private theorem plain_ellipseLook (h : Header) (placement : Placement) (a : Ellipse) :
    ∀ b ∈ ellipseLook h placement a, Jsx.PlainAttribute b := by
  have full : PlainClasses ["rounded-full"] := by decide
  apply plain_look
  · simp only [plainClasses_append, plain_placement, full, and_self]
  · simp only [plainStyle_append, plain_geometry, plain_background, plain_border, plain_opacity, and_self]

private theorem plain_imageLook (h : Header) (placement : Placement) (a : Image) :
    ∀ b ∈ imageLook h placement a, Jsx.PlainAttribute b := by
  have fitted : PlainClasses (a.objectFit.map fun fit => "object-" ++ fit.name).toList := by
    rcases a.objectFit with _ | fit
    · decide
    · cases fit <;> decide
  have look : ∀ b ∈ look (placement.classes ++ (a.objectFit.map fun fit => "object-" ++ fit.name).toList
      ++ roundedClass a.radius) (geometry h placement ++ cornerEntry a.radius ++ opacityEntry h),
      Jsx.PlainAttribute b := by
    apply plain_look
    · simp only [plainClasses_append, plain_placement, fitted, plain_rounded, and_self]
    · simp only [plainStyle_append, plain_geometry, plain_corner, plain_opacity, and_self]
  exact List.forall_mem_cons.mpr ⟨(by decide : Jsx.IsName "src"),
    List.forall_mem_cons.mpr ⟨(by decide : Jsx.IsName "alt"), look⟩⟩

private theorem plain_strokeAttributes (stroke : Option String) (width : Option Float) :
    ∀ a ∈ strokeAttributes stroke width, Jsx.PlainAttribute a := by
  refine List.forall_mem_append.mpr ⟨?_, ?_⟩
  · cases paintOf stroke with
    | none => exact nofun
    | some color => exact List.forall_mem_singleton.mpr (by decide : Jsx.IsName "stroke")
  · cases width with
    | none => exact nofun
    | some width => exact List.forall_mem_singleton.mpr (by decide : Jsx.IsName "strokeWidth")

private theorem plain_lineShape (a : Line) : (lineShape a).Plain := by
  refine .void (by decide) (List.forall_mem_append.mpr ⟨?_, plain_strokeAttributes a.stroke a.strokeWidth⟩)
  exact List.forall_mem_cons.mpr ⟨(by decide : Jsx.IsName "x1"), List.forall_mem_cons.mpr
    ⟨(by decide : Jsx.IsName "y1"), List.forall_mem_cons.mpr ⟨(by decide : Jsx.IsName "x2"),
      List.forall_mem_singleton.mpr (by decide : Jsx.IsName "y2")⟩⟩⟩

private theorem plain_pathShape (role : PathRole) (a : Path) : (pathShape role a).Plain := by
  refine .void (by split <;> decide)
    (List.forall_mem_append.mpr ⟨?_, plain_strokeAttributes a.stroke a.strokeWidth⟩)
  exact List.forall_mem_cons.mpr ⟨(by decide : Jsx.IsName "points"),
    List.forall_mem_singleton.mpr (by decide : Jsx.IsName "fill")⟩

private theorem plain_drawingArea (h : Header) (placement : Placement) {shape : Markup} (plain : shape.Plain) :
    (drawingArea h placement shape).Plain := by
  have overflow : PlainClasses ["overflow-visible"] := by decide
  refine .group (by decide) (plain_look ?_ ?_) (List.forall_mem_singleton.mpr plain) (List.cons_ne_nil _ _)
  · simp only [plainClasses_append, plain_placement, overflow, and_self]
  · simp only [plainStyle_append, plain_geometry, plain_opacity, and_self]

private theorem plain_leafMarkup (h : Header) (placement : Placement) (kind : Leaf) :
    (leafMarkup h placement kind).Plain := by
  cases kind with
  | rect a => exact .void (by decide) (plain_rectLook h placement a)
  | ellipse a => exact .void (by decide) (plain_ellipseLook h placement a)
  | text a =>
    have named : Jsx.IsName (textTag a.variant) := by
      rcases a.variant with _ | variant
      · decide
      · cases variant <;> decide
    exact .label a.text named (plain_labelLook h placement a)
  | image a => exact .void (by decide) (plain_imageLook h placement a)
  | line a => exact plain_drawingArea h placement (plain_lineShape a)
  | path role a => exact plain_drawingArea h placement (plain_pathShape role a)
  | unknown type => exact .comment _

private theorem plain_markers (comments : Bool) (placement : Placement) (node : Node) :
    ∀ m ∈ markers comments placement node, m.Plain := by
  unfold markers
  split
  · exact nofun
  · intro m member
    obtain ⟨name, -, rfl⟩ := List.mem_map.mp member
    exact .comment name

mutual

theorem plain_element (comments : Bool) (placement : Placement) (node : Node) :
    (element comments placement node).Plain := by
  match node with
  | .leaf header kind => exact plain_leafMarkup header placement kind
  | .container header kind [] => exact .void (by decide) (plain_containerLook header placement kind)
  | .container header kind (child :: rest) =>
    exact .group (by decide) (plain_containerLook header placement kind)
      (plain_elements comments (childPlacement kind) (child :: rest)) (by simp)

theorem plain_elements (comments : Bool) (placement : Placement) (nodes : List Node) :
    ∀ m ∈ elements comments placement nodes, m.Plain := by
  match nodes with
  | [] => exact nofun
  | node :: rest =>
    exact List.forall_mem_append.mpr ⟨plain_markers comments placement node,
      List.forall_mem_cons.mpr ⟨plain_element comments placement node, plain_elements comments placement rest⟩⟩

end

end Looks

section Outlines

private theorem imageTexts_append (first second : List (String × Given)) :
    Jsx.imageTexts (first ++ second) = Jsx.imageTexts first ++ Jsx.imageTexts second :=
  List.filterMap_append

private theorem imageTexts_look (classes : List String) (style : Style) :
    Jsx.imageTexts ((look classes style).flatMap Jsx.attributeView) = [] := by
  have named : Jsx.imageTexts (Jsx.attributeView (.classes classes)) = [] := by cases classes <;> rfl
  have styled : Jsx.imageTexts (Jsx.attributeView (.style style)) = [] := by cases style <;> rfl
  rw [look, List.flatMap_cons, List.flatMap_singleton, imageTexts_append, named, styled]
  rfl

private theorem imageTexts_strokeAttributes (stroke : Option String) (width : Option Float) :
    Jsx.imageTexts ((strokeAttributes stroke width).flatMap Jsx.attributeView) = [] := by
  unfold strokeAttributes
  cases paintOf stroke <;> cases width <;> rfl

private theorem outline_lineShape (a : Line) : (lineShape a).outline = .element "line" [] [] := by
  rw [lineShape, Markup.outline, List.flatMap_append, imageTexts_append, imageTexts_strokeAttributes]
  rfl

private theorem outline_pathShape (role : PathRole) (a : Path) :
    (pathShape role a).outline = .element (if isClosed role a then "polygon" else "polyline") [] [] := by
  rw [pathShape, Markup.outline, List.flatMap_append, imageTexts_append, imageTexts_strokeAttributes]
  rfl

private theorem outline_drawingArea (h : Header) (placement : Placement) (shape : Markup) :
    (drawingArea h placement shape).outline = .element "svg" [] [shape.outline] := by
  rw [drawingArea, Markup.outline, imageTexts_look]
  rfl

private theorem outline_leafMarkup (h : Header) (placement : Placement) (kind : Leaf) :
    (leafMarkup h placement kind).outline = leafOutline h kind := by
  cases kind with
  | rect a => rw [leafMarkup, Markup.outline, rectLook, imageTexts_look, leafOutline]
  | ellipse a => rw [leafMarkup, Markup.outline, ellipseLook, imageTexts_look, leafOutline]
  | text a => rw [leafMarkup, Markup.outline, labelLook, imageTexts_look, leafOutline]
  | image a =>
    have shown : Jsx.imageTexts ((imageLook h placement a).flatMap Jsx.attributeView) =
        [("src", a.src), ("alt", a.alt.getD "")] := by
      rw [imageLook, List.flatMap_cons, List.flatMap_cons, imageTexts_append, imageTexts_append, imageTexts_look]
      rfl
    rw [leafMarkup, Markup.outline, shown, leafOutline]
  | line a => rw [leafMarkup, outline_drawingArea, outline_lineShape, leafOutline]
  | path role a => rw [leafMarkup, outline_drawingArea, outline_pathShape, leafOutline]
  | unknown type => rfl

private theorem imageTexts_containerLook (h : Header) (placement : Placement) (kind : Container) :
    Jsx.imageTexts ((containerLook h placement kind).flatMap Jsx.attributeView) = [] := by
  cases kind with
  | panel | stack | grid => exact imageTexts_look _ _

private theorem outlines_append (first second : List Markup) :
    Markup.outlines (first ++ second) = Markup.outlines first ++ Markup.outlines second := by
  induction first with
  | nil => rfl
  | cons m rest ih => rw [List.cons_append, Markup.outlines, Markup.outlines, ih, List.cons_append]

private theorem outlines_markers (comments : Bool) {placement : Placement} (below : placement ≠ .root) (node : Node) :
    Markup.outlines (markers comments placement node) = markerOutlines comments node := by
  rw [markers, if_neg below, markerOutlines]
  cases markerName comments node <;> rfl

private theorem childPlacement_ne_root (kind : Container) : childPlacement kind ≠ .root := by
  cases kind <;> exact Placement.noConfusion

mutual

/-- The markup of a node has the shape of the node, wherever it stands. -/
theorem outline_element (comments : Bool) (placement : Placement) (node : Node) :
    (element comments placement node).outline = outlineOf comments node := by
  match node with
  | .leaf header kind => exact outline_leafMarkup header placement kind
  | .container header kind [] =>
    rw [element, Markup.outline, imageTexts_containerLook]
    rfl
  | .container header kind (child :: rest) =>
    have below := outlines_elements comments (childPlacement_ne_root kind) (child :: rest)
    rw [elements] at below
    rw [element, Markup.outline, imageTexts_containerLook, below, outlineOf]

theorem outlines_elements (comments : Bool) {placement : Placement} (below : placement ≠ .root) (nodes : List Node) :
    Markup.outlines (elements comments placement nodes) = outlinesOf comments nodes := by
  match nodes with
  | [] => rfl
  | node :: rest =>
    rw [elements, outlines_append, outlines_markers comments below, Markup.outlines,
      outline_element comments placement node, outlines_elements comments below rest, outlinesOf]

end

end Outlines

section Component

private def Before (line : String) : Prop :=
  '\n' ∉ line.toList ∧ (Jsx.skipGap line.toList != "return (".toList) = true

private instance (line : String) : Decidable (Before line) :=
  instDecidableAnd

private theorem skipGap_indent (depth : Nat) {cs : List Char} (stop : ∀ c ∈ cs.head?, Jsx.isGap c = false) :
    Jsx.skipGap ((Text.indent depth).toList ++ cs) = cs :=
  Text.dropWhile_append_of_stop (isGap_indent depth) stop

private theorem oneLine_componentName (configured : String) : '\n' ∉ (componentName configured).toList :=
  fun member => absurd (isNameChar_componentName configured _ member) (by decide)

private theorem oneLine_indent (depth : Nat) : '\n' ∉ (Text.indent depth).toList := by
  intro member
  rw [Text.indent, String.toList_ofList] at member
  exact absurd (List.eq_of_mem_replicate member) (by decide)

private theorem oneLine_commentText (s : String) : '\n' ∉ (commentText s).toList := by
  intro member
  rw [commentText, String.toList_ofList] at member
  obtain ⟨c, -, same⟩ := List.mem_map.mp member
  split at same
  · exact absurd same (by decide)
  · rename_i other
    exact other (.inl same)

/-- What stands around the name in the line that opens a component. -/
def headings : List (String × String) :=
  [("export const ", ": React.FC = () => \x7b"), ("export function ", "() \x7b"),
    ("export class ", " extends React.Component<Record<string, never>> \x7b"),
    ("export class ", " extends React.Component \x7b")]

/-- What holds of such a line and of those that open the method of a class holds of all lines that open a component. -/
theorem forall_opening {P : String → Prop} {name : String} (named : ∀ h ∈ headings, P (h.1 ++ name ++ h.2))
    (method : ∀ line ∈ ["  render(): React.ReactNode \x7b", "  render() \x7b"], P line) (options : Options) :
    ∀ line ∈ (Shell.of options name).opening, P line := by
  simp only [headings, List.forall_mem_cons, List.not_mem_nil, false_imp_iff, implies_true, and_true] at named method
  obtain ⟨arrow, function, typedClass, untypedClass⟩ := named
  unfold Shell.of
  split
  · exact List.forall_mem_singleton.mpr arrow
  · exact List.forall_mem_singleton.mpr function
  · exact List.forall_mem_cons.mpr ⟨typedClass, List.forall_mem_singleton.mpr method.1⟩
  · exact List.forall_mem_cons.mpr ⟨untypedClass, List.forall_mem_singleton.mpr method.2⟩

/-- What holds of the lines that close a function or a class holds of all lines that close a component. -/
theorem forall_closing {P : String → Prop} {name : String} (all : ∀ line ∈ ["\x7d;", "\x7d", "  \x7d"], P line)
    (options : Options) : ∀ line ∈ (Shell.of options name).closing, P line := by
  simp only [List.forall_mem_cons, List.not_mem_nil, false_imp_iff, implies_true, and_true] at all
  obtain ⟨arrow, function, method⟩ := all
  unfold Shell.of
  split
  · exact List.forall_mem_singleton.mpr arrow
  · exact List.forall_mem_singleton.mpr function
  · exact List.forall_mem_cons.mpr ⟨method, List.forall_mem_singleton.mpr function⟩
  · exact List.forall_mem_cons.mpr ⟨method, List.forall_mem_singleton.mpr function⟩

private theorem before_opening (options : Options) {name : String} (plain : '\n' ∉ name.toList) :
    ∀ line ∈ (Shell.of options name).opening, Before line := by
  have heading : ∀ h ∈ headings, 'e' ∈ h.1.toList.head? ∧ '\n' ∉ h.1.toList ∧ '\n' ∉ h.2.toList := by decide
  refine forall_opening (fun h member => ?_) (by decide) options
  obtain ⟨start, first, second⟩ := heading h member
  refine ⟨by simp [String.toList_append, first, second, plain], ?_⟩
  cases chars : h.1.toList with
  | nil => rw [chars] at start; cases start
  | cons c cs =>
    obtain rfl : c = 'e' := by simpa [chars] using start
    rw [String.toList_append, String.toList_append, chars]
    rfl

private theorem before_marker (depth : Nat) (name : String) :
    Before (Text.indent depth ++ "// " ++ commentText name) := by
  refine ⟨by simp [String.toList_append, oneLine_indent, oneLine_commentText], ?_⟩
  have slashes : (Text.indent depth ++ "// " ++ commentText name).toList =
      (Text.indent depth).toList ++ '/' :: '/' :: ' ' :: (commentText name).toList := by
    simp [String.toList_append]
  rw [slashes, skipGap_indent depth (by simp; decide)]
  rfl

private theorem lines_return {before : List String} (all : ∀ line ∈ before, Before line) (depth : Nat)
    (rest : List String) :
    Text.lines (Text.unlines (before ++ (Text.indent depth ++ "return (") :: rest)) =
        before ++ (Text.indent depth ++ "return (") :: Text.lines (Text.unlines rest) ∧
      (Jsx.skipGap (Text.indent depth ++ "return (").toList != "return (".toList) = false := by
  have opened : Jsx.skipGap (Text.indent depth ++ "return (").toList = "return (".toList := by
    rw [String.toList_append]
    exact skipGap_indent depth (by simp; decide)
  have plain : ∀ line ∈ before ++ [Text.indent depth ++ "return ("], '\n' ∉ line.toList :=
    List.forall_mem_append.mpr ⟨fun line member => (all line member).1,
      List.forall_mem_singleton.mpr (by simp [String.toList_append, oneLine_indent])⟩
  have lines := Text.lines_unlines_append plain rest
  rw [List.append_assoc, List.singleton_append, List.append_assoc, List.singleton_append] at lines
  exact ⟨lines, by rw [opened]; decide⟩

private theorem afterReturn?_unlines {before : List String} (all : ∀ line ∈ before, Before line) (depth : Nat)
    (rest : List String) :
    Jsx.afterReturn? (Text.unlines (before ++ (Text.indent depth ++ "return (") :: rest)) =
      some (Text.unlines rest) := by
  obtain ⟨lines, stop⟩ := lines_return all depth rest
  rw [Jsx.afterReturn?, lines, List.dropWhile_append_of_pos fun line member => (all line member).2,
    List.dropWhile_cons, if_neg (by rw [stop]; decide)]
  simp only [Text.intercalate_lines]

private theorem linesBeforeReturn_unlines {before : List String} (all : ∀ line ∈ before, Before line) (depth : Nat)
    (rest : List String) :
    Jsx.linesBeforeReturn (Text.unlines (before ++ (Text.indent depth ++ "return (") :: rest)) = before := by
  obtain ⟨lines, stop⟩ := lines_return all depth rest
  rw [Jsx.linesBeforeReturn, lines, List.takeWhile_append_of_pos fun line member => (all line member).2,
    List.takeWhile_cons, if_neg (by rw [stop]; decide), List.append_nil]

section Returned

variable {source : String} {m : Markup} {depth : Nat} {rest : List String}

theorem skipGap_returned (plain : m.Plain) :
    Jsx.skipGap (Text.unlines (m.lines (depth + 1) ++ (Text.indent depth ++ ");") :: rest)).toList =
      m.body (depth + 1) ++
        '\n' :: ((Text.indent depth).toList ++ (");".toList ++ '\n' :: (Text.unlines rest).toList)) := by
  have chars : (Text.unlines (m.lines (depth + 1) ++ (Text.indent depth ++ ");") :: rest)).toList =
      (Text.indent (depth + 1)).toList ++ (m.body (depth + 1) ++
        '\n' :: ((Text.indent depth).toList ++ (");".toList ++ '\n' :: (Text.unlines rest).toList))) := by
    simp [Text.toList_unlines_append, Markup.toList_lines, Text.toList_unlines_cons, String.toList_append]
  obtain ⟨c, cs, form, mark⟩ := head_body plain (depth + 1)
  have stop : Jsx.isGap c = false := by
    rcases (by simpa [Jsx.isDelimiter] using mark : ((c = '<' ∨ c = '>') ∨ c = '\x7b') ∨ c = '\x7d')
      with ((rfl | rfl) | rfl) | rfl <;> rfl
  rw [chars]
  exact skipGap_indent (depth + 1) (by simp [form, stop])

/-- The mark that closes what a component returns, without the white space before it. -/
theorem skipGap_closing (depth : Nat) (rest : List Char) :
    Jsx.skipGap ('\n' :: ((Text.indent depth).toList ++ (");".toList ++ rest))) = ");".toList ++ rest :=
  skipGap_indent depth (by simp; decide)

private theorem ofComponent?_of_lines (plain : m.Plain) (element : m.isElement = true)
    (after : Jsx.afterReturn? source =
      some (Text.unlines (m.lines (depth + 1) ++ (Text.indent depth ++ ");") :: rest))) :
    ∃ jsx, Jsx.ofComponent? source = some jsx ∧ jsx.outline = m.outline ∧
      ∀ around, jsx.nests around = m.nests around := by
  let text := Text.unlines (m.lines (depth + 1) ++ (Text.indent depth ++ ");") :: rest)
  have trimmed : Jsx.skipGap text.toList = m.body (depth + 1) ++
      '\n' :: ((Text.indent depth).toList ++ (");".toList ++ '\n' :: (Text.unlines rest).toList)) :=
    skipGap_returned plain
  have enough : (m.body (depth + 1)).length ≤ text.length := by
    have shorter := (List.dropWhile_sublist Jsx.isGap (l := text.toList)).length_le
    rw [show text.toList.dropWhile Jsx.isGap = _ from trimmed, List.length_append, String.length_toList] at shorter
    omega
  obtain ⟨tag, attributes, children, read, shape, nests⟩ :=
    Markup.readElement_body m plain element (depth + 1) text.length enough
      ('\n' :: ((Text.indent depth).toList ++ (");".toList ++ '\n' :: (Text.unlines rest).toList)))
  refine ⟨.element tag attributes children, ?_, shape, nests⟩
  rw [Jsx.ofComponent?, after]
  simp only [Option.bind_eq_bind, Option.bind_some]
  rw [trimmed, read]
  simp only [Option.bind_some, skipGap_closing, Text.after?_append]
  rfl

theorem ofComponent?_of_comment {text : String}
    (after : Jsx.afterReturn? source =
      some (Text.unlines ((Markup.comment text).lines (depth + 1) ++ (Text.indent depth ++ ");") :: rest))) :
    Jsx.ofComponent? source = none := by
  have unread (steps : Nat) (cs : List Char) : Jsx.readElement steps ('\x7b' :: cs) = none := by
    cases steps <;> rfl
  rw [Jsx.ofComponent?, after]
  simp only [Option.bind_eq_bind, Option.bind_some]
  rw [skipGap_returned (.comment text), Markup.body, String.toList_append, String.toList_append]
  exact congrArg (Option.bind · _) (unread _ _)

end Returned

theorem isElement_element (comments : Bool) {node : Node} (known : isKnown node = true) :
    (element comments .root node).isElement = true := by
  match node with
  | .leaf header kind =>
    cases kind with
    | unknown => cases known
    | rect | ellipse | text | image | line | path => rfl
  | .container _ _ [] => rfl
  | .container _ _ (_ :: _) => rfl

/-- The lines of a component before the one that opens what it returns. -/
def leadingLines (options : Options) (tree : Tree) : List String :=
  let shell := Shell.of options (componentName options.componentName)
  ["import React from 'react';", ""] ++ shell.opening
    ++ (markerName options.comments tree.root).toList.map fun name =>
      Text.indent shell.depth ++ "// " ++ commentText name

/-- The lines of a component after the one that closes what it returns. -/
def trailingLines (options : Options) : List String :=
  let name := componentName options.componentName
  (Shell.of options name).closing ++ ["", "export default " ++ name ++ ";"]

theorem oneLine_trailingLines (options : Options) : ∀ line ∈ trailingLines options, '\n' ∉ line.toList :=
  List.forall_mem_append.mpr ⟨forall_closing (by decide) options, List.forall_mem_cons.mpr ⟨by decide,
    List.forall_mem_singleton.mpr (by simp [String.toList_append, oneLine_componentName])⟩⟩

/-- A component is the markup of the root with lines around it: what opens it stands alone, and all lines before that
are other ones. -/
private theorem exists_form (options : Options) (tree : Tree) :
    ∃ depth, generate options tree = Text.unlines (leadingLines options tree ++ (Text.indent depth ++ "return (") ::
        ((element options.comments .root tree.root).lines (depth + 1)
          ++ (Text.indent depth ++ ");") :: trailingLines options)) ∧
      ∀ line ∈ leadingLines options tree, Before line := by
  let shell := Shell.of options (componentName options.componentName)
  refine ⟨shell.depth, ?_, ?_⟩
  · simp [generate, componentLines, bodyLines, leadingLines, trailingLines, shell]
  · refine List.forall_mem_append.mpr ⟨List.forall_mem_append.mpr
      ⟨by decide, before_opening options (oneLine_componentName options.componentName)⟩, fun line member => ?_⟩
    obtain ⟨name, -, rfl⟩ := List.mem_map.mp member
    exact before_marker shell.depth name

theorem aroundReturn_generate (options : Options) (tree : Tree) :
    Jsx.linesBeforeReturn (generate options tree) = leadingLines options tree ∧
      ∃ depth, Jsx.afterReturn? (generate options tree) =
        some (Text.unlines ((element options.comments .root tree.root).lines (depth + 1)
          ++ (Text.indent depth ++ ");") :: trailingLines options)) := by
  obtain ⟨depth, form, all⟩ := exists_form options tree
  rw [form]
  exact ⟨linesBeforeReturn_unlines all depth _, depth, afterReturn?_unlines all depth _⟩

/-- What stands after the line that opens what a component returns: the markup of the root, and the closing mark. -/
theorem afterReturn?_generate (options : Options) (tree : Tree) :
    ∃ depth rest, Jsx.afterReturn? (generate options tree) =
      some (Text.unlines ((element options.comments .root tree.root).lines (depth + 1)
        ++ (Text.indent depth ++ ");") :: rest)) := by
  obtain ⟨-, depth, after⟩ := aroundReturn_generate options tree
  exact ⟨depth, trailingLines options, after⟩

/-- What a component returns is read back, with the shape of its markup and the elements in it. -/
theorem exists_ofComponent? (options : Options) (tree : Tree) (known : isKnown tree.root = true) :
    ∃ jsx, Jsx.ofComponent? (generate options tree) = some jsx ∧
      jsx.outline = (element options.comments .root tree.root).outline ∧
      ∀ around, jsx.nests around = (element options.comments .root tree.root).nests around := by
  obtain ⟨depth, rest, after⟩ := afterReturn?_generate options tree
  exact ofComponent?_of_lines (plain_element options.comments .root tree.root)
    (isElement_element options.comments known) after

theorem nestsOf_generate (options : Options) (tree : Tree) :
    Jsx.nestsOf (generate options tree) = (element options.comments .root tree.root).nests [] := by
  cases known : isKnown tree.root with
  | true =>
    obtain ⟨jsx, read, -, nests⟩ := exists_ofComponent? options tree known
    simp only [Jsx.nestsOf, read, nests]
  | false =>
    obtain ⟨depth, rest, after⟩ := afterReturn?_generate options tree
    obtain ⟨header, type, root⟩ := exists_unknown known
    rw [root] at after ⊢
    have none : Jsx.ofComponent? (generate options tree) = none := ofComponent?_of_comment after
    rw [Jsx.nestsOf, none]
    rfl

/-- What a component returns is one element, which has the shape of the design: the texts of the design do not break
it. -/
theorem mirrors_generate (options : Options) (tree : Tree) (known : isKnown tree.root = true) :
    ∃ jsx, Jsx.ofComponent? (generate options tree) = some jsx ∧
      jsx.outline = outlineOf options.comments tree.root := by
  obtain ⟨jsx, read, shape, -⟩ := exists_ofComponent? options tree known
  exact ⟨jsx, read, shape.trans (outline_element options.comments .root tree.root)⟩

/-- A design whose texts are marks of markup. -/
def hostile : Tree where
  root := .container { id := "root" } (.panel .frame {}) [
    .container { id := "stack", name := some "*/\x7d</div>" } (.stack {}) [
      .leaf { id := "text" } (.text { text := "</span>\x7b\"&amp;'\x7d" }),
      .leaf { id := "image" } (.image { src := "\" onError=\x7bf()\x7d x=\"" })],
    .leaf { id := ");" } (.unknown "*/\x7d")]

/-- Each text stays in its place. -/
theorem mirrors_hostile :
    isKnown hostile.root = true ∧ ∃ jsx, Jsx.ofComponent? (generate {} hostile) = some jsx ∧
      jsx.outline = .element "div" [] [
        .comment " * /\x7d</div> ",
        .element "div" [] [
          .element "span" [] [.text "</span>\x7b\"&amp;'\x7d"],
          .element "img" [("src", "\" onError=\x7bf()\x7d x=\""), ("alt", "")] []],
        .comment " Unsupported node type: * /\x7d ();) "] :=
  ⟨rfl, mirrors_generate {} hostile rfl⟩

end Component

end Handoff.React
