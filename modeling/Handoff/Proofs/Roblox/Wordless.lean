import Handoff.Proofs.Design.Preorder
import Handoff.Proofs.Roblox.Pieces

set_option autoImplicit false
set_option relaxedAutoImplicit false

/-!
The words of a design in its script: the names, the texts and the sources of images.

They are in the literals of the script, node by node. Without them, the same design is drawn by the same statements, but
for the texts in them.
-/

namespace Handoff.Design

/-- A leaf without the words in it. -/
def Leaf.wordless : Leaf → Leaf
  | .text a => .text { a with text := "" }
  | .image a => .image { a with src := "" }
  | .unknown _ => .unknown ""
  | kind => kind

/-- Nobody's header: it has neither an id nor a name. -/
def Header.wordless (h : Header) : Header :=
  { h with id := "", name := none }

mutual

/-- A node without words, and none below it. -/
def Node.wordless : Node → Node
  | .leaf header kind => .leaf header.wordless kind.wordless
  | .container header kind children => .container header.wordless kind (Node.wordlessAll children)

def Node.wordlessAll : List Node → List Node
  | [] => []
  | node :: rest => node.wordless :: Node.wordlessAll rest

end

/-- A design without words. -/
def Tree.wordless (tree : Tree) : Tree :=
  { tree with root := tree.root.wordless }

end Handoff.Design

namespace Handoff.Roblox
open Design

def Options.wordless (options : Options) : Options :=
  { options with guiName := "" }

def Widget.wordless (w : Widget) : Widget :=
  ⟨w.cls, w.settings.map fun s => (s.1, s.2.wordless)⟩

def Widget.literals (w : Widget) : List String :=
  w.cls.name :: w.settings.flatMap fun s => s.2.literals

/-- The texts of a node that its main instance shows or loads, after its name. -/
def lookTexts : Leaf → List String
  | .text a => [a.text, fontAsset (a.fontFamily.getD "")]
  | .image a => [a.src]
  | _ => []

/-- The literals for a node: for its main instance the class, the name or else the id, and what it shows or loads, and
for each decoration the class. A node that is not drawn has none. -/
def nodeLiterals (node : Node) : List String :=
  match mainClass? node with
  | none => []
  | some cls =>
    cls.name :: node.header.displayName.getD node.header.id ::
      (match node with
        | .leaf _ kind => lookTexts kind
        | .container .. => [])
      ++ (decorationWidgets node).map fun w => w.cls.name

section Mute

def Mute (settings : List (Property × Value)) : Prop :=
  ∀ s ∈ settings, s.2.literals = []

private theorem Mute.of_all {settings : List (Property × Value)}
    (all : (settings.all fun s => s.2.literals.isEmpty) = true) : Mute settings :=
  fun s member => List.isEmpty_iff.mp (List.all_eq_true.mp all s member)

private theorem Mute.append {first second : List (Property × Value)} (before : Mute first) (after : Mute second) :
    Mute (first ++ second) :=
  List.forall_mem_append.mpr ⟨before, after⟩

private theorem Mute.literals {settings : List (Property × Value)} (mute : Mute settings) :
    (settings.flatMap fun s => s.2.literals) = [] :=
  List.flatMap_eq_nil_iff.mpr mute

private theorem Mute.wordless {settings : List (Property × Value)} (mute : Mute settings) :
    settings.map (fun s => (s.1, s.2.wordless)) = settings := by
  have same (s : Property × Value) (member : s ∈ settings) : (s.1, s.2.wordless) = s := by
    have none := mute s member
    obtain ⟨p, value⟩ := s
    cases value with
    | text => cases none
    | flag | count | ratio | length | offset | offsets | half | rgb | choice | font => rfl
  exact (List.map_congr_left same).trans (List.map_id settings)

private theorem mute_nonzero (p : Property) (x : Float) : Mute (nonzero p x) := by
  unfold nonzero
  split <;> exact .of_all rfl

private theorem mute_choice (p : Property) (item : Option String) : Mute (choiceSetting p item) := by
  cases item <;> exact .of_all rfl

private theorem mute_opacity (p : Property) (h : Header) :
    Mute (if h.effectiveOpacity < 1 then [(p, .ratio (transparency 1 h.effectiveOpacity))] else []) := by
  split <;> exact .of_all rfl

private theorem mute_background (h : Header) (paint : Option String) : Mute (backgroundSettings h paint) := by
  unfold backgroundSettings
  cases paint? paint <;> exact .of_all rfl

private theorem mute_clear : Mute clearSettings :=
  .of_all rfl

private theorem mute_textPaint (h : Header) (t : Label) : Mute (textPaint h t) := by
  unfold textPaint
  cases paint? t.color with
  | none => exact mute_opacity _ h
  | some c => exact List.forall_mem_cons.mpr ⟨rfl, mute_nonzero _ _⟩

private theorem mute_list (a : Stack) : Mute (listWidget a).settings := by
  unfold listWidget
  cases a.direction <;>
    exact .append (.append (.of_all rfl) (mute_choice _ _)) (mute_choice _ _)

private theorem mute_corner (radius : Option Float) : ∀ w ∈ cornerWidgets radius, Mute w.settings := by
  unfold cornerWidgets
  split
  · split
    · exact List.forall_mem_singleton.mpr (.of_all rfl)
    · exact List.forall_mem_nil _
  · exact List.forall_mem_nil _

private theorem mute_padding (padding : Option Padding) : ∀ w ∈ paddingWidgets padding, Mute w.settings := by
  unfold paddingWidgets
  split
  · exact List.forall_mem_singleton.mpr (.of_all rfl)
  · exact List.forall_mem_singleton.mpr (.of_all rfl)
  · exact List.forall_mem_nil _

private theorem mute_stroke (h : Header) (stroke : Option String) (width : Option Float) :
    ∀ w ∈ strokeWidgets h stroke width, Mute w.settings := by
  unfold strokeWidgets
  split
  · exact List.forall_mem_singleton.mpr (.append (.append (.of_all rfl) (mute_nonzero _ _))
      (.of_all rfl))
  · exact List.forall_mem_nil _

private theorem mute_decoration (node : Node) : ∀ w ∈ decorationWidgets node, Mute w.settings := by
  cases node with
  | container h kind children =>
    cases kind with
    | panel role a => exact List.forall_mem_append.mpr ⟨mute_corner a.radius, mute_padding a.padding⟩
    | stack a =>
      exact List.forall_mem_append.mpr ⟨mute_padding a.padding, List.forall_mem_singleton.mpr (mute_list a)⟩
    | grid a =>
      exact List.forall_mem_append.mpr ⟨mute_padding a.padding,
        List.forall_mem_singleton.mpr (.of_all rfl)⟩
  | leaf h kind =>
    cases kind with
    | rect a => exact List.forall_mem_append.mpr ⟨mute_corner a.radius, mute_stroke h a.stroke a.strokeWidth⟩
    | ellipse a =>
      exact List.forall_mem_cons.mpr ⟨.of_all rfl,
        mute_stroke h a.stroke a.strokeWidth⟩
    | image a => exact mute_corner a.radius
    | text | line | path | unknown => exact List.forall_mem_nil _

end Mute

section Widgets

private theorem literals_common (h : Header) (order : Option Nat) :
    ((commonSettings h order).flatMap fun s => s.2.literals) = [h.displayName.getD h.id] := by
  cases order <;> rfl

private theorem wordless_common (h : Header) (order : Option Nat) :
    (commonSettings h order).map (fun s => (s.1, s.2.wordless)) = commonSettings h.wordless order := by
  cases order <;> rfl

private theorem mute_clips (clips : Bool) :
    Mute (if clips then [(.clipsDescendants, .flag true)] else []) := by
  split <;> exact .of_all rfl

private theorem literals_frame (h : Header) (order : Option Nat) (paint : Option String) (clips : Bool) :
    (frameWidget h order paint clips).literals = ["Frame", h.displayName.getD h.id] := by
  simp only [Widget.literals, frameWidget, List.flatMap_append, literals_common, (mute_background h paint).literals,
    (mute_clips clips).literals, List.append_nil]
  rfl

private theorem wordless_frame (h : Header) (order : Option Nat) (paint : Option String) (clips : Bool) :
    frameWidget h.wordless order paint clips = (frameWidget h order paint clips).wordless := by
  simp only [Widget.wordless, frameWidget, List.map_append, wordless_common, (mute_background h paint).wordless,
    (mute_clips clips).wordless]
  rfl

private theorem literals_main (order : Option Nat) (node : Node) {w : Widget} (main : mainWidget? order node = some w) :
    w.literals ++ (decorationWidgets node).map (fun w => w.cls.name) = nodeLiterals node := by
  cases node with
  | container h kind children =>
    obtain rfl := Option.some.inj main
    cases kind <;> exact congrArg (· ++ _) (literals_frame h order _ _)
  | leaf h kind =>
    cases kind with
    | rect | ellipse =>
      obtain rfl := Option.some.inj main
      exact congrArg (· ++ _) (literals_frame h order _ _)
    | text a =>
      obtain rfl := Option.some.inj main
      have type : ([(.textSize, .length a.resolvedFontSize), (.fontFace, fontValue a),
          (.textXAlignment, .choice "TextXAlignment" (textSide a.align)), (.textWrapped, .flag true)] :
          List (Property × Value)).flatMap (fun s => s.2.literals) = [fontAsset (a.fontFamily.getD "")] := rfl
      simp only [Widget.literals, labelWidget, List.flatMap_append, literals_common, mute_clear.literals,
        (mute_textPaint h a).literals, type]
      rfl
    | image a =>
      obtain rfl := Option.some.inj main
      simp only [Widget.literals, imageWidget, List.flatMap_append, literals_common, mute_clear.literals,
        (mute_opacity _ h).literals, List.append_nil]
      rfl
    | line | path | unknown => cases main

private theorem wordless_main (order : Option Nat) (node : Node) :
    mainWidget? order node.wordless = (mainWidget? order node).map Widget.wordless := by
  cases node with
  | container h kind children =>
    cases kind <;> exact congrArg some (wordless_frame h order _ _)
  | leaf h kind =>
    cases kind with
    | rect | ellipse => exact congrArg some (wordless_frame h order _ _)
    | text a =>
      have same : labelWidget h.wordless order { a with text := "" } = (labelWidget h order a).wordless := by
        simp only [Widget.wordless, labelWidget, List.map_append, wordless_common, mute_clear.wordless,
          (mute_textPaint h a).wordless]
        rfl
      exact congrArg some same
    | image a =>
      have same : imageWidget h.wordless order { a with src := "" } = (imageWidget h order a).wordless := by
        simp only [Widget.wordless, imageWidget, List.map_append, wordless_common, mute_clear.wordless,
          (mute_opacity _ h).wordless]
        rfl
      exact congrArg some same
    | line | path | unknown => rfl

private theorem decorationWidgets_wordless (node : Node) :
    decorationWidgets node.wordless = decorationWidgets node := by
  cases node with
  | container h kind children => cases kind <;> rfl
  | leaf h kind => cases kind <;> rfl

end Widgets

section Literals

private theorem literals_statements (w : Widget) (v parent : Variable) :
    (w.statements v parent).flatMap Statement.literals = w.literals := by
  have settings : (w.settings.map fun s => Statement.set v s.1 s.2).flatMap Statement.literals =
      w.settings.flatMap fun s => s.2.literals := List.flatMap_map ..
  rw [Widget.statements, List.flatMap_append, List.flatMap_cons, settings]
  exact List.append_nil _

private theorem literals_decorate (target : Variable) (last : Nat) {ws : List Widget}
    (mute : ∀ w ∈ ws, Mute w.settings) :
    (decorate target last ws).flatten.flatMap Statement.literals = ws.map fun w => w.cls.name := by
  induction ws generalizing last with
  | nil => rfl
  | cons w ws ih =>
    obtain ⟨first, others⟩ := List.forall_mem_cons.mp mute
    rw [decorate, List.flatten_cons, List.flatMap_append, literals_statements, ih (last + 1) others, Widget.literals,
      first.literals]
    rfl

mutual

/-- The literals in the statements that draw a node are those for the nodes from there down. -/
theorem literals_draw (parent : Variable) (order : Option Nat) (last : Nat) (node : Node) :
    (statements (draw parent order last node).script).flatMap Statement.literals =
      node.preorder.flatMap nodeLiterals := by
  cases node with
  | leaf header kind =>
    have mute : ∀ w ∈ leafDecorations header kind, Mute w.settings := mute_decoration (.leaf header kind)
    rw [Node.preorder, List.flatMap_singleton, draw]
    cases main : leafWidget? header order kind with
    | none =>
      cases kind with
      | line | path | unknown => rfl
      | rect | ellipse | text | image => cases main
    | some w =>
      rw [← literals_main order (.leaf header kind) main]
      simp only [statements, List.flatMap_singleton, List.flatMap_append, literals_statements,
        literals_decorate _ _ mute]
      rfl
  | container header kind children =>
    have mute : ∀ w ∈ containerDecorations header kind, Mute w.settings :=
      mute_decoration (.container header kind children)
    rw [Node.preorder, List.flatMap_cons, draw, statements_append, statements_append, statements_map_statement,
      statements_map_block, List.flatMap_append, List.flatMap_append, literals_statements,
      literals_decorate _ _ mute, literals_drawAll _ _ _ _ children,
      ← literals_main order (.container header kind children) rfl]
    rfl

theorem literals_drawAll (parent : Variable) (ranked : Bool) (rank last : Nat) (nodes : List Node) :
    (statements (drawAll parent ranked rank last nodes).script).flatMap Statement.literals =
      (Node.preorders nodes).flatMap nodeLiterals := by
  cases nodes with
  | nil => rfl
  | cons node rest =>
    rw [drawAll, statements_append, List.flatMap_append, literals_draw _ _ _ node, literals_drawAll _ _ _ _ rest,
      Node.preorders, List.flatMap_append]

end

/-- The literals of a design's script: what the player's screens are found with, the class and the name of the screen,
and those for each node in the order of visits. -/
theorem literals_scriptOf (options : Options) (tree : Tree) :
    (statements (scriptOf options tree).script).flatMap Statement.literals =
      ["Players", "PlayerGui", "ScreenGui", options.guiName] ++ tree.root.preorder.flatMap nodeLiterals := by
  rw [scriptOf, statements_append, preamble, statements_map_statement, List.flatMap_append, List.flatMap_append,
    literals_statements, literals_draw]
  rfl

end Literals

section Drawings

private theorem statements_wordless (w : Widget) (v parent : Variable) :
    w.wordless.statements v parent = (w.statements v parent).map Statement.wordless := by
  simp [Widget.statements, Widget.wordless, Statement.wordless, Function.comp_def]

private theorem decorate_wordless (target : Variable) (last : Nat) {ws : List Widget}
    (mute : ∀ w ∈ ws, Mute w.settings) :
    (decorate target last ws).map (List.map Statement.wordless) = decorate target last ws := by
  induction ws generalizing last with
  | nil => rfl
  | cons w ws ih =>
    obtain ⟨first, others⟩ := List.forall_mem_cons.mp mute
    have same : w.wordless = w := by rw [Widget.wordless, first.wordless]
    rw [decorate, List.map_cons, ← statements_wordless, same, ih (last + 1) others]

/-- Two drawings with the same numbers, the second of which has no words. -/
private structure Wordless (drawing wordless : Drawing) : Prop where
  script : wordless.script = drawing.script.map Chunk.wordless
  last : wordless.last = drawing.last

mutual

private theorem draw_wordless (parent : Variable) (order : Option Nat) (last : Nat) (node : Node) :
    Wordless (draw parent order last node) (draw parent order last node.wordless) := by
  have main := wordless_main order node
  have decorations := decorationWidgets_wordless node
  cases node with
  | leaf header kind =>
    have mute : ∀ w ∈ leafDecorations header kind, Mute w.settings := mute_decoration (.leaf header kind)
    have same : leafDecorations header.wordless kind.wordless = leafDecorations header kind := decorations
    have made : leafWidget? header.wordless order kind.wordless =
        (leafWidget? header order kind).map Widget.wordless := main
    rw [Node.wordless, draw, draw, made, same]
    cases leafWidget? header order kind with
    | none => exact ⟨rfl, rfl⟩
    | some w =>
      have body := decorate_wordless (.numbered w.cls (last + 1)) (last + 1) mute
      refine ⟨?_, rfl⟩
      simp only [Option.map_some, statements_wordless, List.map_cons, List.map_nil, Chunk.wordless, List.map_append,
        List.map_flatten, body]
      rfl
  | container header kind children =>
    have mute : ∀ w ∈ containerDecorations header kind, Mute w.settings :=
      mute_decoration (.container header kind children)
    have same : containerDecorations header.wordless kind = containerDecorations header kind := decorations
    have made : containerWidget header.wordless order kind = (containerWidget header order kind).wordless :=
      Option.some.inj main
    have body := decorate_wordless (.numbered (containerWidget header order kind).cls (last + 1)) (last + 1) mute
    have below := drawAll_wordless (.numbered (containerWidget header order kind).cls (last + 1)) (ranksChildren kind) 1
      (last + 1 + (containerDecorations header kind).length) children
    rw [Node.wordless, draw, draw, made, same]
    refine ⟨?_, below.last⟩
    have blocks (bodies : List (List Statement)) : (bodies.map Chunk.block).map Chunk.wordless =
        (bodies.map (List.map Statement.wordless)).map Chunk.block := by
      simp [Function.comp_def, Chunk.wordless]
    have row (list : List Statement) : (list.map Chunk.statement).map Chunk.wordless =
        (list.map Statement.wordless).map Chunk.statement := by
      simp [Function.comp_def, Chunk.wordless]
    rw [List.map_append, List.map_append, row, blocks, body, ← statements_wordless, ← below.script]
    rfl

private theorem drawAll_wordless (parent : Variable) (ranked : Bool) (rank last : Nat) (nodes : List Node) :
    Wordless (drawAll parent ranked rank last nodes) (drawAll parent ranked rank last (Node.wordlessAll nodes)) := by
  cases nodes with
  | nil => exact ⟨rfl, rfl⟩
  | cons node rest =>
    have here := draw_wordless parent (if ranked then some rank else none) last node
    have after := drawAll_wordless parent ranked (rank + 1) (draw parent (if ranked then some rank else none) last
      node).last rest
    rw [Node.wordlessAll, drawAll, drawAll, here.last]
    refine ⟨?_, after.last⟩
    simp only [here.script, after.script, List.map_append]

end

/-- The script of a design without words is that of the design, but for the words. -/
theorem scriptOf_wordless (options : Options) (tree : Tree) :
    (scriptOf options.wordless tree.wordless).script = (scriptOf options tree).script.map Chunk.wordless := by
  rw [scriptOf, scriptOf, List.map_append, ← (draw_wordless .screenGui none 0 tree.root).script]
  rfl

end Drawings

end Handoff.Roblox
