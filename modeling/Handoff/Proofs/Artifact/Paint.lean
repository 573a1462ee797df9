import Handoff.Proofs.React.Elements
import Handoff.Proofs.Roblox.Rebuilding

set_option autoImplicit false
set_option relaxedAutoImplicit false

/-!
Both outputs of a design paint its nodes alike.

A paint counts where it is there and is a color, a radius where it is there and above zero. From these alone it follows
which entries, classes, properties and decorations a node leads to, whatever else it has.
-/

namespace Handoff

namespace Design

/-- True of a paint that is there and is a color. -/
def IsColor (paint : Option String) : Prop :=
  ∃ s ∈ paint, (Rgba.parse? s).isSome = true

/-- True of a radius that is there and above zero. -/
def IsRound (radius : Option Float) : Prop :=
  ∃ r ∈ radius, 0 < r

namespace Node

/-- What a node is filled with. -/
def fill : Node → Option String
  | .container _ (.panel _ a) _ => a.background
  | .container _ (.stack a) _ => a.background
  | .container _ (.grid a) _ => a.background
  | .leaf _ (.rect a) => a.fill
  | .leaf _ (.ellipse a) => a.fill
  | .leaf _ (.path _ a) => a.fill
  | .leaf _ _ => none

def stroke : Node → Option String
  | .leaf _ (.rect a) => a.stroke
  | .leaf _ (.ellipse a) => a.stroke
  | .leaf _ (.line a) => a.stroke
  | .leaf _ (.path _ a) => a.stroke
  | _ => none

def ink : Node → Option String
  | .leaf _ (.text a) => a.color
  | _ => none

def radius : Node → Option Float
  | .container _ (.panel _ a) _ => a.radius
  | .leaf _ (.rect a) => a.radius
  | .leaf _ (.image a) => a.radius
  | _ => none

end Node

theorem not_isColor_none : ¬ IsColor none := by
  rintro ⟨s, member, -⟩
  cases member

theorem not_isRound_none : ¬ IsRound none := by
  rintro ⟨r, member, -⟩
  cases member

end Design

namespace React
open Design

section Keys

private def keys (style : Style) : List String :=
  style.map Prod.fst

variable (key : String)

@[simp]
private theorem keys_append (first second : Style) : keys (first ++ second) = keys first ++ keys second :=
  List.map_append

@[simp]
private theorem mem_keys_numberEntry (name : String) (x : Option Float) :
    key ∈ keys (numberEntry name x) ↔ key = name ∧ x.isSome := by
  cases x <;> simp [numberEntry, keys]

@[simp]
private theorem mem_keys_textEntry (name : String) (s : Option String) :
    key ∈ keys (textEntry name s) ↔ key = name ∧ s.isSome := by
  cases s <;> simp [textEntry, keys]

@[simp]
private theorem isSome_paintOf (paint : Option String) : (paintOf paint).isSome ↔ IsColor paint := by
  cases paint <;> simp [paintOf, IsColor, Option.isSome_filter]

@[simp]
private theorem isSome_roundness (radius : Option Float) : (roundness radius).isSome ↔ IsRound radius := by
  cases radius <;> simp [roundness, IsRound, Option.isSome_filter]

@[simp]
private theorem mem_keys_background (paint : Option String) :
    key ∈ keys (background paint) ↔ key = "backgroundColor" ∧ IsColor paint := by
  rw [background, mem_keys_textEntry, isSome_paintOf]

@[simp]
private theorem mem_keys_cornerEntry (radius : Option Float) :
    key ∈ keys (cornerEntry radius) ↔ key = "borderRadius" ∧ IsRound radius := by
  rw [cornerEntry, mem_keys_numberEntry, isSome_roundness]

@[simp]
private theorem mem_keys_border (stroke : Option String) (width : Option Float) :
    key ∈ keys (border stroke width) ↔
      (key = "borderWidth" ∨ key = "borderStyle" ∨ key = "borderColor") ∧ IsColor stroke := by
  rw [border, ← isSome_paintOf]
  cases paintOf stroke <;> simp [keys]

def paintKeys : List String :=
  ["backgroundColor", "borderColor", "color", "borderRadius"]

variable {key}

private theorem not_mem_keys {names : List String} {style : Style} (among : KeysIn names style)
    (other : ∀ name ∈ names, name ∉ paintKeys) (painted : key ∈ paintKeys) : key ∉ keys style := by
  intro member
  obtain ⟨entry, held, rfl⟩ := List.mem_map.mp member
  exact among.apart other entry held painted

private theorem keys_look (name : String) (classes : List String) (style : Style) :
    (tagView name (look classes style)).style.map Prod.fst = keys style := by
  rw [style_look, List.map_map]
  rfl

/-- What each kind of node is painted with shows in the keys of its style, and nothing else does. -/
theorem mem_keys_tagOf (placement : Placement) (node : Node) (drawn : (Roblox.mainClass? node).isSome = true)
    (painted : key ∈ paintKeys) :
    key ∈ (tagOf placement node).style.map Prod.fst ↔
      (key = "backgroundColor" ∧ IsColor node.fill) ∨ (key = "borderColor" ∧ IsColor node.stroke) ∨
        (key = "color" ∧ IsColor node.ink) ∨ (key = "borderRadius" ∧ IsRound node.radius) := by
  have placed (h : Header) := not_mem_keys (keysIn_geometry h placement) (by decide) painted
  have faded (h : Header) : key ∉ keys (opacityEntry h) := not_mem_keys (keysIn_number _ _) (by decide) painted
  have padded (padding : Option Padding) := not_mem_keys (keysIn_padding padding) (by decide) painted
  have sized (t : Label) := not_mem_keys (keysIn_size t) (by decide) painted
  have weighted (weight : Option FontWeight) := not_mem_keys (keysIn_weight weight) (by decide) painted
  have apart {name : String} (other : name ∉ paintKeys) : key ≠ name := fun same => other (same ▸ painted)
  have gap := apart (by decide : "gap" ∉ paintKeys)
  have family := apart (by decide : "fontFamily" ∉ paintKeys)
  have width := apart (by decide : "borderWidth" ∉ paintKeys)
  have solid := apart (by decide : "borderStyle" ∉ paintKeys)
  unfold tagOf
  cases node with
  | container h kind children =>
    cases kind <;>
      simp [lookOf, containerLook, keys_look, placed, faded, padded, gap, Node.fill, Node.stroke, Node.ink,
        Node.radius, not_isColor_none, not_isRound_none]
  | leaf h kind =>
    cases kind with
    | rect a =>
      simp [lookOf, rectLook, keys_look, placed, faded, width, solid, Node.fill, Node.stroke, Node.ink, Node.radius,
        not_isColor_none]
    | ellipse a =>
      simp [lookOf, ellipseLook, keys_look, placed, faded, width, solid, Node.fill, Node.stroke, Node.ink, Node.radius,
        not_isColor_none, not_isRound_none]
    | text a =>
      simp [lookOf, labelLook, keys_look, placed, faded, sized, weighted, family, Node.fill, Node.stroke, Node.ink,
        Node.radius, not_isColor_none, not_isRound_none]
    | image a =>
      simp [lookOf, imageLook, style_text, keys_look, placed, faded, Node.fill, Node.stroke, Node.ink, Node.radius,
        not_isColor_none]
    | line | path | unknown => cases drawn

end Keys

section Classes

@[simp]
private theorem mem_roundedClass (radius : Option Float) : "rounded" ∈ roundedClass radius ↔ IsRound radius := by
  rw [roundedClass, ← isSome_roundness]
  split <;> simp_all

@[simp]
private theorem rounded_not_mem_placement (placement : Placement) : "rounded" ∉ placement.classes := by
  cases placement <;> decide

theorem rounded_mem_tagOf (placement : Placement) (node : Node) (drawn : (Roblox.mainClass? node).isSome = true) :
    "rounded" ∈ (tagOf placement node).classes ↔ IsRound node.radius := by
  cases node with
  | container h kind children =>
    cases kind with
    | panel role a =>
      rw [classes_lookOf rfl]
      cases role <;> simp [Node.radius]
    | stack a =>
      rw [classes_lookOf rfl]
      have direction : directionClass a.direction ≠ "rounded" := by cases a.direction <;> decide
      have aligned : ∀ x, alignClass x ≠ "rounded" := by rintro (_ | _) <;> decide
      have justified : ∀ x, justifyClass x ≠ "rounded" := by rintro (_ | _) <;> decide
      simp [Node.radius, not_isRound_none, direction.symm, aligned, justified]
    | grid a =>
      have columns := not_mem_gridClasses (by decide : "rounded".toList.head? ≠ some 'g')
      rw [classes_lookOf rfl, List.mem_append]
      simp only [rounded_not_mem_placement, columns, Node.radius, not_isRound_none, or_self]
  | leaf h kind =>
    cases kind with
    | rect a => rw [classes_lookOf rfl]; simp [Node.radius]
    | ellipse a => rw [classes_lookOf rfl]; simp [Node.radius, not_isRound_none]
    | text a =>
      rw [classes_lookOf rfl]
      have aligned : ∀ x, textAlignClass x ≠ "rounded" := by rintro (_ | _) <;> decide
      simp [Node.radius, not_isRound_none, aligned]
    | image a =>
      have fitted : ∀ fit : ObjectFit, "object-" ++ fit.name ≠ "rounded" := by rintro (_ | _) <;> decide
      rw [classes_image]
      simp [Node.radius, fitted]
    | line | path | unknown => cases drawn

end Classes

end React

namespace Roblox
open Design

section Settings

@[simp]
private theorem isSome_paint? (paint : Option String) : (paint? paint).isSome ↔ IsColor paint := by
  cases paint <;> simp [paint?, IsColor]

private structure Painted (w : Widget) (fill ink : Option String) : Prop where
  filled : given .backgroundColor w.settings ≠ [] ↔ IsColor fill
  clear : ¬ IsColor fill → given .backgroundTransparency w.settings = [.count 1]
  inked : given .textColor w.settings ≠ [] ↔ IsColor ink

private theorem given_common (h : Header) (order : Option Nat) :
    given .backgroundColor (commonSettings h order) = [] ∧
      given .backgroundTransparency (commonSettings h order) = [] ∧
      given .textColor (commonSettings h order) = [] := by
  cases order <;> exact ⟨rfl, rfl, rfl⟩

private theorem painted_frame (h : Header) (order : Option Nat) (paint : Option String) (clips : Bool) :
    Painted (frameWidget h order paint clips) paint none := by
  obtain ⟨fill, clear, ink⟩ := given_common h order
  have color := isSome_paint? paint
  refine ⟨?_, fun absent => ?_, ?_⟩
  · rw [← color, frameWidget, backgroundSettings, given_append, given_append, fill]
    cases paint? paint <;> cases clips <;> simp
  · rw [← color, Option.not_isSome_iff_eq_none] at absent
    rw [frameWidget, backgroundSettings, given_append, given_append, clear, absent]
    cases clips <;> rfl
  · rw [frameWidget, backgroundSettings, given_append, given_append, ink]
    cases paint? paint <;> cases clips <;> simp [not_isColor_none]

private theorem given_nonzero {p q : Property} (other : q ≠ p) (x : Float) : given p (nonzero q x) = [] := by
  unfold nonzero
  split
  · rfl
  · rw [given_cons, if_neg other, given_nil]

private theorem painted_label (h : Header) (order : Option Nat) (t : Label) :
    Painted (labelWidget h order t) none t.color := by
  obtain ⟨fill, clear, ink⟩ := given_common h order
  have color := isSome_paint? t.color
  have plain : given .backgroundColor (textPaint h t) = [] ∧ given .backgroundTransparency (textPaint h t) = [] := by
    unfold textPaint
    split
    · simp [given_nonzero]
    · split <;> exact ⟨rfl, rfl⟩
  have inked : given .textColor (textPaint h t) ≠ [] ↔ IsColor t.color := by
    rw [← color]
    unfold textPaint
    cases paint? t.color with
    | none => simp only [Option.isSome_none]; split <;> simp
    | some c => simp
  constructor
  · simp [labelWidget, clearSettings, fill, plain, not_isColor_none]
  · simp [labelWidget, clearSettings, clear, plain]
  · rw [← inked]
    simp [labelWidget, clearSettings, ink]

private theorem painted_image (h : Header) (order : Option Nat) (i : Image) :
    Painted (imageWidget h order i) none none := by
  obtain ⟨fill, clear, ink⟩ := given_common h order
  constructor
  · simp only [imageWidget, clearSettings, given_append, fill]
    split <;> simp [not_isColor_none]
  · intro _
    simp only [imageWidget, clearSettings, given_append, clear]
    split <;> rfl
  · simp only [imageWidget, clearSettings, given_append, ink]
    split <;> simp [not_isColor_none]

private theorem painted_mainWidget {order : Option Nat} {node : Node} {w : Widget}
    (main : mainWidget? order node = some w) : Painted w node.fill node.ink := by
  cases node with
  | container h kind children =>
    obtain rfl := Option.some.inj main
    cases kind <;> exact painted_frame h order _ _
  | leaf h kind =>
    cases kind with
    | rect a | ellipse a =>
      obtain rfl := Option.some.inj main
      exact painted_frame h order _ _
    | text a =>
      obtain rfl := Option.some.inj main
      exact painted_label h order a
    | image a =>
      obtain rfl := Option.some.inj main
      exact painted_image h order a
    | line | path | unknown => cases main

end Settings

section Decorations

/-- True of corners with a radius in pixels, and not of those that meet. -/
def Instance.IsPixelCorner (i : Instance) : Prop :=
  i.cls = .corner ∧ ∃ radius, i.value? "CornerRadius" = some ("UDim.new(0," ++ radius ++ ")")

private theorem exists_stroke (h : Header) (stroke : Option String) (width : Option Float) :
    (∃ w ∈ strokeWidgets h stroke width, w.cls = .stroke) ↔ IsColor stroke := by
  rw [← isSome_paint?, strokeWidgets]
  cases paint? stroke <;> simp

variable (units : Units) (main : Thing)

private theorem isPixelCorner_of_offset (radius : Float) :
    (Widget.under units ⟨.corner, [(.cornerRadius, .offset radius)]⟩ main).IsPixelCorner := by
  refine ⟨rfl, lengthText units radius, ?_⟩
  rw [show "CornerRadius" = Property.label .cornerRadius from rfl, value?_under]
  rfl

private theorem exists_corner (radius : Option Float) :
    (∃ w ∈ cornerWidgets radius, (w.under units main).IsPixelCorner) ↔ IsRound radius := by
  cases radius with
  | none => simp [cornerWidgets, not_isRound_none]
  | some r =>
    by_cases round : 0 < r
    · rw [cornerWidgets, if_pos round]
      exact iff_of_true ⟨_, List.mem_singleton_self _, isPixelCorner_of_offset units main r⟩ ⟨r, rfl, round⟩
    · rw [cornerWidgets, if_neg round]
      exact iff_of_false (by simp) (by rintro ⟨_, ⟨⟩, above⟩; exact round above)

private theorem not_isPixelCorner_round : ¬ (roundWidget.under units main).IsPixelCorner := by
  rintro ⟨-, radius, same⟩
  rw [show "CornerRadius" = Property.label .cornerRadius from rfl, value?_under] at same
  have text : "UDim.new(0.5,0)" = "UDim.new(0," ++ radius ++ ")" := Option.some.inj same
  have mark := congrArg (fun s => s.toList[10]?) text
  simp [String.toList_append] at mark

/-- Only corners of a radius and outlines tell drawn nodes apart: the other decorations are layouts, paddings, and the
corners of an ellipse. -/
private theorem exists_decoration {node : Node} (drawn : (mainClass? node).isSome = true) {P : Widget → Prop}
    (round : ¬ P roundWidget) (plain : ∀ w, w.cls ∈ [Class.padding, .listLayout, .gridLayout] → ¬ P w) :
    ∃ h width, (∃ w ∈ decorationWidgets node, P w) ↔
      (∃ w ∈ cornerWidgets node.radius, P w) ∨ ∃ w ∈ strokeWidgets h node.stroke width, P w := by
  have padding (p : Option Padding) : ¬ ∃ w ∈ paddingWidgets p, P w := by
    rintro ⟨w, member, held⟩
    refine plain w ?_ held
    rw [cls_mem_paddingWidgets p w member]
    decide
  have list (a : Stack) : ¬ P (listWidget a) := plain _ (by simp only [listWidget]; decide)
  have grid (h : Header) (a : Grid) : ¬ P (gridWidget h a) := plain _ (by simp only [gridWidget]; decide)
  have either (first second : List Widget) : (∃ w ∈ first ++ second, P w) ↔
      (∃ w ∈ first, P w) ∨ ∃ w ∈ second, P w := by
    simp only [List.mem_append, or_and_right, exists_or]
  have unstroked (h : Header) : strokeWidgets h none none = [] := rfl
  cases node with
  | container h kind children =>
    refine ⟨h, none, ?_⟩
    cases kind <;>
      simp [decorationWidgets, containerDecorations, -List.mem_append, either, padding, list, grid, Node.stroke,
        Node.radius, unstroked, cornerWidgets]
  | leaf h kind =>
    cases kind with
    | rect a => exact ⟨h, a.strokeWidth, either _ _⟩
    | ellipse a =>
      refine ⟨h, a.strokeWidth, ?_⟩
      simp [decorationWidgets, leafDecorations, round, Node.stroke, Node.radius, cornerWidgets]
    | text a => exact ⟨h, none, by simp [decorationWidgets, leafDecorations, Node.stroke, Node.radius, unstroked,
        cornerWidgets]⟩
    | image a => exact ⟨h, none, by simp [decorationWidgets, leafDecorations, Node.stroke, Node.radius, unstroked]⟩
    | line | path | unknown => cases drawn

private theorem exists_stroke_decoration {node : Node} (drawn : (mainClass? node).isSome = true) :
    (∃ w ∈ decorationWidgets node, w.cls = .stroke) ↔ IsColor node.stroke := by
  have corner : ¬ ∃ w ∈ cornerWidgets node.radius, w.cls = .stroke := by
    rintro ⟨w, member, cls⟩
    rw [cls_mem_cornerWidgets node.radius w member] at cls
    cases cls
  obtain ⟨h, width, only⟩ := exists_decoration drawn (P := fun w => w.cls = .stroke) (by decide)
    (fun w other cls => by rw [cls] at other; exact absurd other (by decide))
  rw [only, exists_stroke]
  exact or_iff_right corner

private theorem exists_corner_decoration {node : Node} (drawn : (mainClass? node).isSome = true) :
    (∃ w ∈ decorationWidgets node, (w.under units main).IsPixelCorner) ↔ IsRound node.radius := by
  obtain ⟨h, width, only⟩ := exists_decoration drawn (P := fun w => (w.under units main).IsPixelCorner)
    (not_isPixelCorner_round units main)
    (fun w other corner => by rw [show w.cls = .corner from corner.1] at other; exact absurd other (by decide))
  have stroke : ¬ ∃ w ∈ strokeWidgets h node.stroke width, (w.under units main).IsPixelCorner := by
    rintro ⟨w, member, corner⟩
    have cls : w.cls = .corner := corner.1
    rw [cls_mem_strokeWidgets h node.stroke width w member] at cls
    cases cls
  rw [only, exists_corner]
  exact or_iff_left stroke

end Decorations

end Roblox

open Design

/-- What both outputs say of the paint of a node: its element, its own instance and what decorates that. -/
structure PaintedAlike (node : Node) (tag : React.Tag) (main : Roblox.Instance)
    (decorations : List Roblox.Instance) : Prop where
  fill_element : "backgroundColor" ∈ tag.style.map Prod.fst ↔ IsColor node.fill
  fill_instance : (main.value? "BackgroundColor3").isSome = true ↔ IsColor node.fill
  clear_instance : ¬ IsColor node.fill → main.value? "BackgroundTransparency" = some "1"
  stroke_element : "borderColor" ∈ tag.style.map Prod.fst ↔ IsColor node.stroke
  stroke_decoration : (∃ d ∈ decorations, d.cls = .stroke) ↔ IsColor node.stroke
  ink_element : "color" ∈ tag.style.map Prod.fst ↔ IsColor node.ink
  ink_instance : (main.value? "TextColor3").isSome = true ↔ IsColor node.ink
  radius_class : "rounded" ∈ tag.classes ↔ IsRound node.radius
  radius_element : "borderRadius" ∈ tag.style.map Prod.fst ↔ IsRound node.radius
  radius_decoration : (∃ d ∈ decorations, d.IsPixelCorner) ↔ IsRound node.radius

section Alike

variable (units : Roblox.Units)

private theorem paintedAlike_of_main {node : Node} (placement : React.Placement) {order : Option Nat}
    {w : Roblox.Widget} (own : Roblox.mainWidget? order node = some w)
    (drawn : (Roblox.mainClass? node).isSome = true) (holder main : Roblox.Thing) :
    PaintedAlike node (React.tagOf placement node) (w.under units holder)
      ((Roblox.decorationWidgets node).map (·.under units main)) := by
  have painted := Roblox.painted_mainWidget own
  have isSome (p : Roblox.Property) :
      ((w.under units holder).value? p.label).isSome = true ↔ Roblox.given p w.settings ≠ [] := by
    rw [Roblox.value?_under, Option.isSome_map, List.getLast?_isSome]
  constructor
  · rw [React.mem_keys_tagOf placement node drawn (by decide)]
    simp
  · exact (isSome .backgroundColor).trans painted.filled
  · intro unfilled
    rw [show "BackgroundTransparency" = Roblox.Property.label .backgroundTransparency from rfl, Roblox.value?_under,
      painted.clear unfilled]
    rfl
  · rw [React.mem_keys_tagOf placement node drawn (by decide)]
    simp
  · simpa [Roblox.Widget.under] using Roblox.exists_stroke_decoration drawn
  · rw [React.mem_keys_tagOf placement node drawn (by decide)]
    simp
  · exact (isSome .textColor).trans painted.inked
  · exact React.rounded_mem_tagOf placement node drawn
  · rw [React.mem_keys_tagOf placement node drawn (by decide)]
    simp
  · simpa using Roblox.exists_corner_decoration units main drawn

end Alike

/-- The component and the script of a design agree on what is painted. The elements of the component are those of the
nodes of known types, in the order of visits; where such a node also has an instance, the one that the script makes for
it is painted as its element is, and as the node asks for. No paint, and a paint that is no color, paint nothing. -/
theorem component_script_paint_alike (react : React.Options) (roblox : Roblox.Options) (units : Roblox.Units)
    (tree : Tree) :
    Text.lines (Roblox.generate roblox units tree) =
        (Roblox.scriptOf roblox tree).script.flatMap (Roblox.Chunk.lines units) ++ [""] ∧
      ∃ (final : Roblox.Machine) (list : List Roblox.Figure),
        Roblox.Machine.execute units (Roblox.scriptOf roblox tree).script {} = some final ∧
        final.made = list.map Roblox.Figure.made ∧ Roblox.Rebuilds units tree.root list ∧
        List.Forall₂ (fun t nest => (Roblox.mainClass? t.node).isSome = true →
            ∃ tag main, nest.getLast? = some tag ∧ Roblox.instancesAt list (.main t.address) = [main] ∧
              PaintedAlike t.node tag main (Roblox.instancesAt list (.decoration t.address)))
          ((tree.root.trails [] []).filter fun t => React.isKnown t.node)
          (React.Jsx.nestsOf (React.generate react tree)) ∧
        ¬ IsColor none ∧ ¬ IsColor (some "transparent") := by
  obtain ⟨locals, run⟩ := Roblox.execute_scriptOf roblox units tree
  refine ⟨Roblox.lines_generate roblox units tree, _, Roblox.screenFigures roblox units tree, run, rfl,
    Roblox.rebuilds_screenFigures roblox units tree, ?_, not_isColor_none, ?_⟩
  · rw [React.nestsOf_eq_map_trails, List.forall₂_map_right_iff, List.forall₂_same]
    intro t member drawn
    have located : (t.address, t.node) ∈ tree.root.located [] := by
      rw [← Node.map_trails []]
      exact List.mem_map_of_mem (List.mem_of_mem_filter member)
    obtain ⟨order, holder, main, own, decorations⟩ := Roblox.instancesAt_screenFigures roblox units tree _ located
    obtain ⟨w, chosen⟩ := Roblox.exists_mainWidget order drawn
    refine ⟨React.tagOf (React.placementUnder t.above.getLast?) t.node, w.under units (.made holder), ?_, ?_, ?_⟩
    · rw [React.nestOf_eq, List.getLast?_concat]
    · rw [own, chosen]
      rfl
    · rw [decorations]
      exact paintedAlike_of_main units _ chosen drawn _ _
  · rintro ⟨s, ⟨⟩, parsed⟩
    revert parsed
    decide

end Handoff
