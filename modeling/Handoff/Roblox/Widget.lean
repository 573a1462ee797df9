import Handoff.Roblox.Script
import Handoff.Design.Color
import Handoff.Design.Node

set_option autoImplicit false
set_option relaxedAutoImplicit false

/-!
The instances that draw a node: a main one, and those that decorate it.
-/

namespace Handoff.Roblox
open Design

/-- An instance before it has a name and a parent. -/
structure Widget where
  cls : Class
  settings : List (Property × Value)
  deriving DecidableEq

def Widget.statements (w : Widget) (v parent : Variable) : List Statement :=
  .declare v (.fresh w.cls) :: w.settings.map (fun s => .set v s.1 s.2) ++ [.attach v parent]

/-- How much of what lies behind a paint shows through it. -/
def transparency (alpha opacity : Float) : Float :=
  clamp 0 1 (1 - alpha * opacity)

/-- A setting that is left out where its number is written as zero. -/
def nonzero (property : Property) (x : Float) : List (Property × Value) :=
  if pixelText x = "0" then [] else [(property, .ratio x)]

def rgb (c : Rgba) : Value :=
  .rgb c.r c.g c.b

def paint? (paint : Option String) : Option Rgba :=
  paint.bind Rgba.parse?

def commonSettings (h : Header) (order : Option Nat) : List (Property × Value) :=
  let position := h.positionOrOrigin
  let size := h.sizeOrZero
  [(.name, .text (h.displayName.getD h.id)), (.position, .offsets position.x position.y),
    (.size, .offsets size.width size.height)]
    ++ (match order with
      | some n => [(.layoutOrder, .count n)]
      | none => [])

/-- The background of an instance, which is clear where the paint is no color. -/
def backgroundSettings (h : Header) (paint : Option String) : List (Property × Value) :=
  (match paint? paint with
    | some c =>
      [(.backgroundColor, rgb c), (.backgroundTransparency, .ratio (transparency c.a h.effectiveOpacity))]
    | none => [(.backgroundTransparency, .count 1)])
    ++ [(.borderSize, .count 0)]

def clearSettings : List (Property × Value) :=
  [(.backgroundTransparency, .count 1), (.borderSize, .count 0)]

/-- The main instance of a container or a plain shape. -/
def frameWidget (h : Header) (order : Option Nat) (paint : Option String) (clips : Bool) : Widget :=
  ⟨.frame, commonSettings h order ++ backgroundSettings h paint
    ++ (if clips then [(.clipsDescendants, .flag true)] else [])⟩

def cornerWidgets : Option Float → List Widget
  | some radius => if 0 < radius then [⟨.corner, [(.cornerRadius, .offset radius)]⟩] else []
  | none => []

def strokeWidgets (h : Header) (stroke : Option String) (width : Option Float) : List Widget :=
  match paint? stroke with
  | some c =>
    [⟨.stroke, [(.color, rgb c), (.thickness, .length (width.getD 1))]
      ++ nonzero .transparency (transparency c.a h.effectiveOpacity)
      ++ [(.applyStrokeMode, .choice "ApplyStrokeMode" "Border")]⟩]
  | none => []

def sidesWidget (top right bottom left : Float) : Widget :=
  ⟨.padding, [(.paddingTop, .offset top), (.paddingRight, .offset right), (.paddingBottom, .offset bottom),
    (.paddingLeft, .offset left)]⟩

def paddingWidgets : Option Padding → List Widget
  | some (.uniform value) => [sidesWidget value value value value]
  | some (.sides top right bottom left) => [sidesWidget top right bottom left]
  | none => []

def alignHorizontal : Align → Option String
  | .start => some "Left"
  | .center => some "Center"
  | .finish => some "Right"
  | .stretch => none

def alignVertical : Align → Option String
  | .start => some "Top"
  | .center => some "Center"
  | .finish => some "Bottom"
  | .stretch => none

def justifyHorizontal : Justify → Option String
  | .start => some "Left"
  | .center => some "Center"
  | .finish => some "Right"
  | .between | .around | .evenly => none

def justifyVertical : Justify → Option String
  | .start => some "Top"
  | .center => some "Center"
  | .finish => some "Bottom"
  | .between | .around | .evenly => none

def choiceSetting (property : Property) : Option String → List (Property × Value)
  | some item => [(property, .choice property.label item)]
  | none => []

/-- The layout of a stack: along its axis as it justifies, across it as it aligns. -/
def listWidget (a : Stack) : Widget :=
  let (axis, horizontal, vertical) := match a.direction with
    | .row => ("Horizontal", a.justify.bind justifyHorizontal, a.align.bind alignVertical)
    | .column => ("Vertical", a.align.bind alignHorizontal, a.justify.bind justifyVertical)
  ⟨.listLayout, [(.fillDirection, .choice "FillDirection" axis), (.padding, .offset (a.gap.getD 0)),
    (.sortOrder, .choice "SortOrder" "LayoutOrder")]
    ++ choiceSetting .horizontalAlignment horizontal ++ choiceSetting .verticalAlignment vertical⟩

/-- The number of columns that a grid is laid out in. -/
def columnCount (a : Grid) : Nat :=
  max a.columns.toNat 1

/-- The side of a square cell, when the columns and the gaps between them fill the width. -/
def cellSide (h : Header) (a : Grid) : Float :=
  let columns := Json.wholeFloat (columnCount a)
  (h.sizeOrZero.width - (columns - 1) * a.gap.getD 0) / columns

def gridWidget (h : Header) (a : Grid) : Widget :=
  let side := cellSide h a
  let gap := a.gap.getD 0
  ⟨.gridLayout, [(.cellSize, .offsets side side), (.cellPadding, .offsets gap gap),
    (.fillDirectionMaxCells, .count (columnCount a)), (.sortOrder, .choice "SortOrder" "LayoutOrder")]⟩

def fontAsset (family : String) : String :=
  let small := family.toList.map Char.toLower
  let has (part : String) : Bool := Text.occursIn part.toList small
  let name :=
    if has "mono" || has "courier" || has "consol" then "RobotoMono"
    else if has "roboto" then "Roboto"
    else if has "arial" || has "helvetica" then "Arial"
    else if has "gotham" || has "montserrat" then "GothamSSm"
    else if has "georgia" || (has "serif" && !has "sans") then "Merriweather"
    else "SourceSansPro"
  "rbxasset://fonts/families/" ++ name ++ ".json"

def fontValue (t : Label) : Value :=
  .font (fontAsset (t.fontFamily.getD "")) (if t.isBold then "Bold" else "Regular")
    (if t.isItalic then "Italic" else "Normal")

/-- The color of a text; without one only its transparency, when it is not opaque. -/
def textPaint (h : Header) (t : Label) : List (Property × Value) :=
  match paint? t.color with
  | some c =>
    (.textColor, rgb c) :: nonzero .textTransparency (transparency c.a h.effectiveOpacity)
  | none =>
    if h.effectiveOpacity < 1 then
      [(.textTransparency, .ratio (transparency 1 h.effectiveOpacity))]
    else []

def textSide : Option TextAlign → String
  | some .center => "Center"
  | some .right => "Right"
  | _ => "Left"

def labelWidget (h : Header) (order : Option Nat) (t : Label) : Widget :=
  ⟨.textLabel, commonSettings h order ++ clearSettings ++ [(.text, .text t.text)] ++ textPaint h t
    ++ [(.textSize, .length t.resolvedFontSize), (.fontFace, fontValue t),
      (.textXAlignment, .choice "TextXAlignment" (textSide t.align)), (.textWrapped, .flag true)]⟩

def scaleType : Option ObjectFit → String
  | some .cover => "Crop"
  | some .fill | none => "Stretch"
  | some .contain | some .none | some .scaleDown => "Fit"

def imageWidget (h : Header) (order : Option Nat) (i : Image) : Widget :=
  ⟨.imageLabel, commonSettings h order ++ clearSettings
    ++ [(.image, .text i.src), (.scaleType, .choice "ScaleType" (scaleType i.objectFit))]
    ++ (if h.effectiveOpacity < 1 then
        [(.imageTransparency, .ratio (transparency 1 h.effectiveOpacity))]
      else [])⟩

def roundWidget : Widget :=
  ⟨.corner, [(.cornerRadius, .half)]⟩

def containerWidget (h : Header) (order : Option Nat) : Container → Widget
  | .panel role a => frameWidget h order a.background (role == .frame)
  | .stack a => frameWidget h order a.background false
  | .grid a => frameWidget h order a.background false

def containerDecorations (h : Header) : Container → List Widget
  | .panel _ a => cornerWidgets a.radius ++ paddingWidgets a.padding
  | .stack a => paddingWidgets a.padding ++ [listWidget a]
  | .grid a => paddingWidgets a.padding ++ [gridWidget h a]

/-- The main instance of a leaf, for those kinds that have one. -/
def leafWidget? (h : Header) (order : Option Nat) : Leaf → Option Widget
  | .rect a => some (frameWidget h order a.fill false)
  | .ellipse a => some (frameWidget h order a.fill false)
  | .text a => some (labelWidget h order a)
  | .image a => some (imageWidget h order a)
  | .line _ | .path .. | .unknown _ => none

def leafDecorations (h : Header) : Leaf → List Widget
  | .rect a => cornerWidgets a.radius ++ strokeWidgets h a.stroke a.strokeWidth
  | .ellipse a => roundWidget :: strokeWidgets h a.stroke a.strokeWidth
  | .image a => cornerWidgets a.radius
  | .text _ | .line _ | .path .. | .unknown _ => []

end Handoff.Roblox
