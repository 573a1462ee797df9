import Handoff.React.Markup
import Handoff.Design.Color
import Handoff.Design.Node

set_option autoImplicit false
set_option relaxedAutoImplicit false

/-!
The markup of nodes: an element for each, with classes for what has a class, and an inline style for the geometry
and the rest. Children of stacks and grids are placed by their parent, others by their position.
-/

namespace Handoff.React
open Design

/-- How a node comes to its place. -/
inductive Placement where
  | root
  | absolute
  | flow
  deriving DecidableEq, Repr

def Placement.classes : Placement → List String
  | .root => ["relative"]
  | .absolute => ["absolute"]
  | .flow => []

/-- A style entry for a number, when it is there. -/
def numberEntry (key : String) : Option Float → Style
  | some x => [(key, .number x)]
  | none => []

/-- A style entry for a text, when it is there. -/
def textEntry (key : String) : Option String → Style
  | some s => [(key, .text s)]
  | none => []

/-- Position, where the node has one of its own, and size. -/
def geometry (h : Header) (placement : Placement) : Style :=
  (if placement = .absolute then
      [("left", .number h.positionOrOrigin.x), ("top", .number h.positionOrOrigin.y)]
    else [])
    ++ (match h.size with
      | some size => [("width", .number size.width), ("height", .number size.height)]
      | none => [])

def paintOf (paint : Option String) : Option String :=
  paint.filter fun s => (Rgba.parse? s).isSome

def background (paint : Option String) : Style :=
  textEntry "backgroundColor" (paintOf paint)

def border (stroke : Option String) (width : Option Float) : Style :=
  match paintOf stroke with
  | some color =>
    [("borderWidth", .number (width.getD 1)), ("borderStyle", .text "solid"), ("borderColor", .text color)]
  | none => []

def paddingEntry : Option Padding → Style
  | some (.uniform value) => [("padding", .number value)]
  | some (.sides top right bottom left) =>
    [("padding", .text (String.intercalate " " ([top, right, bottom, left].map (pixelText · ++ "px"))))]
  | none => []

def roundness (radius : Option Float) : Option Float :=
  radius.filter fun r => decide (0 < r)

def roundedClass (radius : Option Float) : List String :=
  if (roundness radius).isSome then ["rounded"] else []

def cornerEntry (radius : Option Float) : Style :=
  numberEntry "borderRadius" (roundness radius)

/-- The opacity of a node that is not fully opaque. -/
def opacityEntry (h : Header) : Style :=
  numberEntry "opacity" (h.opacity.filter fun o => !(o == 1))

def alignClass : Align → String
  | .start => "items-start"
  | .center => "items-center"
  | .finish => "items-end"
  | .stretch => "items-stretch"

def justifyClass : Justify → String
  | .start => "justify-start"
  | .center => "justify-center"
  | .finish => "justify-end"
  | .between => "justify-between"
  | .around => "justify-around"
  | .evenly => "justify-evenly"

def directionClass : Direction → String
  | .row => "flex-row"
  | .column => "flex-col"

def textAlignClass : TextAlign → String
  | .left => "text-left"
  | .center => "text-center"
  | .right => "text-right"
  | .justify => "text-justify"

def textTag : Option TextVariant → String
  | some .h1 => "h1"
  | some .h2 => "h2"
  | some .h3 => "h3"
  | some .body => "p"
  | some .caption | none => "span"

def look (classes : List String) (style : Style) : List Attribute :=
  [.classes classes, .style style]

def containerLook (h : Header) (placement : Placement) : Container → List Attribute
  | .panel role a =>
    look (placement.classes ++ (if role = .frame then ["overflow-hidden"] else []) ++ roundedClass a.radius)
      (geometry h placement ++ background a.background ++ paddingEntry a.padding ++ cornerEntry a.radius
        ++ opacityEntry h)
  | .stack a =>
    look (placement.classes ++ ["flex", directionClass a.direction] ++ (a.align.map alignClass).toList
        ++ (a.justify.map justifyClass).toList)
      (geometry h placement ++ numberEntry "gap" a.gap ++ background a.background ++ paddingEntry a.padding
        ++ opacityEntry h)
  | .grid a =>
    look (placement.classes ++ ["grid", "grid-cols-" ++ toString (max a.columns.toNat 1)])
      (geometry h placement ++ numberEntry "gap" a.gap ++ background a.background ++ paddingEntry a.padding
        ++ opacityEntry h)

/-- The weight of a text, unless its class already says that it is bold. -/
def weightEntry : Option FontWeight → Style
  | some weight =>
    if weight.isBold then []
    else match weight with
      | .numeric value => [("fontWeight", .number value)]
      | .keyword word => [("fontWeight", .text word)]
  | none => []

/-- The size of a text that gives one, itself or by its variant. -/
def sizeEntry (t : Label) : Style :=
  if t.fontSize.isSome ∨ t.variant.isSome then [("fontSize", .number t.resolvedFontSize)] else []

def labelLook (h : Header) (placement : Placement) (t : Label) : List Attribute :=
  look (placement.classes ++ (if t.isBold then ["font-bold"] else [])
      ++ (if t.isItalic then ["italic"] else []) ++ (t.align.map textAlignClass).toList)
    (geometry h placement ++ textEntry "color" (paintOf t.color) ++ textEntry "fontFamily" t.namedFamily
      ++ sizeEntry t ++ weightEntry t.fontWeight ++ opacityEntry h)

def rectLook (h : Header) (placement : Placement) (a : Rect) : List Attribute :=
  look (placement.classes ++ roundedClass a.radius)
    (geometry h placement ++ background a.fill ++ border a.stroke a.strokeWidth ++ cornerEntry a.radius
      ++ opacityEntry h)

def ellipseLook (h : Header) (placement : Placement) (a : Ellipse) : List Attribute :=
  look (placement.classes ++ ["rounded-full"])
    (geometry h placement ++ background a.fill ++ border a.stroke a.strokeWidth ++ opacityEntry h)

def imageLook (h : Header) (placement : Placement) (a : Image) : List Attribute :=
  .text "src" a.src :: .text "alt" (a.alt.getD "")
    :: look (placement.classes ++ (a.objectFit.map fun fit => "object-" ++ fit.name).toList
        ++ roundedClass a.radius)
      (geometry h placement ++ cornerEntry a.radius ++ opacityEntry h)

/-- The stroke of a shape; its width stands even where the stroke is no color. -/
def strokeAttributes (stroke : Option String) (width : Option Float) : List Attribute :=
  (paintOf stroke).toList.map (.text "stroke") ++ width.toList.map (.number "strokeWidth")

def lineShape (a : Line) : Markup :=
  .void "line" ([.text "x1" (pixelText a.points.x1), .text "y1" (pixelText a.points.y1),
    .text "x2" (pixelText a.points.x2), .text "y2" (pixelText a.points.y2)]
    ++ strokeAttributes a.stroke a.strokeWidth)

/-- Polygons are closed, freehand strokes are not, and curves say so themselves. -/
def isClosed (role : PathRole) (a : Path) : Bool :=
  match role with
  | .curve => a.closed
  | .polygon => true
  | .draw => false

def pointsText (points : List Float) : String :=
  String.intercalate " " ((pairs points).map fun p => pixelText p.1 ++ "," ++ pixelText p.2)

def pathShape (role : PathRole) (a : Path) : Markup :=
  .void (if isClosed role a then "polygon" else "polyline")
    ([.text "points" (pointsText a.points), .text "fill" ((paintOf a.fill).getD "none")]
      ++ strokeAttributes a.stroke a.strokeWidth)

/-- A drawing area at the node's place with a shape in it. -/
def drawingArea (h : Header) (placement : Placement) (shape : Markup) : Markup :=
  .group "svg" (look (placement.classes ++ ["overflow-visible"]) (geometry h placement ++ opacityEntry h))
    [shape]

/-- The markup of a leaf. A node of no known type leaves a comment. -/
def leafMarkup (h : Header) (placement : Placement) : Leaf → Markup
  | .rect a => .void "div" (rectLook h placement a)
  | .ellipse a => .void "div" (ellipseLook h placement a)
  | .text a => .label (textTag a.variant) (labelLook h placement a) a.text
  | .image a => .void "img" (imageLook h placement a)
  | .line a => drawingArea h placement (lineShape a)
  | .path role a => drawingArea h placement (pathShape role a)
  | .unknown type => .comment ("Unsupported node type: " ++ type ++ " (" ++ h.id ++ ")")

/-- True of the containers that are marked by their names. -/
def isMarked : Container → Bool
  | .panel .frame _ | .panel .group _ | .stack _ => true
  | .panel .box _ | .grid _ => false

/-- The name to mark a node with. -/
def markerName (comments : Bool) : Node → Option String
  | .container header kind _ => if comments && isMarked kind then header.displayName else none
  | .leaf _ _ => none

/-- The comment that marks a node. The root has none, because only an element may stand in its place. -/
def markers (comments : Bool) (placement : Placement) (node : Node) : List Markup :=
  if placement = .root then [] else (markerName comments node).toList.map .comment

def childPlacement : Container → Placement
  | .panel _ _ => .absolute
  | .stack _ | .grid _ => .flow

mutual

/-- The element of a node. -/
def element (comments : Bool) (placement : Placement) : Node → Markup
  | .leaf header kind => leafMarkup header placement kind
  | .container header kind [] => .void "div" (containerLook header placement kind)
  | .container header kind (child :: rest) =>
    .group "div" (containerLook header placement kind)
      (markers comments (childPlacement kind) child ++ element comments (childPlacement kind) child
        :: elements comments (childPlacement kind) rest)

def elements (comments : Bool) (placement : Placement) : List Node → List Markup
  | [] => []
  | node :: rest =>
    markers comments placement node ++ element comments placement node :: elements comments placement rest

end

end Handoff.React
