import Handoff.Design.Style
import Handoff.Json.Basic

set_option autoImplicit false
set_option relaxedAutoImplicit false

/-!
The design tree: nodes with resolved geometry, some of which hold others.

Every node keeps the attributes that its kind does not have, so that nothing of a document is lost. A paint is
kept as its text, whether it is a color or not.
-/

namespace Handoff.Design

/-- What nodes of every kind have. -/
structure Header where
  id : String
  name : Option String := none
  position : Option Point := none
  size : Option Size := none
  opacity : Option Float := none
  /-- Attributes beyond the kind's own, in order. -/
  extra : Members := []

/-- The three containers that leave their children where they are. -/
inductive PanelRole where
  | frame
  | box
  | group
  deriving DecidableEq, Repr

structure Panel where
  background : Option String := none
  padding : Option Padding := none
  radius : Option Float := none
  deriving DecidableEq

/-- A container that places its children along a line. -/
structure Stack where
  direction : Direction := .column
  gap : Option Float := none
  align : Option Align := none
  justify : Option Justify := none
  background : Option String := none
  padding : Option Padding := none
  deriving DecidableEq

/-- A container that places its children in columns. -/
structure Grid where
  columns : UInt32 := 1
  gap : Option Float := none
  background : Option String := none
  padding : Option Padding := none
  deriving DecidableEq

inductive Container where
  | panel (role : PanelRole) (attrs : Panel)
  | stack (attrs : Stack)
  | grid (attrs : Grid)
  deriving DecidableEq

structure Rect where
  fill : Option String := none
  stroke : Option String := none
  strokeWidth : Option Float := none
  radius : Option Float := none
  deriving DecidableEq

structure Ellipse where
  fill : Option String := none
  stroke : Option String := none
  strokeWidth : Option Float := none
  deriving DecidableEq

structure Label where
  text : String := ""
  color : Option String := none
  fontFamily : Option String := none
  fontSize : Option Float := none
  fontWeight : Option FontWeight := none
  fontStyle : Option FontStyle := none
  align : Option TextAlign := none
  variant : Option TextVariant := none
  deriving DecidableEq

structure Image where
  src : String := ""
  alt : Option String := none
  radius : Option Float := none
  objectFit : Option ObjectFit := none
  deriving DecidableEq

structure Line where
  points : Segment := {}
  stroke : Option String := none
  strokeWidth : Option Float := none
  deriving DecidableEq

inductive PathRole where
  | curve
  | polygon
  | draw
  deriving DecidableEq, Repr

/-- A shape given by its points, as a flat row of coordinates. -/
structure Path where
  points : List Float := []
  closed : Bool := false
  fill : Option String := none
  stroke : Option String := none
  strokeWidth : Option Float := none
  deriving DecidableEq

inductive Leaf where
  | rect (attrs : Rect)
  | ellipse (attrs : Ellipse)
  | text (attrs : Label)
  | image (attrs : Image)
  | line (attrs : Line)
  | path (role : PathRole) (attrs : Path)
  /-- A node whose type is none of the others; all its attributes are extra. -/
  | unknown (type : String)
  deriving DecidableEq

inductive Node where
  | leaf (header : Header) (kind : Leaf)
  | container (header : Header) (kind : Container) (children : List Node)

/-- A whole design. -/
structure Tree where
  version : Option String := none
  name : Option String := none
  root : Node
  /-- Members of the document beyond the design's own, in order. -/
  extra : Members := []

def PanelRole.typeName : PanelRole → String
  | .frame => "frame"
  | .box => "box"
  | .group => "group"

def Container.typeName : Container → String
  | .panel role _ => role.typeName
  | .stack _ => "stack"
  | .grid _ => "grid"

def PathRole.typeName : PathRole → String
  | .curve => "curve"
  | .polygon => "polygon"
  | .draw => "draw"

def Leaf.typeName : Leaf → String
  | .rect _ => "rect"
  | .ellipse _ => "ellipse"
  | .text _ => "text"
  | .image _ => "image"
  | .line _ => "line"
  | .path role _ => role.typeName
  | .unknown type => type

def Leaf.isVector : Leaf → Bool
  | .line _ | .path .. => true
  | _ => false

namespace Header

def effectiveOpacity (h : Header) : Float :=
  h.opacity.getD 1

def positionOrOrigin (h : Header) : Point :=
  h.position.getD .origin

def sizeOrZero (h : Header) : Size :=
  h.size.getD .zero

def displayName (h : Header) : Option String :=
  h.name.filter fun name => !Text.isBlankText name

end Header

namespace Label

def isBold (t : Label) : Bool :=
  t.fontWeight.any FontWeight.isBold || t.variant.any TextVariant.isHeading

def isItalic (t : Label) : Bool :=
  t.fontStyle == some .italic || t.fontStyle == some .oblique

/-- The text's own size, else its variant's, else that of body text. -/
def resolvedFontSize (t : Label) : Float :=
  t.fontSize.getD (t.variant.getD .body).fontSize

def namedFamily (t : Label) : Option String :=
  t.fontFamily.filter fun family => !Text.isBlankText family

end Label

/-- Neighbouring numbers in pairs; an odd one at the end is left out. -/
def pairs : List Float → List (Float × Float)
  | x :: y :: rest => (x, y) :: pairs rest
  | _ => []

namespace Node

def header : Node → Header
  | .leaf header _ => header
  | .container header _ _ => header

def children : Node → List Node
  | .leaf _ _ => []
  | .container _ _ children => children

def typeName : Node → String
  | .leaf _ kind => kind.typeName
  | .container _ kind _ => kind.typeName

def id (node : Node) : String :=
  node.header.id

def isLeaf : Node → Bool
  | .leaf _ _ => true
  | .container _ _ _ => false

def isVector : Node → Bool
  | .leaf _ kind => kind.isVector
  | .container _ _ _ => false

/-- A node with one more child at the end; leaves take none. -/
def withChild (node child : Node) : Node :=
  match node with
  | .leaf header kind => .leaf header kind
  | .container header kind children => .container header kind (children ++ [child])

end Node

namespace Tree

/-- A design with an empty frame of the given size. -/
def withFrame (width height : Float) : Tree :=
  { root := .container { id := "root", size := some ⟨width, height⟩ } (.panel .frame {}) [] }

def rootSize (tree : Tree) : Size :=
  tree.root.header.sizeOrZero

def push (tree : Tree) (child : Node) : Tree :=
  { tree with root := tree.root.withChild child }

end Tree
end Handoff.Design
