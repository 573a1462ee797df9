import Handoff.Design.Node
import Handoff.Json.Printer

set_option autoImplicit false
set_option relaxedAutoImplicit false

/-!
Designs as JSON: a node's common attributes, then those of its kind, then the extra ones, then its type. A later
attribute of one name replaces an earlier one in its place.
-/

namespace Handoff.Design

/-- The member for an attribute, when the attribute is there. -/
def member {α : Type} (key : String) (encode : α → Json) : Option α → Members
  | none => []
  | some a => [(key, encode a)]

def Point.encode (p : Point) : Json :=
  .object [("x", .ofFloat p.x), ("y", .ofFloat p.y)]

def Size.encode (s : Size) : Json :=
  .object [("width", .ofFloat s.width), ("height", .ofFloat s.height)]

def Padding.encode : Padding → Json
  | .uniform value => .ofFloat value
  | .sides top right bottom left =>
    .object [("top", .ofFloat top), ("right", .ofFloat right), ("bottom", .ofFloat bottom),
      ("left", .ofFloat left)]

def FontWeight.encode : FontWeight → Json
  | .numeric value => .ofFloat value
  | .keyword word => .string word

def Header.members (h : Header) : Members :=
  ("id", .string h.id) :: member "name" .string h.name ++ member "position" Point.encode h.position
    ++ member "size" Size.encode h.size ++ member "opacity" .ofFloat h.opacity

def childrenMember (children : List Json) : Members :=
  if children.isEmpty then [] else [("children", .array children)]

/-- The attributes of a container with the given children. -/
def Container.members (children : List Json) : Container → Members
  | .panel _ a =>
    childrenMember children ++ member "background" .string a.background
      ++ member "padding" Padding.encode a.padding ++ member "radius" .ofFloat a.radius
  | .stack a =>
    ("direction", .string a.direction.name) :: member "gap" .ofFloat a.gap
      ++ member "align" (.string ·.name) a.align ++ member "justify" (.string ·.name) a.justify
      ++ member "background" .string a.background ++ member "padding" Padding.encode a.padding
      ++ childrenMember children
  | .grid a =>
    ("columns", .int a.columns.toNat) :: member "gap" .ofFloat a.gap
      ++ member "background" .string a.background ++ member "padding" Padding.encode a.padding
      ++ childrenMember children

def Segment.encode (s : Segment) : Json :=
  .array [.ofFloat s.x1, .ofFloat s.y1, .ofFloat s.x2, .ofFloat s.y2]

def Leaf.members : Leaf → Members
  | .rect a =>
    member "fill" .string a.fill ++ member "stroke" .string a.stroke
      ++ member "strokeWidth" .ofFloat a.strokeWidth ++ member "radius" .ofFloat a.radius
  | .ellipse a =>
    member "fill" .string a.fill ++ member "stroke" .string a.stroke
      ++ member "strokeWidth" .ofFloat a.strokeWidth
  | .text a =>
    ("text", .string a.text) :: member "color" .string a.color
      ++ member "fontFamily" .string a.fontFamily ++ member "fontSize" .ofFloat a.fontSize
      ++ member "fontWeight" FontWeight.encode a.fontWeight
      ++ member "fontStyle" (.string ·.name) a.fontStyle ++ member "align" (.string ·.name) a.align
      ++ member "variant" (.string ·.name) a.variant
  | .image a =>
    ("src", .string a.src) :: member "alt" .string a.alt ++ member "radius" .ofFloat a.radius
      ++ member "objectFit" (.string ·.name) a.objectFit
  | .line a =>
    ("points", a.points.encode) :: member "stroke" .string a.stroke
      ++ member "strokeWidth" .ofFloat a.strokeWidth
  | .path _ a =>
    ("points", .array (a.points.map .ofFloat)) :: (if a.closed then [("closed", .bool true)] else [])
      ++ member "fill" .string a.fill ++ member "stroke" .string a.stroke
      ++ member "strokeWidth" .ofFloat a.strokeWidth
  | .unknown _ => []

/-- The object with the given members, each name once: in the place of the first, with the value of the last. -/
def merged (members : Members) : Json :=
  .object (Entries.putAll [] members)

/-- The attributes of a kind, then the extra ones, then the type. -/
def kindMembers (attributes extra : Members) (type : String) : Members :=
  Entries.putAll [] (attributes ++ extra ++ [("type", .string type)])

mutual

/-- The members of a node: those of its header, then those of its kind. -/
def Node.members : Node → Members
  | .leaf header kind => header.members ++ kindMembers kind.members header.extra kind.typeName
  | .container header kind children =>
    header.members ++ kindMembers (kind.members (Node.encodeAll children)) header.extra kind.typeName

def Node.encodeAll : List Node → List Json
  | [] => []
  | node :: rest => merged node.members :: Node.encodeAll rest

end

def Node.encode (node : Node) : Json :=
  merged node.members

/-- The members of a design whose root is the given value. -/
def Tree.members (tree : Tree) (root : Json) : Members :=
  member "version" .string tree.version ++ member "name" .string tree.name ++ ("root", root) :: tree.extra

def Tree.encode (tree : Tree) : Json :=
  merged (tree.members tree.root.encode)

/-- The text of a design by itself. The design and its root list all their members, even two of one name. -/
def Tree.text (tree : Tree) : String :=
  (Json.object (tree.members (.object tree.root.members))).compact

end Handoff.Design
