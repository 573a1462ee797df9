import Handoff.Design.Node

set_option autoImplicit false
set_option relaxedAutoImplicit false

/-!
Equality of designs part by part. Numbers are equal as numbers, so that the two zeros are and a value that is not
a number equals nothing; the order of extra members does not matter.
-/

namespace Handoff.Design

def sameOption {α : Type} (same : α → α → Bool) : Option α → Option α → Bool
  | none, none => true
  | some a, some b => same a b
  | _, _ => false

def sameNumber (x y : Float) : Bool :=
  x == y

def sameNumbers : List Float → List Float → Bool
  | [], [] => true
  | x :: xs, y :: ys => sameNumber x y && sameNumbers xs ys
  | _, _ => false

def sameMembers (ms ns : Members) : Bool :=
  Json.same (.object ms) (.object ns)

def Point.same (p q : Point) : Bool :=
  sameNumber p.x q.x && sameNumber p.y q.y

def Size.same (s t : Size) : Bool :=
  sameNumber s.width t.width && sameNumber s.height t.height

def Segment.same (s t : Segment) : Bool :=
  sameNumber s.x1 t.x1 && sameNumber s.y1 t.y1 && sameNumber s.x2 t.x2 && sameNumber s.y2 t.y2

def Padding.same : Padding → Padding → Bool
  | .uniform a, .uniform b => sameNumber a b
  | .sides a b c d, .sides e f g h => sameNumber a e && sameNumber b f && sameNumber c g && sameNumber d h
  | _, _ => false

def FontWeight.same : FontWeight → FontWeight → Bool
  | .numeric a, .numeric b => sameNumber a b
  | .keyword a, .keyword b => a == b
  | _, _ => false

def Header.same (h k : Header) : Bool :=
  h.id == k.id && h.name == k.name && sameOption Point.same h.position k.position
    && sameOption Size.same h.size k.size && sameOption sameNumber h.opacity k.opacity
    && sameMembers h.extra k.extra

def Panel.same (a b : Panel) : Bool :=
  a.background == b.background && sameOption Padding.same a.padding b.padding
    && sameOption sameNumber a.radius b.radius

def Stack.same (a b : Stack) : Bool :=
  a.direction == b.direction && sameOption sameNumber a.gap b.gap && a.align == b.align
    && a.justify == b.justify && a.background == b.background && sameOption Padding.same a.padding b.padding

def Grid.same (a b : Grid) : Bool :=
  a.columns == b.columns && sameOption sameNumber a.gap b.gap && a.background == b.background
    && sameOption Padding.same a.padding b.padding

def Container.same : Container → Container → Bool
  | .panel role a, .panel role' b => role == role' && a.same b
  | .stack a, .stack b => a.same b
  | .grid a, .grid b => a.same b
  | _, _ => false

def samePaint (fill stroke : Option String) (width : Option Float) (fill' stroke' : Option String)
    (width' : Option Float) : Bool :=
  fill == fill' && stroke == stroke' && sameOption sameNumber width width'

def Label.same (a b : Label) : Bool :=
  a.text == b.text && a.color == b.color && a.fontFamily == b.fontFamily
    && sameOption sameNumber a.fontSize b.fontSize && sameOption FontWeight.same a.fontWeight b.fontWeight
    && a.fontStyle == b.fontStyle && a.align == b.align && a.variant == b.variant

def Image.same (a b : Image) : Bool :=
  a.src == b.src && a.alt == b.alt && sameOption sameNumber a.radius b.radius && a.objectFit == b.objectFit

def Leaf.same : Leaf → Leaf → Bool
  | .rect a, .rect b =>
    samePaint a.fill a.stroke a.strokeWidth b.fill b.stroke b.strokeWidth
      && sameOption sameNumber a.radius b.radius
  | .ellipse a, .ellipse b => samePaint a.fill a.stroke a.strokeWidth b.fill b.stroke b.strokeWidth
  | .text a, .text b => a.same b
  | .image a, .image b => a.same b
  | .line a, .line b =>
    a.points.same b.points && samePaint none a.stroke a.strokeWidth none b.stroke b.strokeWidth
  | .path role a, .path role' b =>
    role == role' && sameNumbers a.points b.points && a.closed == b.closed
      && samePaint a.fill a.stroke a.strokeWidth b.fill b.stroke b.strokeWidth
  | .unknown type, .unknown type' => type == type'
  | _, _ => false

mutual

def Node.same : Node → Node → Bool
  | .leaf h a, .leaf k b => h.same k && a.same b
  | .container h a children, .container k b children' =>
    h.same k && a.same b && Node.sameAll children children'
  | _, _ => false

def Node.sameAll : List Node → List Node → Bool
  | [], [] => true
  | a :: as, b :: bs => a.same b && Node.sameAll as bs
  | _, _ => false

end

def Tree.same (a b : Tree) : Bool :=
  a.version == b.version && a.name == b.name && a.root.same b.root && sameMembers a.extra b.extra

end Handoff.Design
