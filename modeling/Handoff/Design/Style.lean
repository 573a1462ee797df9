import Handoff.Text.Character
import Handoff.Decimal.Layout
import Handoff.Decimal.Numeral

set_option autoImplicit false
set_option relaxedAutoImplicit false

/-!
The values that a node's attributes take, with the words that a document writes for them.

Each set of words is a list of pairs; a value may have several words, and is written with its own name.
-/

namespace Handoff.Design

structure Point where
  x : Float
  y : Float
  deriving DecidableEq

structure Size where
  width : Float
  height : Float
  deriving DecidableEq

def Point.origin : Point := ⟨0, 0⟩
def Size.zero : Size := ⟨0, 0⟩

/-- The ends of a line, relative to the node's position. -/
structure Segment where
  x1 : Float := 0
  y1 : Float := 0
  x2 : Float := 0
  y2 : Float := 0
  deriving DecidableEq

inductive Padding where
  | uniform (value : Float)
  | sides (top right bottom left : Float)
  deriving DecidableEq

/-- The padding's value when one was given for all sides. -/
def Padding.uniform? : Padding → Option Float
  | .uniform value => some value
  | .sides .. => none

/-- The weight of a font, as a number or a word. -/
inductive FontWeight where
  | numeric (value : Float)
  | keyword (word : String)
  deriving DecidableEq

namespace FontWeight

def boldWords : List String := ["bold", "bolder", "semibold", "extrabold", "black"]

/-- Weights of 600 and more are bold, and so are the words for them. -/
def isBold : FontWeight → Bool
  | .numeric value => decide (600 ≤ value)
  | .keyword word =>
    let small := (Text.trimBy Text.isBlank word.toList).map Char.toLower
    if boldWords.contains (String.ofList small) then true
    else match Numeral.readFree small with
      | some value => decide (600 ≤ value)
      | none => false

/-- The weight as a text. -/
def text : FontWeight → String
  | .numeric value => plainText value
  | .keyword word => word

end FontWeight

inductive Direction where
  | row
  | column
  deriving DecidableEq, Repr

def Direction.name : Direction → String
  | .row => "row"
  | .column => "column"

def Direction.words : List (String × Direction) :=
  [("row", .row), ("column", .column)]

/-- Where a stack's children stand across its main axis. -/
inductive Align where
  | start
  | center
  | finish
  | stretch
  deriving DecidableEq, Repr

def Align.name : Align → String
  | .start => "start"
  | .center => "center"
  | .finish => "end"
  | .stretch => "stretch"

def Align.words : List (String × Align) :=
  [("flex-start", .start), ("start", .start), ("center", .center), ("end", .finish),
    ("flex-end", .finish), ("stretch", .stretch)]

/-- How a stack's children are spread along its main axis. -/
inductive Justify where
  | start
  | center
  | finish
  | between
  | around
  | evenly
  deriving DecidableEq, Repr

def Justify.name : Justify → String
  | .start => "start"
  | .center => "center"
  | .finish => "end"
  | .between => "between"
  | .around => "around"
  | .evenly => "evenly"

def Justify.words : List (String × Justify) :=
  [("flex-start", .start), ("start", .start), ("center", .center), ("end", .finish),
    ("flex-end", .finish), ("between", .between), ("space-between", .between), ("around", .around),
    ("space-around", .around), ("evenly", .evenly), ("space-evenly", .evenly)]

/-- Where the lines of a text stand. -/
inductive TextAlign where
  | left
  | center
  | right
  | justify
  deriving DecidableEq, Repr

def TextAlign.name : TextAlign → String
  | .left => "left"
  | .center => "center"
  | .right => "right"
  | .justify => "justify"

def TextAlign.words : List (String × TextAlign) :=
  [("left", .left), ("center", .center), ("right", .right), ("justify", .justify)]

/-- The part that a text plays in its document. -/
inductive TextVariant where
  | h1
  | h2
  | h3
  | body
  | caption
  deriving DecidableEq, Repr

namespace TextVariant

def name : TextVariant → String
  | .h1 => "h1"
  | .h2 => "h2"
  | .h3 => "h3"
  | .body => "body"
  | .caption => "caption"

def words : List (String × TextVariant) :=
  [("h1", .h1), ("h2", .h2), ("h3", .h3), ("body", .body), ("caption", .caption)]

def isHeading : TextVariant → Bool
  | .h1 | .h2 | .h3 => true
  | .body | .caption => false

/-- The size of a text that gives none itself. -/
def fontSize : TextVariant → Float
  | .h1 => 36
  | .h2 => 28
  | .h3 => 22
  | .body => 16
  | .caption => 12

end TextVariant

inductive FontStyle where
  | normal
  | italic
  | oblique
  deriving DecidableEq, Repr

def FontStyle.name : FontStyle → String
  | .normal => "normal"
  | .italic => "italic"
  | .oblique => "oblique"

def FontStyle.words : List (String × FontStyle) :=
  [("normal", .normal), ("italic", .italic), ("oblique", .oblique)]

inductive ObjectFit where
  | cover
  | contain
  | fill
  | none
  | scaleDown
  deriving DecidableEq, Repr

def ObjectFit.name : ObjectFit → String
  | .cover => "cover"
  | .contain => "contain"
  | .fill => "fill"
  | .none => "none"
  | .scaleDown => "scale-down"

def ObjectFit.words : List (String × ObjectFit) :=
  [("cover", .cover), ("contain", .contain), ("fill", .fill), ("none", .none), ("scale-down", .scaleDown)]

end Handoff.Design
