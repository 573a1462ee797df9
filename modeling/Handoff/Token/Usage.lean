import Handoff.Design.Walk

set_option autoImplicit false
set_option relaxedAutoImplicit false

/-!
Where a design uses values that tokens are made of, node by node in the order of visits.
-/

namespace Handoff.Token
open Design

/-- A zero without a sign, other numbers as they are. -/
def unsignedZero (x : Float) : Float :=
  if x == 0 then 0 else x

def finite (values : List (Option Float)) : List Float :=
  values.filterMap fun value => (value.filter (·.isFinite)).map unsignedZero

def paints (values : List (Option String)) : List String :=
  values.filterMap fun value => value.filter fun s => !Text.isBlankText s

/-- The text attribute of a node of no known type. -/
def looseText (extra : Members) (key : String) : Option String :=
  (extra.get? key).bind Json.string?

def Use.colors : Node → List String
  | .container _ (.panel _ a) _ => paints [a.background]
  | .container _ (.stack a) _ => paints [a.background]
  | .container _ (.grid a) _ => paints [a.background]
  | .leaf _ (.rect a) => paints [a.fill, a.stroke]
  | .leaf _ (.ellipse a) => paints [a.fill, a.stroke]
  | .leaf _ (.text a) => paints [a.color]
  | .leaf _ (.image _) => []
  | .leaf _ (.line a) => paints [a.stroke]
  | .leaf _ (.path _ a) => paints [a.fill, a.stroke]
  | .leaf header (.unknown _) =>
    paints (["fill", "stroke", "background", "color"].map (looseText header.extra))

def Use.spacing : Node → List Float
  | .container _ (.panel _ a) _ => finite [a.padding.bind Padding.uniform?]
  | .container _ (.stack a) _ => finite [a.gap, a.padding.bind Padding.uniform?]
  | .container _ (.grid a) _ => finite [a.gap, a.padding.bind Padding.uniform?]
  | .leaf _ _ => []

def Use.radii : Node → List Float
  | .container _ (.panel _ a) _ => finite [a.radius]
  | .leaf _ (.rect a) => finite [a.radius]
  | .leaf _ (.image a) => finite [a.radius]
  | _ => []

/-- What a text node says about its font. -/
structure Font where
  size : Option Float
  family : Option String
  weight : Option String

def Use.font : Node → List Font
  | .leaf _ (.text a) => [⟨(finite [a.fontSize]).head?, a.namedFamily, a.fontWeight.map FontWeight.text⟩]
  | _ => []

def Use.opacities (node : Node) : List Float :=
  finite [node.header.opacity]

/-- The uses of each class in a design, in order. -/
structure Usage where
  colors : List String
  fonts : List Font
  spacing : List Float
  radii : List Float
  opacities : List Float

/-- The uses in a design. The root has an opacity even when it gives none. -/
def Usage.ofTree (tree : Tree) : Usage :=
  let nodes := tree.root.walk
  { colors := nodes.flatMap Use.colors
    fonts := nodes.flatMap Use.font
    spacing := nodes.flatMap Use.spacing
    radii := nodes.flatMap Use.radii
    opacities := finite [some tree.root.header.effectiveOpacity] ++ nodes.tail.flatMap Use.opacities }

namespace Usage

def fontSizes (usage : Usage) : List Float :=
  usage.fonts.filterMap Font.size

def families (usage : Usage) : List String :=
  usage.fonts.filterMap Font.family

def weights (usage : Usage) : List String :=
  usage.fonts.filterMap Font.weight

def fontsOf (usage : Usage) (size : Float) : List Font :=
  usage.fonts.filter fun font => font.size = some size

end Usage

section Tally

variable {α : Type} [DecidableEq α]

def countUse (a : α) : List (α × Nat) → List (α × Nat)
  | [] => [(a, 1)]
  | (b, n) :: rest => if b = a then (b, n + 1) :: rest else (b, n) :: countUse a rest

/-- The distinct values with the number of their uses, in the order in which they first came. -/
def tally (uses : List α) : List (α × Nat) :=
  uses.foldl (fun counts a => countUse a counts) []

/-- The value with the highest count, the first of them when there are several. -/
def highest : List (α × Nat) → Option (α × Nat)
  | [] => none
  | entry :: rest =>
    some (rest.foldl (fun best entry => if best.2 < entry.2 then entry else best) entry)

def mostCommon (uses : List α) : Option α :=
  (highest (tally uses)).map (·.1)

end Tally
end Handoff.Token
