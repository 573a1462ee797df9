import Handoff.Entries

set_option autoImplicit false
set_option relaxedAutoImplicit false

/-!
The catalog of a design's tokens: named values of seven classes.
-/

namespace Handoff.Token

inductive TokenClass where
  | color
  | typography
  | fontFamily
  | fontWeight
  | spacing
  | radius
  | opacity
  deriving DecidableEq, Repr

namespace TokenClass

def all : List TokenClass :=
  [.color, .typography, .fontFamily, .fontWeight, .spacing, .radius, .opacity]

/-- The key of the class in a catalog. -/
def key : TokenClass → String
  | .color => "color"
  | .typography => "typography"
  | .fontFamily => "fontFamily"
  | .fontWeight => "fontWeight"
  | .spacing => "spacing"
  | .radius => "radius"
  | .opacity => "opacity"

def typeName : TokenClass → String
  | .radius => "borderRadius"
  | c => c.key

end TokenClass

/-- The face that belongs to a font size. -/
structure Typography where
  fontSize : String
  fontFamily : Option String := none
  fontWeight : Option String := none
  deriving DecidableEq, Repr

inductive Value where
  | number (x : Float)
  | text (s : String)
  | typography (t : Typography)
  deriving DecidableEq

structure DesignToken where
  value : Value
  type : TokenClass
  description : String
  /-- The number of uses that the token stands for. It is not written. -/
  count : Nat
  deriving DecidableEq

def usageText (count : Nat) : String :=
  if count = 1 then "Used 1 time" else "Used " ++ toString count ++ " times"

def DesignToken.ofUses (value : Value) (type : TokenClass) (count : Nat) : DesignToken :=
  ⟨value, type, usageText count, count⟩

structure Catalog where
  color : Entries DesignToken := []
  typography : Entries DesignToken := []
  fontFamily : Entries DesignToken := []
  fontWeight : Entries DesignToken := []
  spacing : Entries DesignToken := []
  radius : Entries DesignToken := []
  opacity : Entries DesignToken := []
  deriving DecidableEq

namespace Catalog

/-- The tokens of a class. -/
def get (catalog : Catalog) : TokenClass → Entries DesignToken
  | .color => catalog.color
  | .typography => catalog.typography
  | .fontFamily => catalog.fontFamily
  | .fontWeight => catalog.fontWeight
  | .spacing => catalog.spacing
  | .radius => catalog.radius
  | .opacity => catalog.opacity

/-- The catalog that has the given tokens in each class. -/
def ofClasses (tokens : TokenClass → Entries DesignToken) : Catalog :=
  { color := tokens .color
    typography := tokens .typography
    fontFamily := tokens .fontFamily
    fontWeight := tokens .fontWeight
    spacing := tokens .spacing
    radius := tokens .radius
    opacity := tokens .opacity }

/-- All tokens with their classes, class by class. -/
def toList (catalog : Catalog) : List (TokenClass × String × DesignToken) :=
  TokenClass.all.flatMap fun c => (catalog.get c).map fun entry => (c, entry)

/-- The number of tokens. -/
def size (catalog : Catalog) : Nat :=
  catalog.toList.length

def colorFor? (catalog : Catalog) (value : String) : Option (String × DesignToken) :=
  catalog.color.find? fun entry => entry.2.value = .text value

end Catalog
end Handoff.Token
