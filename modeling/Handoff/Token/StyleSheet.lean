import Handoff.Token.Catalog
import Handoff.Decimal.Layout
import Handoff.Text.Split

set_option autoImplicit false
set_option relaxedAutoImplicit false

/-!
Catalogs as a block of custom properties. A typography token makes up to three of them.
-/

namespace Handoff.Token

structure Declaration where
  name : String
  value : String
  deriving DecidableEq, Repr

def Declaration.line (d : Declaration) : String :=
  "  --" ++ d.name ++ ": " ++ d.value ++ ";"

/-- The declaration for a part of a token, when the token has it. -/
def partOf (name : String) : Option String → List Declaration
  | none => []
  | some value => [⟨name, value⟩]

/-- The declarations of a token. -/
def Value.declarations (name : String) : Value → List Declaration
  | .number x => [⟨name, plainText x⟩]
  | .text s => [⟨name, s⟩]
  | .typography t =>
    ⟨name ++ "-size", t.fontSize⟩ :: partOf (name ++ "-family") t.fontFamily
      ++ partOf (name ++ "-weight") t.fontWeight

/-- The declarations of a catalog, in its order. -/
def Catalog.declarations (catalog : Catalog) : List Declaration :=
  catalog.toList.flatMap fun (_, name, token) => token.value.declarations name

/-- The block of custom properties. -/
def Catalog.styleSheet (catalog : Catalog) : String :=
  Text.unlines (":root \x7b" :: catalog.declarations.map Declaration.line ++ ["\x7d"])

end Handoff.Token
