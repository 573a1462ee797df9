import Handoff.Token.StyleSheet
import Handoff.Json.Printer

set_option autoImplicit false
set_option relaxedAutoImplicit false

/-!
Catalogs as a TypeScript module: a constant object with the value of every token.
-/

namespace Handoff.Token

/-- The part of a typography object, when the token has it. -/
def partField (key : String) : Option String → List String
  | none => []
  | some value => [key ++ ": " ++ Json.quote value]

def Value.expression : Value → String
  | .number x => plainText x
  | .text s => Json.quote s
  | .typography t =>
    "\x7b " ++ String.intercalate ", " (("fontSize: " ++ Json.quote t.fontSize)
      :: partField "fontFamily" t.fontFamily ++ partField "fontWeight" t.fontWeight) ++ " \x7d"

def classLines (key : String) (tokens : Entries DesignToken) : List String :=
  if tokens.isEmpty then ["  " ++ key ++ ": \x7b\x7d,"]
  else
    ("  " ++ key ++ ": \x7b")
      :: tokens.map (fun entry => "    " ++ Json.quote entry.1 ++ ": " ++ entry.2.value.expression ++ ",")
      ++ ["  \x7d,"]

def Catalog.moduleLines (catalog : Catalog) : List String :=
  "export const tokens = \x7b" :: TokenClass.all.flatMap (fun c => classLines c.key (catalog.get c))
    ++ ["\x7d as const;", "", "export type Tokens = typeof tokens;"]

/-- The text of the module. -/
def Catalog.typeScript (catalog : Catalog) : String :=
  Text.unlines catalog.moduleLines

end Handoff.Token
