import Handoff.Token.Catalog
import Handoff.Json.Printer
import Handoff.Json.Reader
import Handoff.Json.Slots

set_option autoImplicit false
set_option relaxedAutoImplicit false

/-!
Catalogs as JSON: an object for each class, with a value, a type and a description for each token.
-/

namespace Handoff.Token

def optionalText (key : String) : Option String → Members
  | none => []
  | some s => [(key, .string s)]

def Typography.encode (t : Typography) : Json :=
  .object (("fontSize", .string t.fontSize) :: optionalText "fontFamily" t.fontFamily
    ++ optionalText "fontWeight" t.fontWeight)

def Value.encode : Value → Json
  | .number x => .ofFloat x
  | .text s => .string s
  | .typography t => t.encode

def DesignToken.encode (token : DesignToken) : Json :=
  .object [("value", token.value.encode), ("type", .string token.type.typeName),
    ("description", .string token.description)]

def Catalog.encode (catalog : Catalog) : Json :=
  .object (TokenClass.all.map fun c =>
    (c.key, .object ((catalog.get c).map fun entry => (entry.1, entry.2.encode))))

/-- The catalog's JSON text. -/
def Catalog.json (catalog : Catalog) : String :=
  catalog.encode.pretty

def TokenClass.words : List (String × TokenClass) :=
  TokenClass.all.map fun c => (c.typeName, c)

def Typography.decode (w : Written) : Option Typography :=
  match w.slots ["fontSize", "fontFamily", "fontWeight"] with
  | some [some size, family, weight] => do
    let fontSize ← size.text?
    let fontFamily ← Written.slotD (Written.optional? Written.text?) none family
    let fontWeight ← Written.slotD (Written.optional? Written.text?) none weight
    return { fontSize, fontFamily, fontWeight }
  | _ => none

/-- A token's value, which must mean something three levels down in a document. -/
def Value.decode (w : Written) : Option Value :=
  match w.value (Written.depthLimit - 3) with
  | none => none
  | some v =>
    match v.number?, v.string? with
    | some x, _ => some (.number x)
    | none, some s => some (.text s)
    | none, none => (Typography.decode w).map .typography

/-- A token that was written; the number of its uses is not. -/
def DesignToken.decode (w : Written) : Option DesignToken :=
  match w.slots ["value", "type", "description"] with
  | some [some value, some type, some description] => do
    let value ← Value.decode value
    let type ← Written.choice? TokenClass.words type
    let description ← description.text?
    return { value, type, description, count := 0 }
  | _ => none

def decodeTokens : Entries Written → Option (Entries DesignToken)
  | [] => some []
  | (name, w) :: rest =>
    match DesignToken.decode w, decodeTokens rest with
    | some token, some tokens => some ((name, token) :: tokens)
    | _, _ => none

/-- The tokens of a class. Of tokens with one name the last counts, in the first one's place. -/
def decodeClass : Written → Option (Entries DesignToken)
  | .object members => ((Written.keyed members).bind decodeTokens).map (Entries.putAll [])
  | _ => none

/-- A written catalog, which has all the classes. -/
def Catalog.decode (w : Written) : Option Catalog :=
  match w.slots (TokenClass.all.map TokenClass.key) with
  | some [some color, some typography, some fontFamily, some fontWeight, some spacing, some radius,
      some opacity] => do
    let color ← decodeClass color
    let typography ← decodeClass typography
    let fontFamily ← decodeClass fontFamily
    let fontWeight ← decodeClass fontWeight
    let spacing ← decodeClass spacing
    let radius ← decodeClass radius
    let opacity ← decodeClass opacity
    return { color, typography, fontFamily, fontWeight, spacing, radius, opacity }
  | _ => none

/-- The catalog that a text writes. -/
def Catalog.parse (text : String) : Option Catalog :=
  (Written.read text).bind Catalog.decode

end Handoff.Token
