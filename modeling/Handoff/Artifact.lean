import Handoff.Archive.Envelope
import Handoff.React.Component
import Handoff.Roblox.Drawing
import Handoff.Settings
import Handoff.Token.Encode
import Handoff.Token.Extract
import Handoff.Token.StyleSheet
import Handoff.Token.TypeScript

set_option autoImplicit false
set_option relaxedAutoImplicit false

/-!
The six artifacts that a design is handed off as, and their names.
-/

namespace Handoff
open Design

inductive Artifact where
  /-- The archive form. -/
  | json
  /-- The source of a component. -/
  | react
  /-- The catalog of tokens. -/
  | tokens
  /-- The tokens as properties of a style sheet. -/
  | css
  /-- The tokens as a module. -/
  | ts
  /-- The script that draws a screen. -/
  | roblox
  deriving DecidableEq, Repr

namespace Artifact

def all : List Artifact :=
  [.json, .react, .tokens, .css, .ts, .roblox]

def name : Artifact → String
  | .json => "json"
  | .react => "react"
  | .tokens => "tokens"
  | .css => "css"
  | .ts => "ts"
  | .roblox => "roblox"

def extension : Artifact → String
  | .json | .tokens => "json"
  | .react => "tsx"
  | .css => "css"
  | .ts => "ts"
  | .roblox => "lua"

def words : List (String × Artifact) :=
  [("json", .json), ("react", .react), ("tokens", .tokens), ("css", .css), ("ts", .ts), ("roblox", .roblox),
    ("luau", .roblox)]

def aliases : List (String × Artifact) :=
  [("tsx", .react), ("jsx", .react)]

/-- The artifact of a name in any letter case, with blanks around it. -/
def ofName? (name : String) : Option Artifact :=
  let small := String.ofList ((Text.trimBy Text.isBlank name.toList).map Char.toLower)
  (words ++ aliases).lookup small

def encode (artifact : Artifact) : Json :=
  .string artifact.name

/-- The artifact that a document names. -/
def decode (w : Written) : Option Artifact :=
  w.choice? words

/-- The artifact's text for a design; `now` is the time of the clock. -/
def produce (settings : Settings) (now : Archive.Instant) (tree : Tree) : Artifact → String
  | .json => Archive.write settings.json now tree
  | .react => React.generate settings.react tree
  | .tokens => (Token.extract settings.tokens tree).json
  | .css => (Token.extract settings.tokens tree).styleSheet
  | .ts => (Token.extract settings.tokens tree).typeScript
  | .roblox => Roblox.generate settings.roblox Roblox.pixelUnits tree

structure UnknownName where
  name : String
  deriving DecidableEq, Repr

def UnknownName.message (e : UnknownName) : String :=
  "Unknown export format: " ++ e.name

def ofName (name : String) : Except UnknownName Artifact :=
  match ofName? name with
  | some artifact => .ok artifact
  | none => .error ⟨name⟩

def produceNamed (settings : Settings) (now : Archive.Instant) (tree : Tree) (name : String) :
    Except UnknownName String :=
  (ofName name).map (produce settings now tree)

end Artifact
end Handoff
