import Handoff.Archive.Envelope
import Handoff.React.Component
import Handoff.Roblox.Drawing
import Handoff.Token.Extract

set_option autoImplicit false
set_option relaxedAutoImplicit false

/-!
The options of every artifact in one object, any part of which may be left out.
-/

namespace Handoff

structure Settings where
  json : Archive.Options := {}
  react : React.Options := {}
  tokens : Token.Options := {}
  roblox : Roblox.Options := {}
  deriving DecidableEq

namespace Settings

def withJson (settings : Settings) (options : Archive.Options) : Settings :=
  { settings with json := options }

def withReact (settings : Settings) (options : React.Options) : Settings :=
  { settings with react := options }

def withTokens (settings : Settings) (options : Token.Options) : Settings :=
  { settings with tokens := options }

def withRoblox (settings : Settings) (options : Roblox.Options) : Settings :=
  { settings with roblox := options }

def isDefault (settings : Settings) : Bool :=
  decide (settings = {})

def encode (settings : Settings) : Json :=
  .object [("json", settings.json.encode), ("react", settings.react.encode),
    ("tokens", settings.tokens.encode), ("roblox", settings.roblox.encode)]

def decode (w : Written) : Option Settings :=
  match w.slots ["json", "react", "tokens", "roblox"] with
  | some [json, react, tokens, roblox] => do
    let json ← Written.slotD Archive.Options.decode {} json
    let react ← Written.slotD React.Options.decode {} react
    let tokens ← Written.slotD Token.Options.decode {} tokens
    let roblox ← Written.slotD Roblox.Options.decode {} roblox
    return { json, react, tokens, roblox }
  | _ => none

/-- The settings that a text writes. -/
def parse (text : String) : Option Settings :=
  (Written.read text).bind decode

/-- The text of settings, which reads as them. -/
def text (settings : Settings) : String :=
  settings.encode.compact

end Settings
end Handoff
