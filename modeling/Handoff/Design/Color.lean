import Handoff.Text.Character
import Handoff.Text.Split
import Handoff.Decimal.Pixel

set_option autoImplicit false
set_option relaxedAutoImplicit false

/-!
Colors, read from their hexadecimal and functional forms.

A text in no such form paints nothing; names of colors are not read.
-/

namespace Handoff.Design

/-- A color of three channels, with its opacity from 0 to 1. -/
structure Rgba where
  r : UInt8
  g : UInt8
  b : UInt8
  a : Float
  deriving DecidableEq

namespace Rgba

/-- The opacity that a byte writes. -/
def byteAlpha (byte : UInt8) : Float :=
  byte.toFloat / 255

/-- The color that three, six or eight hexadecimal digits write. -/
def ofHex? (digits : List Char) : Option Rgba :=
  let byte (high low : Nat) : UInt8 := UInt8.ofNat (16 * high + low)
  match digits.mapM Text.hexDigit? with
  | some [r, g, b] => some ⟨byte r r, byte g g, byte b b, 1⟩
  | some [r, r', g, g', b, b'] => some ⟨byte r r', byte g g', byte b b', 1⟩
  | some [r, r', g, g', b, b', a, a'] =>
    some ⟨byte r r', byte g g', byte b b', byteAlpha (byte a a')⟩
  | _ => none

/-- A finite number among the arguments of a functional form. -/
def argument? (cs : List Char) : Option Float :=
  match Numeral.readFree cs with
  | some x => if x.isFinite then some x else none
  | none => none

def channel (x : Float) : UInt8 :=
  (clamp 0 255 (roundHalfAway x)).toUInt8

/-- The color that the arguments of a functional form give. -/
def ofArguments? (withAlpha : Bool) (arguments : List Char) : Option Rgba :=
  let parts := (Text.splitAt ',' arguments).map (Text.trimBy Text.isBlank)
  match withAlpha, parts.mapM argument? with
  | true, some [r, g, b, a] => some ⟨channel r, channel g, channel b, clamp 0 1 a⟩
  | false, some [r, g, b] => some ⟨channel r, channel g, channel b, 1⟩
  | _, _ => none

/-- The color that a text writes. -/
def parse? (s : String) : Option Rgba :=
  match Text.trimBy Text.isBlank s.toList with
  | '#' :: digits => ofHex? digits
  | cs =>
    let small := cs.map Char.toLower
    match Text.enclosed? "rgba(".toList ')' small with
    | some arguments => ofArguments? true arguments
    | none =>
      match Text.enclosed? "rgb(".toList ')' small with
      | some arguments => ofArguments? false arguments
      | none => none

/-- The hexadecimal form: six digits for an opaque color, eight for any other. -/
def toHex (c : Rgba) : String :=
  let channels := '#' :: Text.hexPair c.r ++ Text.hexPair c.g ++ Text.hexPair c.b
  if 1 ≤ c.a then String.ofList channels
  else String.ofList (channels ++ Text.hexPair (roundHalfAway (clamp 0 1 c.a * 255)).toUInt8)

def isGray (c : Rgba) : Bool :=
  c.r == c.g && c.g == c.b

end Rgba
end Handoff.Design
