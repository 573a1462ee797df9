import Handoff.Decimal.Pixel
import Handoff.React.Literal
import Handoff.Text.Split

set_option autoImplicit false
set_option relaxedAutoImplicit false

/-!
Markup of components, and its lines.
-/

namespace Handoff.React

inductive StyleValue where
  | number (x : Float)
  | text (s : String)
  deriving DecidableEq

def StyleValue.expression : StyleValue → String
  | .number x => pixelText x
  | .text s => literal s

abbrev Style := List (String × StyleValue)

inductive Attribute where
  | classes (names : List String)
  | style (entries : Style)
  | text (name value : String)
  | number (name : String) (x : Float)
  deriving DecidableEq

/-- An attribute with the space before it. Without classes or entries nothing is written. -/
def Attribute.print : Attribute → String
  | .classes [] => ""
  | .classes names => " className=\"" ++ String.intercalate " " names ++ "\""
  | .style [] => ""
  | .style entries =>
    " style=\x7b\x7b "
      ++ String.intercalate ", " (entries.map fun entry => entry.1 ++ ": " ++ entry.2.expression)
      ++ " \x7d\x7d"
  | .text name value => " " ++ name ++ "=\"" ++ escape value ++ "\""
  | .number name x => " " ++ name ++ "=\x7b" ++ pixelText x ++ "\x7d"

inductive Markup where
  | comment (text : String)
  /-- An element with nothing in it. -/
  | void (tag : String) (attributes : List Attribute)
  /-- An element with a text in it. -/
  | label (tag : String) (attributes : List Attribute) (text : String)
  /-- An element with others in it. -/
  | group (tag : String) (attributes : List Attribute) (children : List Markup)

/-- The beginning of a tag, up to its end mark. -/
def tagHead (tag : String) (attributes : List Attribute) : String :=
  "<" ++ tag ++ String.join (attributes.map Attribute.print)

mutual

/-- The lines of markup at a depth. -/
def Markup.lines (depth : Nat) : Markup → List String
  | .comment text => [Text.indent depth ++ "\x7b/* " ++ commentText text ++ " */\x7d"]
  | .void tag attributes => [Text.indent depth ++ tagHead tag attributes ++ " />"]
  | .label tag attributes text =>
    [Text.indent depth ++ tagHead tag attributes ++ ">" ++ escape text ++ "</" ++ tag ++ ">"]
  | .group tag attributes children =>
    (Text.indent depth ++ tagHead tag attributes ++ ">") :: Markup.linesAll (depth + 1) children
      ++ [Text.indent depth ++ "</" ++ tag ++ ">"]

def Markup.linesAll (depth : Nat) : List Markup → List String
  | [] => []
  | m :: ms => m.lines depth ++ Markup.linesAll depth ms

end

end Handoff.React
