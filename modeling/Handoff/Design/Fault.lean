import Handoff.Json.Printer
import Handoff.Text.Quoted

set_option autoImplicit false
set_option relaxedAutoImplicit false

/-!
What can be wrong with a value that should be a design, and the words for it.
-/

namespace Handoff.Design

/-- What a place in a document asks for. -/
inductive Expected where
  | text
  | number
  | word
  | flag
  | sequence
  | fourNumbers
  | point
  | size
  | node
  | tree
  | choice
  | nothing
  deriving DecidableEq, Repr

def Expected.name : Expected → String
  | .text => "a string"
  | .number => "f64"
  | .word => "u32"
  | .flag => "a boolean"
  | .sequence => "a sequence"
  | .fourNumbers => "an array of length 4"
  | .point => "struct Point"
  | .size => "struct Size"
  | .node => "struct Node"
  | .tree => "struct DesignTree"
  | .choice => "string or map"
  | .nothing => "unit"

/-- The first thing wrong with a design. -/
inductive Fault where
  | missing (field : String)
  /-- The type of a node is no text. -/
  | typeNotText (found : Json)
  | wrongKind (found : Json) (expected : Expected)
  /-- A whole number that does not fit in a word of 32 bits. -/
  | outOfRange (found : Int)
  /-- A choice written as an object with no member or with several. -/
  | notOneMember
  | tooShort (length : Nat) (expected : Expected)
  | tooLong (length : Nat)
  | unknownWord (found : String) (words : List String)
  | noPadding
  | noFontWeight

def describe : Json → String
  | .null => "null"
  | .bool b => "boolean `" ++ (if b then "true" else "false") ++ "`"
  | .int n => "integer `" ++ (Json.int n).compact ++ "`"
  | .float x => "floating point `" ++ (Json.float x).compact ++ "`"
  | .string s => "string " ++ Text.Quoted.quote s
  | .array _ => "sequence"
  | .object _ => "map"

def Expected.ofLength : Expected → String
  | .point => "struct Point with 2 elements"
  | .size => "struct Size with 2 elements"
  | expected => expected.name

def ticked (word : String) : String :=
  "`" ++ word ++ "`"

def choices : List String → String
  | [a, b] => ticked a ++ " or " ++ ticked b
  | words => "one of " ++ String.intercalate ", " (words.map ticked)

def Fault.message : Fault → String
  | .missing field => "missing field " ++ ticked field
  | .typeNotText found => "node type must be a string, found " ++ found.compact
  | .wrongKind found expected => "invalid type: " ++ describe found ++ ", expected " ++ expected.name
  | .outOfRange found => "invalid value: " ++ describe (.int found) ++ ", expected u32"
  | .notOneMember => "invalid value: map, expected map with a single key"
  | .tooShort length expected =>
    "invalid length " ++ toString length ++ ", expected " ++ expected.ofLength
  | .tooLong length => "invalid length " ++ toString length ++ ", expected fewer elements in array"
  | .unknownWord found words =>
    "unknown variant " ++ ticked found ++ ", expected " ++ choices words
  | .noPadding => "data did not match any variant of untagged enum Padding"
  | .noFontWeight => "data did not match any variant of untagged enum FontWeight"

end Handoff.Design
