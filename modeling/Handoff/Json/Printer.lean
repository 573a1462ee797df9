import Handoff.Json.Written

set_option autoImplicit false
set_option relaxedAutoImplicit false

/-!
The text of JSON, on one line or indented.
-/

namespace Handoff
namespace Written

/-- What stands between the parts of a value. -/
structure Spacing where
  /-- Between the parts at a depth. -/
  line : Nat → List Char
  /-- After the colon of a member. -/
  gap : List Char

/-- All on one line. -/
def Spacing.compact : Spacing :=
  ⟨fun _ => [], []⟩

/-- A line for each part, two spaces for each depth. -/
def Spacing.pretty : Spacing :=
  ⟨fun depth => '\n' :: List.replicate (2 * depth) ' ', [' ']⟩

def numberedCode (code : Nat) : List Char :=
  let ds := Nat.toDigits 16 code
  ['\\', 'u'] ++ List.replicate (4 - ds.length) '0' ++ ds

/-- A code of a text as it stands between quotes. -/
def codeChars (code : Nat) : List Char :=
  if code = 0x22 then ['\\', '"']
  else if code = 0x5C then ['\\', '\\']
  else if code = 0x8 then ['\\', 'b']
  else if code = 0xC then ['\\', 'f']
  else if code = 0xA then ['\\', 'n']
  else if code = 0xD then ['\\', 'r']
  else if code = 0x9 then ['\\', 't']
  else if code < 0x20 ∨ isHighHalf code ∨ isLowHalf code then numberedCode code
  else [Char.ofNat code]

def textChars (codes : List Nat) : List Char :=
  '"' :: codes.flatMap codeChars ++ ['"']

mutual

/-- The text of a written value whose parts stand at `depth + 1`. -/
def chars (spacing : Spacing) (depth : Nat) : Written → List Char
  | .null => "null".toList
  | .bool true => "true".toList
  | .bool false => "false".toList
  | .number n => n.chars
  | .text codes => textChars codes
  | .array [] => ['[', ']']
  | .array (w :: ws) =>
    '[' :: spacing.line (depth + 1) ++ chars spacing (depth + 1) w ++ itemChars spacing (depth + 1) ws
      ++ spacing.line depth ++ [']']
  | .object [] => ['\x7b', '\x7d']
  | .object ((codes, w) :: ms) =>
    '\x7b' :: spacing.line (depth + 1) ++ textChars codes ++ ':' :: spacing.gap
      ++ chars spacing (depth + 1) w ++ memberChars spacing (depth + 1) ms
      ++ spacing.line depth ++ ['\x7d']

def itemChars (spacing : Spacing) (depth : Nat) : List Written → List Char
  | [] => []
  | w :: ws => ',' :: spacing.line depth ++ chars spacing depth w ++ itemChars spacing depth ws

def memberChars (spacing : Spacing) (depth : Nat) : List (List Nat × Written) → List Char
  | [] => []
  | (codes, w) :: ms =>
    ',' :: spacing.line depth ++ textChars codes ++ ':' :: spacing.gap ++ chars spacing depth w
      ++ memberChars spacing depth ms

end

end Written

namespace Json

/-- The text of a value with the given spacing. -/
def print (spacing : Written.Spacing) (v : Json) : String :=
  String.ofList (v.written.chars spacing 0)

/-- The text of a value on one line. -/
def compact (v : Json) : String :=
  v.print .compact

/-- The text of a value with a line for each part. -/
def pretty (v : Json) : String :=
  v.print .pretty

def quote (s : String) : String :=
  (Json.string s).compact

end Json
end Handoff
