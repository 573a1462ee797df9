import Handoff.Json.Basic
import Handoff.Decimal.Layout

set_option autoImplicit false
set_option relaxedAutoImplicit false

/-!
JSON as it is written, before it means anything: numbers by their digits, texts by their codes, every member of
an object, to any depth. A written value means a value when its numbers are in range, its texts have no half
pairs, and it nests no deeper than a limit.
-/

namespace Handoff

/-- A written value. The codes of a text are code points, or halves of pairs where it has escapes. -/
inductive Written where
  | null
  | bool (b : Bool)
  | number (n : Numeral)
  | text (codes : List Nat)
  | array (items : List Written)
  | object (members : List (List Nat × Written))

namespace Written

/-- How deep a document may nest. -/
def depthLimit : Nat := 127

def codesOf (s : String) : List Nat :=
  s.toList.map Char.toNat

def isHighHalf (code : Nat) : Bool := Nat.ble 0xD800 code && Nat.ble code 0xDBFF
def isLowHalf (code : Nat) : Bool := Nat.ble 0xDC00 code && Nat.ble code 0xDFFF

/-- The characters that codes write; halves of pairs must meet. -/
def charsOf : List Nat → Option (List Char)
  | [] => some []
  | code :: rest =>
    if isHighHalf code then
      match rest with
      | low :: rest =>
        if isLowHalf low then
          (charsOf rest).map (Char.ofNat (0x10000 + (code - 0xD800) * 0x400 + (low - 0xDC00)) :: ·)
        else none
      | [] => none
    else if isLowHalf code then none
    else (charsOf rest).map (Char.ofNat code :: ·)

def textOf (codes : List Nat) : Option String :=
  (charsOf codes).map String.ofList

/-- The value of a written number. Whole ones stay whole in 64 bits; a magnitude without bound has no value. -/
def numberValue (n : Numeral) : Option Json :=
  let magnitude := Numeral.digitsValue n.whole
  if n.isWhole && !n.negative && decide (magnitude < UInt64.size) then some (.int magnitude)
  else if n.isWhole && n.negative && decide (0 < magnitude ∧ magnitude ≤ UInt64.size / 2) then
    some (.int (-(magnitude : Int)))
  else
    let x := n.toFloat
    if x.isFinite then some (.float x) else none

mutual

/-- The value of a written one that nests no deeper than `depth`. Of members with one key the last counts, in the
first one's place. -/
def value (depth : Nat) : Written → Option Json
  | .null => some .null
  | .bool b => some (.bool b)
  | .number n => numberValue n
  | .text codes => (textOf codes).map .string
  | .array items =>
    match depth with
    | 0 => none
    | depth + 1 => (itemValues depth items).map .array
  | .object members =>
    match depth with
    | 0 => none
    | depth + 1 => (memberValues depth members).map fun ms => .object (Entries.putAll [] ms)

def itemValues (depth : Nat) : List Written → Option (List Json)
  | [] => some []
  | w :: ws =>
    match value depth w, itemValues depth ws with
    | some v, some vs => some (v :: vs)
    | _, _ => none

def memberValues (depth : Nat) : List (List Nat × Written) → Option (List (String × Json))
  | [] => some []
  | (codes, w) :: ws =>
    match textOf codes, value depth w, memberValues depth ws with
    | some key, some v, some vs => some ((key, v) :: vs)
    | _, _, _ => none

end

end Written

namespace Json

def wholeNumeral (n : Int) : Numeral :=
  ⟨decide (n < 0), Nat.toDigits 10 n.natAbs, none, none⟩

mutual

/-- How a value is written. -/
def written : Json → Written
  | .null => .null
  | .bool b => .bool b
  | .int n => .number (wholeNumeral n)
  | .float x =>
    match Layout.archive.numeral x with
    | some n => .number n
    | none => .null
  | .string s => .text (Written.codesOf s)
  | .array items => .array (writtenItems items)
  | .object members => .object (writtenMembers members)

def writtenItems : List Json → List Written
  | [] => []
  | v :: vs => written v :: writtenItems vs

def writtenMembers : List (String × Json) → List (List Nat × Written)
  | [] => []
  | (key, v) :: ms => (Written.codesOf key, written v) :: writtenMembers ms

end

end Json
end Handoff
