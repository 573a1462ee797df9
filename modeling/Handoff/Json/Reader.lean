import Handoff.Json.Written
import Handoff.Text.Character

set_option autoImplicit false
set_option relaxedAutoImplicit false

/-!
Reading JSON text. Nothing but white space may stand around the value, and a text has one reading at most.
-/

namespace Handoff
namespace Written

def isSpace (c : Char) : Bool :=
  c = ' ' || c = '\n' || c = '\t' || c = '\r'

def skipSpace (cs : List Char) : List Char :=
  cs.dropWhile isSpace

def hexCode? (a b c d : Char) : Option Nat :=
  match Text.hexDigit? a, Text.hexDigit? b, Text.hexDigit? c, Text.hexDigit? d with
  | some a, some b, some c, some d => some (((a * 16 + b) * 16 + c) * 16 + d)
  | _, _, _, _ => none

/-- The code that a letter after a backslash stands for. -/
def escapeCode? (c : Char) : Option Nat :=
  if c = '"' then some 0x22
  else if c = '\\' then some 0x5C
  else if c = '/' then some 0x2F
  else if c = 'b' then some 0x8
  else if c = 'f' then some 0xC
  else if c = 'n' then some 0xA
  else if c = 'r' then some 0xD
  else if c = 't' then some 0x9
  else none

/-- The codes of a text up to its closing quote, and what follows it. -/
def readCodes : List Char → Option (List Nat × List Char)
  | [] => none
  | c :: rest =>
    if c = '"' then some ([], rest)
    else if c = '\\' then
      match rest with
      | [] => none
      | e :: rest =>
        if e = 'u' then
          match rest with
          | a :: b :: c :: d :: rest =>
            match hexCode? a b c d with
            | some code => (readCodes rest).map fun (codes, rest) => (code :: codes, rest)
            | none => none
          | _ => none
        else
          match escapeCode? e with
          | some code => (readCodes rest).map fun (codes, rest) => (code :: codes, rest)
          | none => none
    else if c.toNat < 0x20 then none
    else (readCodes rest).map fun (codes, rest) => (c.toNat :: codes, rest)

mutual

/-- The value at the head of a text, and what follows it. The number bounds the steps. -/
def readValue : Nat → List Char → Option (Written × List Char)
  | 0, _ => none
  | steps + 1, cs =>
    match skipSpace cs with
    | 'n' :: 'u' :: 'l' :: 'l' :: rest => some (.null, rest)
    | 't' :: 'r' :: 'u' :: 'e' :: rest => some (.bool true, rest)
    | 'f' :: 'a' :: 'l' :: 's' :: 'e' :: rest => some (.bool false, rest)
    | '"' :: rest => (readCodes rest).map fun (codes, rest) => (.text codes, rest)
    | '[' :: rest =>
      match skipSpace rest with
      | ']' :: rest => some (.array [], rest)
      | rest => (readItems steps rest).map fun (items, rest) => (.array items, rest)
    | '\x7b' :: rest =>
      match skipSpace rest with
      | '\x7d' :: rest => some (.object [], rest)
      | rest => (readMembers steps rest).map fun (members, rest) => (.object members, rest)
    | rest => (Numeral.read rest).map fun (n, rest) => (.number n, rest)

def readItems : Nat → List Char → Option (List Written × List Char)
  | 0, _ => none
  | steps + 1, cs =>
    match readValue steps cs with
    | none => none
    | some (w, rest) =>
      match skipSpace rest with
      | ',' :: rest => (readItems steps rest).map fun (ws, rest) => (w :: ws, rest)
      | ']' :: rest => some ([w], rest)
      | _ => none

def readMembers : Nat → List Char → Option (List (List Nat × Written) × List Char)
  | 0, _ => none
  | steps + 1, cs =>
    match skipSpace cs with
    | '"' :: rest =>
      match readCodes rest with
      | none => none
      | some (codes, rest) =>
        match skipSpace rest with
        | ':' :: rest =>
          match readValue steps rest with
          | none => none
          | some (w, rest) =>
            match skipSpace rest with
            | ',' :: rest => (readMembers steps rest).map fun (ms, rest) => ((codes, w) :: ms, rest)
            | '\x7d' :: rest => some ([(codes, w)], rest)
            | _ => none
        | _ => none
    | _ => none

end

/-- The written value that a whole text is. -/
def read (s : String) : Option Written :=
  let cs := s.toList
  match readValue (2 * cs.length + 2) cs with
  | some (w, rest) => if (skipSpace rest).isEmpty then some w else none
  | none => none

end Written

/-- The value that a text writes. -/
def Json.parse (s : String) : Option Json :=
  (Written.read s).bind (Written.value Written.depthLimit)

end Handoff
