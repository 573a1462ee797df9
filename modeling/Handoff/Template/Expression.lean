import Handoff.Json.Reader
import Handoff.Template.Basic

set_option autoImplicit false
set_option relaxedAutoImplicit false

/-!
Reading what stands between the braces of a tag: names, paths, literals, and calls.

Each reader takes what it can from the head of a text and gives the rest back.
-/

namespace Handoff.Template
open Written (skipSpace)

def isNameChar (c : Char) : Bool :=
  c.isAlphanum || c == '_' || c == '-' || c == '$' || Nat.ble 0x80 c.toNat

def readName (cs : List Char) : Option (String × List Char) :=
  let name := cs.takeWhile isNameChar
  if name.isEmpty then none else some (String.ofList name, cs.dropWhile isNameChar)

/-- A key of a path: a name, or any text in square brackets. -/
def readKey : List Char → Option (String × List Char)
  | '[' :: cs =>
    match cs.dropWhile (· != ']') with
    | _ :: rest => some (String.ofList (cs.takeWhile (· != ']')), rest)
    | [] => none
  | cs => readName cs

def leading (keys : List String) : List String :=
  keys.filter (· != "this")

/-- One key or more, with points or slashes between them. -/
def readKeys : Nat → List Char → Option (List String × List Char)
  | 0, _ => none
  | steps + 1, cs =>
    match readKey cs with
    | none => none
    | some (key, []) => some ([key], [])
    | some (key, c :: rest) =>
      if c = '.' ∨ c = '/' then
        match readKeys steps rest with
        | some (keys, after) => some (key :: keys, after)
        | none => some ([key], c :: rest)
      else some ([key], c :: rest)

/-- Steps to the data around: all paths begin at the same data, so these lead nowhere. -/
def skipSteps : List Char → List Char
  | '.' :: '.' :: '/' :: cs => skipSteps cs
  | cs => cs

def readPath (cs : List Char) : Option (List String × List Char) :=
  let start := match cs with
    | '.' :: '/' :: rest => skipSteps rest
    | cs => skipSteps cs
  (readKeys (start.length + 1) start).map fun (keys, rest) => (leading keys, rest)

def splitSign : List Char → List Char × List Char
  | '-' :: cs => (['-'], cs)
  | cs => ([], cs)

def splitPower (cs : List Char) : List Char × List Char :=
  match cs with
  | 'E' :: rest =>
    let (sign, rest) := splitSign rest
    if (rest.takeWhile Char.isDigit).isEmpty then ([], cs)
    else ('E' :: sign ++ rest.takeWhile Char.isDigit, rest.dropWhile Char.isDigit)
  | _ => ([], cs)

def splitFraction : List Char → List Char × List Char
  | '.' :: cs => ('.' :: cs.takeWhile Char.isDigit, cs.dropWhile Char.isDigit)
  | cs => ([], cs)

/-- The text of a number, unless a name goes on after it. -/
def splitNumber (cs : List Char) : Option (List Char × List Char) :=
  let (sign, cs) := splitSign cs
  let whole := cs.takeWhile Char.isDigit
  let (fraction, cs) := splitFraction (cs.dropWhile Char.isDigit)
  let (power, cs) := splitPower cs
  if whole.isEmpty || cs.head?.any isNameChar then none else some (sign ++ whole ++ fraction ++ power, cs)

/-- A text in double quotation marks, after the first of them. -/
def readText (cs : List Char) : Option (Argument × List Char) :=
  match Written.readCodes cs with
  | some (codes, rest) => (Written.textOf codes).map fun s => (.literal (.string s), rest)
  | none => none

/-- A text between single quotation marks as it stands between double ones, and what follows it. -/
def requote : List Char → Option (List Char × List Char)
  | [] => none
  | '\'' :: cs => some ([], cs)
  | '\\' :: '\'' :: cs => (requote cs).map fun (inside, rest) => ('\'' :: inside, rest)
  | '\\' :: '"' :: _ => none
  | '\\' :: c :: cs => (requote cs).map fun (inside, rest) => ('\\' :: c :: inside, rest)
  | '"' :: cs => (requote cs).map fun (inside, rest) => ('\\' :: '"' :: inside, rest)
  | c :: cs => (requote cs).map fun (inside, rest) => (c :: inside, rest)

def constants : List (String × Json) :=
  [("null", .null), ("true", .bool true), ("false", .bool false)]

def keywords : List String := ["as", "else"]

/-- An argument that is a word, or a path of words. -/
def readWord (cs : List Char) : Option (Argument × List Char) :=
  match readName cs with
  | some (name, rest) =>
    if keywords.contains name then none
    else match constants.lookup name with
      | some v => some (.literal v, rest)
      | none => (readPath cs).map fun (keys, rest) => (.path keys, rest)
  | none => (readPath cs).map fun (keys, rest) => (.path keys, rest)

/-- An argument that begins with a bracket or a brace: a JSON value where it can be one. -/
def readBracketed (cs : List Char) : Option (Argument × List Char) :=
  match Written.readValue (2 * cs.length + 2) cs with
  | some (w, rest) => (w.value Written.depthLimit).map fun v => (.literal v, rest)
  | none => readWord cs

def readArgument (cs : List Char) : Option (Argument × List Char) :=
  match cs with
  | '"' :: cs => readText cs
  | '\'' :: cs =>
    match requote cs with
    | some (inside, rest) => (readText (inside ++ ['"'])).map fun (argument, _) => (argument, rest)
    | none => none
  | '[' :: _ | '\x7b' :: _ => readBracketed cs
  | _ =>
    match splitNumber cs with
    | some (digits, rest) => (Json.parse (String.ofList digits)).map fun v => (.literal v, rest)
    | none => readWord cs

/-- The name before an equals sign, and what follows the sign. -/
def readSetting (cs : List Char) : Option (String × List Char) :=
  match readName cs with
  | some (name, rest) =>
    match skipSpace rest with
    | '=' :: rest => some (name, rest)
    | _ => none
  | none => none

/-- What a helper is given, up to the brace after it. -/
def readGiven : Nat → List Char → Option (Given × List Char)
  | 0, _ => none
  | steps + 1, cs =>
    match skipSpace cs with
    | [] => none
    | '\x7d' :: rest => some ({}, '\x7d' :: rest)
    | c :: cs =>
      match readSetting (c :: cs) with
      | some (name, cs) =>
        match readArgument (skipSpace cs) with
        | some (argument, cs) =>
          (readGiven steps cs).map fun (given, rest) =>
            (⟨given.inOrder, (name, argument) :: given.byName⟩, rest)
        | none => none
      | none =>
        match readArgument (c :: cs) with
        | some (argument, cs) =>
          (readGiven steps cs).map fun (given, rest) => (⟨argument :: given.inOrder, given.byName⟩, rest)
        | none => none

/-- A name and what follows it up to a brace. -/
def readCall (cs : List Char) : Option (Call × List Char) :=
  match readName (skipSpace cs) with
  | some (name, cs) => (readGiven (cs.length + 1) cs).map fun (given, rest) => (⟨name, given⟩, rest)
  | none => none

end Handoff.Template
