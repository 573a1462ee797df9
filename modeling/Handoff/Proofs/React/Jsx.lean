import Handoff.Decimal.Numeral
import Handoff.Proofs.Text.Lines
import Handoff.Proofs.Text.Scan

set_option autoImplicit false
set_option relaxedAutoImplicit false

/-!
A reader of markup, as far as components have it: elements with attributes, texts with entities, and comments.

What is read keeps every text as it stands for, before white space is folded. Steps bound the nesting and the number of
pieces; there are always enough where they are as many as the characters.
-/

namespace Handoff.React

/-- An expression in an attribute: a literal, or a number or a name as it is written. -/
inductive Expression where
  | literal (s : String)
  | word (s : String)
  deriving DecidableEq, Repr

inductive Given where
  | quoted (s : String)
  | style (entries : List (String × Expression))
  | expression (e : Expression)
  deriving DecidableEq, Repr

inductive Jsx where
  | text (s : String)
  | comment (s : String)
  | element (tag : String) (attributes : List (String × Given)) (children : List Jsx)
  deriving Repr

/-- An opening tag that has been read. -/
structure Tag where
  name : String
  attributes : List (String × Given)
  deriving DecidableEq, Repr

namespace Jsx

def isNameChar (c : Char) : Bool :=
  c.isAlphanum || c == '_'

def isGap (c : Char) : Bool :=
  c == ' ' || c == '\n'

def skipGap (cs : List Char) : List Char :=
  cs.dropWhile isGap

/-- The characters that have an entity, by its name. -/
def entities : List (List Char × Char) :=
  [("amp".toList, '&'), ("lt".toList, '<'), ("gt".toList, '>'), ("quot".toList, '"'), ("#39".toList, '\''),
    ("#123".toList, '\x7b'), ("#125".toList, '\x7d')]

/-- A text with its entities resolved, from within the name of one if there is a name. -/
def resolve : Option (List Char) → List Char → Option (List Char)
  | none, [] => some []
  | some _, [] => none
  | none, c :: cs => if c = '&' then resolve (some []) cs else (resolve none cs).map (c :: ·)
  | some name, c :: cs =>
    if c = ';' then
      match entities.lookup name with
      | some d => (resolve none cs).map (d :: ·)
      | none => none
    else resolve (some (name ++ [c])) cs

/-- The character that is meant by one after a backslash. -/
def unescape? (c : Char) : Option Char :=
  if c = 'n' then some '\n'
  else if c = 'r' then some '\r'
  else if c = '\\' ∨ c = '\'' then some c
  else none

/-- A literal from after its opening quote on, or from after a backslash in it. -/
def readLiteral : Bool → List Char → Option (List Char × List Char)
  | _, [] => none
  | true, c :: cs =>
    match unescape? c with
    | some d => (readLiteral false cs).map fun r => (d :: r.1, r.2)
    | none => none
  | false, c :: cs =>
    if c = '\'' then some ([], cs)
    else if c = '\n' ∨ c = '\r' then none
    else if c = '\\' then readLiteral true cs
    else (readLiteral false cs).map fun r => (c :: r.1, r.2)

def isWordChar (c : Char) : Bool :=
  isNameChar c || c == '.' || c == '-' || c == '+'

/-- True of a name: it does not begin with a digit. -/
def isName (cs : List Char) : Bool :=
  cs.all isNameChar && cs.head?.any fun c => !c.isDigit

/-- True of a number, or of a name that may have a sign. -/
def isWord (cs : List Char) : Bool :=
  (Numeral.read cs).any (fun r => r.2.isEmpty) || isName cs || (cs.head? == some '-' && isName cs.tail)

def readExpression : List Char → Option (Expression × List Char)
  | '\'' :: cs => (readLiteral false cs).map fun r => (.literal (String.ofList r.1), r.2)
  | cs =>
    let (word, rest) := Text.takeRun isWordChar cs
    if isWord word.toList then some (.word word, rest) else none

/-- The name at the head of a text, which has at least one character. -/
def readName (cs : List Char) : Option (String × List Char) :=
  match Text.takeRun isNameChar cs with
  | ("", _) => none
  | (name, rest) => some (name, rest)

/-- An entry of a style: its key and its value. -/
def readEntry (cs : List Char) : Option ((String × Expression) × List Char) := do
  let (key, rest) ← readName (skipGap cs)
  let rest ← Text.after? ":" rest
  let (value, rest) ← readExpression (skipGap rest)
  return ((key, value), skipGap rest)

def readEntries : Nat → List Char → Option (List (String × Expression) × List Char)
  | 0, _ => none
  | steps + 1, cs =>
    match readEntry cs with
    | some (entry, ',' :: rest) => (readEntries steps rest).map fun r => (entry :: r.1, r.2)
    | some (entry, '\x7d' :: '\x7d' :: rest) => some ([entry], rest)
    | _ => none

def readGiven : List Char → Option (Given × List Char)
  | '"' :: cs => do
    let (raw, rest) := Text.takeRun (· != '"') cs
    let meant ← resolve none raw.toList
    let rest ← Text.after? "\"" rest
    return (.quoted (String.ofList meant), rest)
  | '\x7b' :: '\x7b' :: cs => (readEntries cs.length cs).map fun r => (.style r.1, r.2)
  | '\x7b' :: cs => do
    let (e, rest) ← readExpression cs
    let rest ← Text.after? "\x7d" rest
    return (.expression e, rest)
  | _ => none

def readAttribute (cs : List Char) : Option ((String × Given) × List Char) := do
  let (name, rest) ← readName cs
  let rest ← Text.after? "=" rest
  let (given, rest) ← readGiven rest
  return ((name, given), rest)

/-- The attributes of an element, up to the end mark of its tag. -/
def readAttributes : Nat → List Char → Option (List (String × Given) × List Char)
  | 0, _ => none
  | steps + 1, cs =>
    let cs := skipGap cs
    if cs.head?.any isNameChar then
      match readAttribute cs with
      | some (first, rest) => (readAttributes steps rest).map fun r => (first :: r.1, r.2)
      | none => none
    else some ([], cs)

/-- What stands in a comment, up to the first mark that closes it. -/
def readInner : List Char → Option (List Char × List Char)
  | '*' :: '/' :: cs => some ([], cs)
  | c :: cs => (readInner cs).map fun r => (c :: r.1, r.2)
  | [] => none

def readComment (cs : List Char) : Option (Jsx × List Char) := do
  let rest ← Text.after? "\x7b/*" cs
  let (inner, rest) ← readInner rest
  let rest ← Text.after? "\x7d" rest
  return (.comment (String.ofList inner), rest)

def isDelimiter (c : Char) : Bool :=
  c == '<' || c == '>' || c == '\x7b' || c == '\x7d'

def readText (cs : List Char) : Option (Jsx × List Char) :=
  let (raw, rest) := Text.takeRun (fun c => !isDelimiter c) cs
  if raw = "" then none
  else (resolve none raw.toList).map fun meant => (.text (String.ofList meant), rest)

mutual

/-- An element, from its opening tag to its closing one. -/
def readElement : Nat → List Char → Option (Jsx × List Char)
  | 0, _ => none
  | steps + 1, cs => do
    let rest ← Text.after? "<" cs
    let (tag, rest) ← readName rest
    let (attributes, rest) ← readAttributes cs.length rest
    match Text.after? "/>" rest with
    | some rest => return (.element tag attributes [], rest)
    | none =>
      let rest ← Text.after? ">" rest
      let (children, rest) ← readPieces steps rest
      let rest ← Text.after? ("</" ++ tag ++ ">") rest
      return (.element tag attributes children, rest)

def readPieces : Nat → List Char → Option (List Jsx × List Char)
  | 0, _ => none
  | _ + 1, [] => some ([], [])
  | steps + 1, c :: cs =>
    if c = '<' ∧ cs.head? = some '/' then some ([], c :: cs)
    else
      let piece := if c = '<' then readElement steps (c :: cs)
        else if c = '\x7b' then readComment (c :: cs)
        else readText (c :: cs)
      match piece with
      | some (first, rest) => (readPieces steps rest).map fun r => (first :: r.1, r.2)
      | none => none

end

/-- The text after the first line that opens what is returned. -/
def afterReturn? (text : String) : Option String :=
  match (Text.lines text).dropWhile fun line => skipGap line.toList != "return (".toList with
  | _ :: rest => some (String.intercalate "\n" rest)
  | [] => none

/-- The lines before the first one that opens what is returned. -/
def linesBeforeReturn (text : String) : List String :=
  (Text.lines text).takeWhile fun line => skipGap line.toList != "return (".toList

/-- The element that a component returns; `none` where what it returns is not one element. -/
def ofComponent? (source : String) : Option Jsx := do
  let body ← afterReturn? source
  let (jsx, rest) ← readElement body.length (skipGap body.toList)
  let _ ← Text.after? ");" (skipGap rest)
  return jsx

end Jsx

/-- The shape of markup: its elements with what images show, its texts and its comments. -/
inductive Outline where
  | text (s : String)
  | comment (s : String)
  | element (tag : String) (image : List (String × String)) (children : List Outline)
  deriving Repr

namespace Jsx

def isText : Jsx → Bool
  | .text _ => true
  | _ => false

def isLayout : Jsx → Bool
  | .text s => s.toList.all isGap
  | _ => false

/-- What an image shows: its source, and the text that stands for it. -/
def imageTexts (attributes : List (String × Given)) : List (String × String) :=
  attributes.filterMap fun
    | (name, .quoted s) => if name = "src" ∨ name = "alt" then some (name, s) else none
    | _ => none

mutual

/-- The shape of what was read. White space counts in an element that has only text. -/
def outline : Jsx → Outline
  | .text s => .text s
  | .comment s => .comment s
  | .element tag attributes children =>
    .element tag (imageTexts attributes) (outlines (children.all isText) children)

/-- The shapes of pieces, with the white space around elements or without it. -/
def outlines (spaced : Bool) : List Jsx → List Outline
  | [] => []
  | piece :: rest =>
    if !spaced && piece.isLayout then outlines spaced rest else piece.outline :: outlines spaced rest

end

mutual

/-- The elements in the order of the text, each as the tags around it with its own at the end. A drawing area is one
element with all that it shows. -/
def nests (around : List Tag) : Jsx → List (List Tag)
  | .text _ => []
  | .comment _ => []
  | .element tag attributes children =>
    (around ++ [⟨tag, attributes⟩])
      :: (if tag = "svg" then [] else nestsAll (around ++ [⟨tag, attributes⟩]) children)

def nestsAll (around : List Tag) : List Jsx → List (List Tag)
  | [] => []
  | piece :: rest => piece.nests around ++ nestsAll around rest

end

/-- The elements of what a component returns; none where that is not one element. -/
def nestsOf (source : String) : List (List Tag) :=
  match ofComponent? source with
  | some jsx => jsx.nests []
  | none => []

end Jsx

end Handoff.React
