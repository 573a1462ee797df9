import Handoff.Template.Expression
import Handoff.Template.Helper

set_option autoImplicit false
set_option relaxedAutoImplicit false

/-!
Reading templates: a text is cut at its tags, and the tags that belong together become one piece.

A backslash before two braces makes them text. A template is refused as a whole for a tag that cannot be read or
that has no partner; that a helper is not known shows only when it is called.
-/

namespace Handoff.Template
open Written (skipSpace)

/-- A tag as it stands in a template. -/
inductive Tag where
  | piece (p : Piece)
  | opening (c : Call)
  /-- Ends the main pieces; another call may take the place of the other pieces. -/
  | otherwise (next : Option Call)
  | closing (helper : String)

inductive Part where
  | text (s : String)
  | tag (t : Tag)

def afterTag (cs : List Char) : Option (List Char) :=
  match skipSpace cs with
  | '\x7d' :: '\x7d' :: rest => some rest
  | _ => none

/-- A value or a call. A name alone is a value unless it is a helper's. -/
def readInline (cs : List Char) : Option (Piece × List Char) :=
  match readCall cs with
  | some (c, rest) =>
    if c.given.isEmpty && (Helper.named? c.helper).isNone then some (.value (leading [c.helper]), rest)
    else some (.call c [] [], rest)
  | none => (readPath cs).map fun (keys, rest) => (.value keys, rest)

/-- The tag between the two parts of a block. What follows the word at once is a call as well. -/
def readOtherwise (cs : List Char) : Option (Tag × List Char) :=
  let inside? : Option (List Char) := match cs with
    | 'e' :: 'l' :: 's' :: 'e' :: rest => some rest
    | '^' :: rest => some rest
    | _ => none
  inside?.bind fun inside =>
    match afterTag inside with
    | some rest => some (.otherwise none, rest)
    | none => do
      let (next, cs) ← readCall inside
      return (.otherwise (some next), ← afterTag cs)

def readTag (cs : List Char) : Option (Tag × List Char) :=
  match skipSpace cs with
  | '#' :: cs => do
    let (c, cs) ← readCall cs
    return (.opening c, ← afterTag cs)
  | '/' :: cs => do
    let (helper, cs) ← readName (skipSpace cs)
    return (.closing helper, ← afterTag cs)
  | '\x7b' :: cs => do
    let (p, cs) ← readInline (skipSpace cs)
    match skipSpace cs with
    | '\x7d' :: cs => return (.piece p, ← afterTag cs)
    | _ => none
  | cs =>
    match readOtherwise cs with
    | some found => some found
    | none => do
      let (p, cs) ← readInline cs
      return (.piece p, ← afterTag cs)

/-- Cuts a template at its tags; `before` is the text read so far, last character first. Of two backslashes or
more before a tag one is left out. -/
def cut : Nat → List Char → List Char → Option (List Part)
  | 0, _, _ => none
  | _ + 1, before, [] => some [.text (String.ofList before.reverse)]
  | steps + 1, before, c :: cs =>
    match c, cs with
    | '\x7b', '\x7b' :: rest =>
      match readTag rest with
      | some (tag, rest) =>
        (cut steps [] rest).map fun parts => .text (String.ofList before.reverse) :: .tag tag :: parts
      | none => none
    | '\\', '\x7b' :: '\x7b' :: '\x7b' :: '\x7b' :: rest =>
      cut steps ('\x7b' :: '\x7b' :: '\x7b' :: '\x7b' :: before) rest
    | '\\', '\x7b' :: '\x7b' :: rest => cut steps ('\x7b' :: '\x7b' :: before) rest
    | '\\', '\\' :: rest =>
      let more := rest.takeWhile (· == '\\')
      match rest.dropWhile (· == '\\') with
      | '\x7b' :: '\x7b' :: after => cut steps ('\\' :: more ++ before) ('\x7b' :: '\x7b' :: after)
      | after => cut steps ('\\' :: '\\' :: more ++ before) after
    | c, cs => cut steps (c :: before) cs

inductive End where
  | text
  | otherwise (next : Option Call)
  | closing (helper : String)

mutual

/-- The pieces up to the end of a text or of a part of a block, and what follows it. -/
def readRow : Nat → List Part → Option (List Piece × End × List Part)
  | 0, _ => none
  | _ + 1, [] => some ([], .text, [])
  | _ + 1, .tag (.otherwise next) :: parts => some ([], .otherwise next, parts)
  | _ + 1, .tag (.closing helper) :: parts => some ([], .closing helper, parts)
  | steps + 1, .text s :: parts =>
    (readRow steps parts).map fun (pieces, last, rest) => (.text s :: pieces, last, rest)
  | steps + 1, .tag (.piece p) :: parts =>
    (readRow steps parts).map fun (pieces, last, rest) => (p :: pieces, last, rest)
  | steps + 1, .tag (.opening c) :: parts =>
    match readBlock steps c.helper c parts with
    | some (block, parts) =>
      (readRow steps parts).map fun (pieces, last, rest) => (block :: pieces, last, rest)
    | none => none

/-- A call with the pieces that it holds, up to the tag that closes `helper`. -/
def readBlock : Nat → String → Call → List Part → Option (Piece × List Part)
  | 0, _, _, _ => none
  | steps + 1, helper, c, parts =>
    match readRow steps parts with
    | some (main, .closing last, rest) => if last = helper then some (.call c main [], rest) else none
    | some (main, .otherwise none, parts) =>
      match readRow steps parts with
      | some (other, .closing last, rest) => if last = helper then some (.call c main other, rest) else none
      | _ => none
    | some (main, .otherwise (some next), parts) =>
      (readBlock steps helper next parts).map fun (other, rest) => (.call c main [other], rest)
    | _ => none

end

/-- The pieces of a template. -/
def parse (s : String) : Option (List Piece) :=
  let cs := s.toList
  match cut (cs.length + 1) [] cs with
  | none => none
  | some parts =>
    match readRow (2 * parts.length + 1) parts with
    | some (pieces, .text, _) => some pieces
    | _ => none

end Handoff.Template
