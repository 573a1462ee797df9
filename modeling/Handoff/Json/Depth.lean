import Handoff.Json.Written

set_option autoImplicit false
set_option relaxedAutoImplicit false

/-!
Where a JSON text first nests deeper than a document may.
-/

namespace Handoff

/-- A place in a text, by its line and its byte in the line, both from 1. -/
structure Place where
  line : Nat
  column : Nat
  deriving DecidableEq, Repr

def Place.start : Place :=
  ⟨1, 1⟩

/-- The place after a character. -/
def Place.after (place : Place) (c : Char) : Place :=
  if c = '\n' then ⟨place.line + 1, 1⟩ else ⟨place.line, place.column + c.utf8Size⟩

namespace Written

/-- Where a character of a JSON text stands. -/
inductive Region where
  | outside
  | text
  | escape
  deriving DecidableEq, Repr

/-- The place of the first bracket that opens a level below `room` more ones. -/
def deepPlace (region : Region) (room : Nat) (place : Place) : List Char → Option Place
  | [] => none
  | c :: cs =>
    let next := place.after c
    match region with
    | .escape => deepPlace .text room next cs
    | .text =>
      if c = '"' then deepPlace .outside room next cs
      else if c = '\\' then deepPlace .escape room next cs
      else deepPlace .text room next cs
    | .outside =>
      if c = '"' then deepPlace .text room next cs
      else if c = '[' ∨ c = '\x7b' then
        match room with
        | 0 => some place
        | room + 1 => deepPlace .outside room next cs
      else if c = ']' ∨ c = '\x7d' then deepPlace .outside (room + 1) next cs
      else deepPlace .outside room next cs

/-- The place of the bracket at which a text nests too deep. -/
def tooDeepAt? (s : String) : Option Place :=
  deepPlace .outside depthLimit .start s.toList

end Written
end Handoff
