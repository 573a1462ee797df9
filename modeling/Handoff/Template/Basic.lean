import Handoff.Json.Basic

set_option autoImplicit false
set_option relaxedAutoImplicit false

/-!
Text templates with values in double braces, before they are filled.

A template has text, values by their paths, and calls of helpers. A call may hold two rows of pieces, of which the
helper puts one in.
-/

namespace Handoff.Template

/-- What a helper is given: a value by its path, or one that is written out. -/
inductive Argument where
  | path (keys : List String)
  | literal (v : Json)

structure Given where
  inOrder : List Argument := []
  byName : Entries Argument := []

def Given.isEmpty (given : Given) : Bool :=
  given.inOrder.isEmpty && given.byName.isEmpty

/-- A helper by its name, and what it is given. -/
structure Call where
  helper : String
  given : Given := {}

inductive Piece where
  | text (s : String)
  | value (keys : List String)
  | call (c : Call) (main other : List Piece)

end Handoff.Template
