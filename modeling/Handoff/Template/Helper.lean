import Handoff.Text.Words

set_option autoImplicit false
set_option relaxedAutoImplicit false

/-!
The helpers that a template may call, by their names.
-/

namespace Handoff.Template

inductive Spelling where
  | pascal
  | kebab
  deriving DecidableEq, Repr

def Spelling.apply : Spelling → String → String
  | .pascal => Text.Words.pascal
  | .kebab => Text.Words.kebab

inductive Helper where
  /-- Spells a text in another way. -/
  | respell (spelling : Spelling)
  /-- Puts in the main pieces when the truth of its argument is the given one, and the other pieces otherwise. -/
  | choose (truth : Bool)
  /-- Puts in the main pieces. -/
  | keep
  /-- Puts in nothing. -/
  | silence
  /-- A name that is set apart and that no template can use. -/
  | reserved
  deriving DecidableEq, Repr

def Helper.names : List (String × Helper) := [
  ("pascal_case", .respell .pascal), ("kebab_case", .respell .kebab),
  ("if", .choose true), ("unless", .choose false), ("raw", .keep), ("log", .silence),
  ("each", .reserved), ("with", .reserved), ("lookup", .reserved), ("len", .reserved),
  ("eq", .reserved), ("ne", .reserved), ("gt", .reserved), ("gte", .reserved), ("lt", .reserved),
  ("lte", .reserved), ("and", .reserved), ("or", .reserved), ("not", .reserved)]

def Helper.named? (name : String) : Option Helper :=
  Helper.names.lookup name

end Handoff.Template
