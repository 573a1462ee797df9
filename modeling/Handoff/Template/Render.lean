import Handoff.Json.Printer
import Handoff.Template.Reader

set_option autoImplicit false
set_option relaxedAutoImplicit false

/-!
Templates filled with data.

What is put in is not escaped, nor read as a template. A value that the data does not have is an error, while a
helper takes it for `null`. A path that asks an array for a key that is no number is an error everywhere.
-/

namespace Handoff

namespace Template

/-- The item of an array that a key asks for: a whole number of 64 bits. -/
def itemNumber? (key : String) : Option Nat :=
  let digits := key.toList
  if !digits.isEmpty && digits.all Char.isDigit && decide (Numeral.digitsValue digits < UInt64.size) then
    some (Numeral.digitsValue digits)
  else none

/-- What the data has at a path, which may be nothing; `none` for a path that it cannot have. -/
def find? : List String → Json → Option (Option Json)
  | [], v => some (some v)
  | key :: keys, .object members =>
    match Entries.get? members key with
    | some v => find? keys v
    | none => some none
  | key :: keys, .array items =>
    match itemNumber? key with
    | some n =>
      match items[n]? with
      | some v => find? keys v
      | none => some none
    | none => none
  | _ :: _, _ => some none

mutual

def shown : Json → String
  | .null => ""
  | .bool b => if b then "true" else "false"
  | .string s => s
  | .array items => "[" ++ String.intercalate ", " (shownAll items) ++ "]"
  | .object _ => "[object]"
  | .int n => (Json.int n).compact
  | .float x => (Json.float x).compact

def shownAll : List Json → List String
  | [] => []
  | v :: vs => shown v :: shownAll vs

end

/-- The smallest number that is not written with leading zeros in binary. -/
def leastNormal : Float := Float.ofBits 0x10000000000000

/-- Whether a value counts as true. Numbers do from the least normal one on, or all when zero is to count. -/
def isTrue (withZero : Bool) : Json → Bool
  | .null => false
  | .bool b => b
  | .int n => withZero || n != 0
  | .float x => withZero || decide (leastNormal ≤ x ∨ x ≤ -leastNormal)
  | .string s => s != ""
  | .array items => !items.isEmpty
  | .object members => !members.isEmpty

def Argument.value? (data : Json) : Argument → Option Json
  | .path keys => (find? keys data).map fun found => found.getD .null
  | .literal v => some v

/-- The values that a helper is given. -/
structure Values where
  inOrder : List Json
  byName : Entries Json

def Given.values? (data : Json) (given : Given) : Option Values := do
  let inOrder ← given.inOrder.mapM (Argument.value? data)
  let byName ← given.byName.mapM fun (name, argument) =>
    (argument.value? data).map fun v => (name, v)
  return ⟨inOrder, byName⟩

/-- The text that is given first; empty for what is none. -/
def Values.text (values : Values) : String :=
  (values.inOrder.head?.bind Json.string?).getD ""

def Values.withZero (values : Values) : Bool :=
  match Entries.get? (Entries.putAll [] values.byName) "includeZero" with
  | some (.bool b) => b
  | _ => false

def Values.truth? (values : Values) : Option Bool :=
  values.inOrder.head?.map (isTrue values.withZero)

mutual

/-- The text of a piece; `none` when the data does not have its value or its call fails. -/
def Piece.render (data : Json) : Piece → Option String
  | .text s => some s
  | .value keys =>
    match find? keys data with
    | some (some v) => some (shown v)
    | _ => none
  | .call c main other =>
    match c.given.values? data with
    | none => none
    | some values =>
      match Helper.named? c.helper with
      | some (.respell spelling) => some (spelling.apply values.text)
      | some (.choose truth) =>
        match values.truth? with
        | some b => if b = truth then renderAll data main else renderAll data other
        | none => none
      | some .keep => renderAll data main
      | some .silence => some ""
      | some .reserved | none => none

def renderAll (data : Json) : List Piece → Option String
  | [] => some ""
  | p :: ps =>
    match p.render data, renderAll data ps with
    | some s, some rest => some (s ++ rest)
    | _, _ => none

end

def render (template : String) (data : Json) : Option String :=
  (parse template).bind (renderAll data)

end Template

structure TemplateSet where
  templates : Entries (List Template.Piece) := []

namespace TemplateSet

/-- Adds a template; `none` when its text is not one. -/
def add (set : TemplateSet) (name text : String) : Option TemplateSet :=
  (Template.parse text).map fun pieces => ⟨set.templates.put name pieces⟩

/-- The text that the template of a name makes of data. -/
def render (set : TemplateSet) (name : String) (data : Json) : Option String :=
  (set.templates.get? name).bind (Template.renderAll data)

end TemplateSet
end Handoff
