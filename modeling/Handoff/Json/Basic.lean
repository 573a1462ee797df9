import Handoff.Entries

set_option autoImplicit false
set_option relaxedAutoImplicit false

/-!
JSON values: objects keep the order of their members, and whole numbers are apart from the others.
-/

namespace Handoff

inductive Json where
  | null
  | bool (b : Bool)
  | int (n : Int)
  | float (x : Float)
  | string (s : String)
  | array (items : List Json)
  | object (members : List (String × Json))

abbrev Members := Entries Json

namespace Json

/-- What holds of values without parts, and of arrays and objects because of their parts, holds of all values. -/
@[elab_as_elim]
theorem parts_induction {P : Json → Prop} (null : P .null) (bool : ∀ b, P (.bool b)) (int : ∀ n, P (.int n))
    (float : ∀ x, P (.float x)) (string : ∀ s, P (.string s))
    (array : ∀ items : List Json, (∀ v ∈ items, P v) → P (.array items))
    (object : ∀ members : List (String × Json), (∀ entry ∈ members, P entry.2) → P (.object members)) (v : Json) :
    P v := by
  -- the recursor goes through the lists of items and of members, of which `P` is to hold throughout
  refine @Json.rec P (fun items => ∀ v ∈ items, P v) (fun members => ∀ entry ∈ members, P entry.2)
    (fun entry => P entry.2) null bool int float string array object ?_ ?_ ?_ ?_ ?_ v
  · exact nofun
  · exact fun _ _ first rest => List.forall_mem_cons.mpr ⟨first, rest⟩
  · exact nofun
  · exact fun _ _ first rest => List.forall_mem_cons.mpr ⟨first, rest⟩
  · exact fun _ _ value => value

instance : Inhabited Json := ⟨.null⟩

/-- A binary number as a value; those that are not finite have none. -/
def ofFloat (x : Float) : Json :=
  if x.isFinite then .float x else .null

def wholeFloat (n : Int) : Float :=
  .ofModel (.ofInt n)

def number? : Json → Option Float
  | .int n => some (wholeFloat n)
  | .float x => some x
  | _ => none

def string? : Json → Option String
  | .string s => some s
  | _ => none

inductive Kind where
  | null
  | boolean
  | number
  | string
  | array
  | object
  deriving DecidableEq, Repr

def kind : Json → Kind
  | .null => .null
  | .bool _ => .boolean
  | .int _ | .float _ => .number
  | .string _ => .string
  | .array _ => .array
  | .object _ => .object

def Kind.name : Kind → String
  | .null => "null"
  | .boolean => "boolean"
  | .number => "number"
  | .string => "string"
  | .array => "array"
  | .object => "object"

mutual

/-- Equality up to the order of members. A whole number differs from any other; the two zeros are equal. -/
def same : Json → Json → Bool
  | .null, .null => true
  | .bool a, .bool b => a == b
  | .int a, .int b => a == b
  | .float a, .float b => a == b
  | .string a, .string b => a == b
  | .array xs, .array ys => sameItems xs ys
  | .object ms, .object ns => ms.length == ns.length && sameMembers ms ns
  | _, _ => false

def sameItems : List Json → List Json → Bool
  | [], [] => true
  | x :: xs, y :: ys => same x y && sameItems xs ys
  | _, _ => false

/-- Every member of the first object has an equal one in the second. -/
def sameMembers : List (String × Json) → List (String × Json) → Bool
  | [], _ => true
  | (key, value) :: ms, ns =>
    (match ns.lookup key with
      | some other => same value other
      | none => false) && sameMembers ms ns

end

end Json
end Handoff
