import Handoff.Json.Printer

set_option autoImplicit false
set_option relaxedAutoImplicit false

/-!
Every difference between a value and what became of it, with the place where it is.
-/

namespace Handoff
namespace Json

/-- A step from a value to one of its parts. -/
inductive Step where
  | key (name : String)
  | index (i : Nat)
  deriving DecidableEq, Repr

abbrev Path := List Step

/-- The text of a path: keys with points between them, indices in brackets. -/
def Path.text (path : Path) : String :=
  path.foldl (fun written step =>
    match step with
    | .key name => if written = "" then name else written ++ "." ++ name
    | .index i => written ++ "[" ++ toString i ++ "]") ""

/-- The text of a path, with a name for the value itself. -/
def Path.label (path : Path) : String :=
  if path.text = "" then "<document>" else path.text

inductive Change where
  | missing
  | unexpected
  | length (before after : Nat)
  | kind (before after : Kind)
  | value (before after : Json)

structure Difference where
  path : Path
  change : Change

def Difference.message (d : Difference) : String :=
  match d.change with
  | .missing => d.path.text ++ ": missing after round trip"
  | .unexpected => d.path.text ++ ": unexpected key after round trip"
  | .length before after =>
    d.path.label ++ ": array length " ++ toString before ++ " became " ++ toString after
  | .kind before after => d.path.label ++ ": type " ++ before.name ++ " became " ++ after.name
  | .value before after => d.path.label ++ ": value " ++ before.compact ++ " became " ++ after.compact

mutual

/-- The differences between two values that stand at a path, in the order of the first. -/
def differences (path : Path) : Json → Json → List Difference
  | .object ms, .object ns =>
    memberDifferences path ns ms
      ++ (ns.filter fun n => (ms.lookup n.1).isNone).map fun n => ⟨path ++ [.key n.1], .unexpected⟩
  | .array xs, .array ys =>
    (if xs.length = ys.length then [] else [⟨path, .length xs.length ys.length⟩])
      ++ itemDifferences path 0 xs ys
  | a, b =>
    if a.kind ≠ b.kind then [⟨path, .kind a.kind b.kind⟩]
    else if same a b then []
    else [⟨path, .value a b⟩]

/-- The differences between members and those of the same key in another object. -/
def memberDifferences (path : Path) (others : List (String × Json)) :
    List (String × Json) → List Difference
  | [] => []
  | (key, v) :: ms =>
    (match others.lookup key with
      | some w => differences (path ++ [.key key]) v w
      | none => [⟨path ++ [.key key], .missing⟩])
      ++ memberDifferences path others ms

/-- The differences between items and those at the same index, from `i` on. -/
def itemDifferences (path : Path) (i : Nat) : List Json → List Json → List Difference
  | x :: xs, y :: ys => differences (path ++ [.index i]) x y ++ itemDifferences path (i + 1) xs ys
  | _, _ => []

end

/-- The differences between two documents. -/
def diff (before after : Json) : List Difference :=
  differences [] before after

end Json
end Handoff
