import Handoff.Json.Basic

set_option autoImplicit false
set_option relaxedAutoImplicit false

/-!
Values with the keys of every object in ascending order, by code points.
-/

namespace Handoff
namespace Json

def memberLe (a b : String × Json) : Bool :=
  decide (a.1 ≤ b.1)

mutual

/-- The value with its keys sorted at every depth. -/
def sortKeys : Json → Json
  | .array items => .array (sortItems items)
  | .object members => .object ((sortMembers members).mergeSort memberLe)
  | v => v

def sortItems : List Json → List Json
  | [] => []
  | v :: vs => sortKeys v :: sortItems vs

def sortMembers : List (String × Json) → List (String × Json)
  | [] => []
  | (key, v) :: ms => (key, sortKeys v) :: sortMembers ms

end

end Json
end Handoff
