import Handoff.Json.Written

set_option autoImplicit false
set_option relaxedAutoImplicit false

/-!
Written records of named slots: an object with a slot's value under its name, or an array with the values in
order. An object may have other members, but no slot twice; an array may be short, but not too long.
-/

namespace Handoff
namespace Written

def keyed : List (List Nat × Written) → Option (Entries Written)
  | [] => some []
  | (codes, w) :: rest =>
    match textOf codes, keyed rest with
    | some key, some entries => some ((key, w) :: entries)
    | _, _ => none

def slots (names : List String) : Written → Option (List (Option Written))
  | .array items =>
    if items.length ≤ names.length then
      some (items.map some ++ List.replicate (names.length - items.length) none)
    else none
  | .object members =>
    match keyed members with
    | none => none
    | some entries =>
      if names.all fun name => (entries.filter (·.1 == name)).length ≤ 1 then
        some (names.map fun name => List.lookup name entries)
      else none
  | _ => none

def text? : Written → Option String
  | .text codes => textOf codes
  | _ => none

def flag? : Written → Option Bool
  | .bool b => some b
  | _ => none

def optional? {α : Type} (read : Written → Option α) : Written → Option (Option α)
  | .null => some none
  | w => (read w).map some

/-- A slot's value, or the default when the slot is empty. -/
def slotD {α : Type} (read : Written → Option α) (default : α) : Option Written → Option α
  | none => some default
  | some w => read w

/-- A word of a list, which may also be the key of a single member without a value. -/
def choice? {α : Type} (words : List (String × α)) : Written → Option α
  | .text codes => (textOf codes).bind fun word => List.lookup word words
  | .object [(codes, .null)] => (textOf codes).bind fun word => List.lookup word words
  | _ => none

end Written
end Handoff
