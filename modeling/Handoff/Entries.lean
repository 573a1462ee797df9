set_option autoImplicit false
set_option relaxedAutoImplicit false

/-!
Named entries that keep the order in which their names first came.
-/

namespace Handoff

/-- Named values in order; a name stands once when the list is built by `put`. -/
abbrev Entries (α : Type) := List (String × α)

namespace Entries

variable {α : Type}

def get? (entries : Entries α) (name : String) : Option α :=
  entries.lookup name

def has (entries : Entries α) (name : String) : Bool :=
  (entries.get? name).isSome

/-- Sets a name: in its place when it is there, at the end otherwise. -/
def put (name : String) (value : α) : Entries α → Entries α
  | [] => [(name, value)]
  | entry :: rest =>
    if entry.1 = name then (name, value) :: rest else entry :: put name value rest

def putAll (entries : Entries α) (more : Entries α) : Entries α :=
  more.foldl (fun held entry => put entry.1 entry.2 held) entries

def without (entries : Entries α) (names : List String) : Entries α :=
  entries.filter fun entry => !names.contains entry.1

/-- Takes a name out; the last entry moves to its place. -/
def takeOut (name : String) (entries : Entries α) : Option (α × Entries α) :=
  let before := entries.takeWhile (·.1 ≠ name)
  match entries.dropWhile (·.1 ≠ name) with
  | [] => none
  | (_, value) :: after =>
    match after.getLast? with
    | none => some (value, before)
    | some last => some (value, before ++ last :: after.dropLast)

end Entries
end Handoff
