set_option autoImplicit false
set_option relaxedAutoImplicit false

/-!
The parts of a text around a separating character, a text set off by an opening and a closing, and texts made of lines.
-/

namespace Handoff.Text

/-- The parts between separators; a text without a separator is one part. -/
def splitAt (separator : Char) : List Char → List (List Char)
  | [] => [[]]
  | c :: cs =>
    if c = separator then [] :: splitAt separator cs
    else match splitAt separator cs with
      | [] => [[c]]
      | part :: parts => (c :: part) :: parts

/-- What stands between an opening text and a closing character. -/
def enclosed? (opening : List Char) (closing : Char) (cs : List Char) : Option (List Char) :=
  if opening.isPrefixOf cs then
    let rest := cs.drop opening.length
    if rest.getLast? = some closing then some rest.dropLast else none
  else none

def occursIn (part : List Char) : List Char → Bool
  | [] => part.isEmpty
  | c :: cs => part.isPrefixOf (c :: cs) || occursIn part cs

def unlines (lines : List String) : String :=
  String.join (lines.map (· ++ "\n"))

/-- Two spaces for each level. -/
def indent (depth : Nat) : String :=
  String.ofList (List.replicate (2 * depth) ' ')

end Handoff.Text
