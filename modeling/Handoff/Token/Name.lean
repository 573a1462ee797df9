import Handoff.Text.Character
import Handoff.Text.Split
import Handoff.Text.Words

set_option autoImplicit false
set_option relaxedAutoImplicit false

/-!
Names that tell what a token is for. A rank counts from one: colors are ranked by use, numbers by value.
-/

namespace Handoff.Token

def hues : List (String × String) := [
  ("ff0000", "primary-red"), ("00ff00", "primary-green"), ("0000ff", "primary-blue"),
  ("ffff00", "primary-yellow"), ("00ffff", "primary-cyan"), ("ff00ff", "primary-magenta")]

/-- The steps of spacing that have a place in the scale. -/
def spacingScale : List (Float × Nat) := [
  (0, 0), (4, 1), (8, 2), (12, 3), (16, 4), (20, 5), (24, 6), (32, 8), (40, 10), (48, 12)]

/-- Names of font sizes with the largest size of each. -/
def fontSizeScale : List (Float × String) := [
  (12, "text-xs"), (14, "text-sm"), (16, "text-base"), (18, "text-lg"), (20, "text-xl"),
  (24, "text-2xl"), (30, "text-3xl"), (36, "text-4xl"), (48, "text-5xl")]

def radiusScale : List (Float × String) := [
  (0, "radius-none"), (3, "radius-sm"), (6, "radius-md"), (12, "radius-lg"), (24, "radius-xl")]

def opacityScale : List (Float × Nat) := [(0, 0), (25, 25), (50, 50), (75, 75)]

def ranked (stem : String) (rank : Nat) : String :=
  stem ++ "-" ++ toString rank

/-- The channel of a gray, from its hexadecimal digits in three or six places. -/
def grayLevel? (digits : List Char) : Option Nat :=
  match digits, digits.mapM Text.hexDigit? with
  | [a, b, c], some (level :: _) => if a = b ∧ b = c then some (17 * level) else none
  | [a, b, c, d, e, f], some (high :: low :: _) =>
    if [a, b] = [c, d] ∧ [c, d] = [e, f] then some (16 * high + low) else none
  | _, _ => none

def grayBand (level : Nat) : Nat :=
  (255 - level) * 5 / 256 + 1

/-- The name of a color used `count` times. -/
def colorName (value : String) (rank count : Nat) : String :=
  let trimmed := Text.trimBy Text.isBlank value.toList
  let digits := (trimmed.dropWhile (· == '#')).map Char.toLower
  let known : Option String :=
    if trimmed.head? = some '#' then
      match hues.lookup (String.ofList digits) with
      | some name => some name
      | none => (grayLevel? digits).map fun level => "gray-" ++ toString (grayBand level * 100)
    else none
  known.getD (ranked (if 5 < count then "primary" else "accent") rank)

def fontSizeName (px : Float) (rank : Nat) : String :=
  match fontSizeScale.find? fun step => decide (px ≤ step.1) with
  | some step => step.2
  | none => ranked "font-size" rank

def spacingName (px : Float) (rank : Nat) : String :=
  match spacingScale.find? fun step => step.1 == px with
  | some step => "spacing-" ++ toString step.2
  | none => ranked "spacing-custom" rank

def radiusName (px : Float) (rank : Nat) : String :=
  match radiusScale.find? fun step => decide (px ≤ step.1) with
  | some step => step.2
  | none => if 9999 ≤ px then "radius-full" else ranked "radius" rank

def opacityName (opacity : Float) : String :=
  let percent := opacity * 100
  match opacityScale.find? fun step => decide (percent ≤ step.1) with
  | some step => "opacity-" ++ toString step.2
  | none => "opacity-100"

/-- A name from a text in words, or from the rank when the text has none. -/
def wordName (stem : String) (words : String) (rank : Nat) : String :=
  let slug := Text.Words.kebab words
  if slug = "" then ranked stem rank else stem ++ "-" ++ slug

/-- The first family of a list, without the quotes around it. -/
def primaryFamily (family : String) : List Char :=
  let first := ((Text.splitAt ',' family.toList).head?).getD []
  Text.trimBy (fun c => c == '"' || c == '\'') (Text.trimBy Text.isBlank first)

def fontFamilyName (family : String) (rank : Nat) : String :=
  let slug := Text.Words.kebab (String.ofList (primaryFamily family))
  if slug = "" then ranked "font-family" rank else "font-" ++ slug

def fontWeightName (weight : String) (rank : Nat) : String :=
  wordName "font-weight" (Text.trim weight) rank

/-- The names given out so far. -/
structure Allocator where
  taken : List String := []
  deriving DecidableEq, Repr

namespace Allocator

def numbered (base : String) (n : Nat) : String :=
  base ++ "-" ++ toString n

/-- The first number from `n` on whose name is free. Of one more number than there are names, one is. -/
def firstFree (taken : List String) (base : String) : Nat → Nat → Nat
  | 0, n => n
  | tries + 1, n =>
    if taken.contains (numbered base n) then firstFree taken base tries (n + 1) else n

/-- The base when it is free, else the base with the least free number from two on. -/
def choose (names : Allocator) (base : String) : String :=
  if names.taken.contains base then
    numbered base (firstFree names.taken base names.taken.length 2)
  else base

def allocate (names : Allocator) (base : String) : String × Allocator :=
  let name := names.choose base
  (name, ⟨name :: names.taken⟩)

/-- Gives out a name for each base in turn. -/
def allocateAll (names : Allocator) : List String → List String × Allocator
  | [] => ([], names)
  | base :: rest =>
    let (name, after) := names.allocate base
    let (others, last) := after.allocateAll rest
    (name :: others, last)

end Allocator
end Handoff.Token
