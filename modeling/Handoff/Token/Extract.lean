import Handoff.Token.Catalog
import Handoff.Token.Name
import Handoff.Token.Usage
import Handoff.Json.Slots

set_option autoImplicit false
set_option relaxedAutoImplicit false

/-!
The tokens of a design.

Uses of one value make one token, unless every use is to have its own. Colors, families and weights come by
falling number of uses, numbers by rising value. All classes draw their names from one allocator.
-/

namespace Handoff.Token
open Design

structure Options where
  /-- Names that tell what a token is for, rather than numbers. -/
  semantic : Bool := true
  /-- One token for all uses of a value. -/
  deduplicate : Bool := true
  deriving DecidableEq, Repr

namespace Options

def encode (options : Options) : Json :=
  .object [("semantic", .bool options.semantic), ("deduplicate", .bool options.deduplicate)]

def decode (w : Written) : Option Options :=
  match w.slots ["semantic", "deduplicate"] with
  | some [semantic, deduplicate] => do
    let semantic ← Written.slotD Written.flag? true semantic
    let deduplicate ← Written.slotD Written.flag? true deduplicate
    return { semantic, deduplicate }
  | _ => none

end Options

section Entries

variable {α : Type} [DecidableEq α]

/-- The values that tokens are made of, with their counts, in the order `le` when they are gathered. -/
def gather (options : Options) (le : α × Nat → α × Nat → Bool) (uses : List α) : List (α × Nat) :=
  if options.deduplicate then (tally uses).mergeSort le else uses.map fun a => (a, 1)

def byUse (a b : α × Nat) : Bool :=
  Nat.ble b.2 a.2

end Entries

def byValue (a b : Float × Nat) : Bool :=
  decide (a.1 ≤ b.1)

/-- A token that has yet to get its name. -/
structure Draft where
  base : String
  token : DesignToken

def draft {α : Type} (name : α → Nat → Nat → String) (token : α → Nat → DesignToken)
    (entries : List (α × Nat)) : List Draft :=
  entries.zipIdx.map fun ((a, count), index) => ⟨name a (index + 1) count, token a count⟩

def pxText (x : Float) : String :=
  plainText x ++ "px"

/-- The face of a font size: the family and the weight that its texts use most. -/
def typographyOf (usage : Usage) (size : Float) : Typography :=
  { fontSize := pxText size
    fontFamily := mostCommon ((usage.fontsOf size).filterMap Font.family)
    fontWeight := mostCommon ((usage.fontsOf size).filterMap Font.weight) }

def drafts (options : Options) (usage : Usage) : TokenClass → List Draft
  | .color =>
    draft (fun value rank count => if options.semantic then colorName value rank count else ranked "color" rank)
      (fun value => .ofUses (.text value) .color) (gather options byUse usage.colors)
  | .typography =>
    draft (fun size rank _ => if options.semantic then fontSizeName size rank else ranked "font-size" rank)
      (fun size => .ofUses (.typography (typographyOf usage size)) .typography)
      (gather options byValue usage.fontSizes)
  | .fontFamily =>
    draft (fun family rank _ =>
        if options.semantic then fontFamilyName family rank else ranked "font-family" rank)
      (fun family => .ofUses (.text family) .fontFamily) (gather options byUse usage.families)
  | .fontWeight =>
    draft (fun weight rank _ =>
        if options.semantic then fontWeightName weight rank else ranked "font-weight" rank)
      (fun weight => .ofUses (.text weight) .fontWeight) (gather options byUse usage.weights)
  | .spacing =>
    draft (fun px rank _ => if options.semantic then spacingName px rank else ranked "spacing" rank)
      (fun px => .ofUses (.text (pxText px)) .spacing) (gather options byValue usage.spacing)
  | .radius =>
    draft (fun px rank _ => if options.semantic then radiusName px rank else ranked "radius" rank)
      (fun px => .ofUses (.text (pxText px)) .radius) (gather options byValue usage.radii)
  | .opacity =>
    draft (fun opacity rank _ => if options.semantic then opacityName opacity else ranked "opacity" rank)
      (fun opacity => .ofUses (.number opacity) .opacity) (gather options byValue usage.opacities)

/-- Gives drafts their names. A token that got the name of an earlier one would take its place. -/
def nameDrafts (names : Allocator) (list : List Draft) : Entries DesignToken × Allocator :=
  let (given, after) := names.allocateAll (list.map Draft.base)
  (Entries.putAll [] (given.zip (list.map Draft.token)), after)

def nameClasses (drafts : TokenClass → List Draft) (names : Allocator) :
    List TokenClass → List (TokenClass × Entries DesignToken)
  | [] => []
  | c :: rest =>
    let (entries, after) := nameDrafts names (drafts c)
    (c, entries) :: nameClasses drafts after rest

/-- The tokens of a design. -/
def extract (options : Options) (tree : Tree) : Catalog :=
  let named := nameClasses (drafts options (.ofTree tree)) {} TokenClass.all
  .ofClasses fun c => (named.lookup c).getD []

end Handoff.Token
