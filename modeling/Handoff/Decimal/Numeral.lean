set_option autoImplicit false
set_option relaxedAutoImplicit false

/-!
Decimal numbers as they are written, and the binary numbers that they read as.
-/

namespace Handoff

/-- A written number: sign, digits before the point, digits after it, and the power of ten with its sign. -/
structure Numeral where
  negative : Bool
  whole : List Char
  fraction : Option (List Char)
  exponent : Option (Bool × List Char)
  deriving DecidableEq, Repr

namespace Numeral

def digitsValue (ds : List Char) : Nat :=
  ds.foldl (fun n d => 10 * n + (d.toNat - 48)) 0

def exponentValue (n : Numeral) : Int :=
  match n.exponent with
  | none => 0
  | some (true, ds) => -(digitsValue ds : Int)
  | some (false, ds) => digitsValue ds

/-- The binary number nearest to `digits * 10 ^ exponent`, with a sign. -/
def nearest (negative : Bool) (digits : Nat) (exponent : Int) : Float :=
  let magnitude := Float.ofModel (Float.Model.ofScientific digits exponent)
  if negative then -magnitude else magnitude

def toFloat (n : Numeral) : Float :=
  let after := n.fraction.getD []
  nearest n.negative (digitsValue (n.whole ++ after)) (n.exponentValue - after.length)

def isWhole (n : Numeral) : Bool :=
  n.fraction.isNone && n.exponent.isNone

def chars (n : Numeral) : List Char :=
  (if n.negative then ['-'] else []) ++ n.whole
    ++ (match n.fraction with
      | none => []
      | some ds => '.' :: ds)
    ++ (match n.exponent with
      | none => []
      | some (below, ds) => 'e' :: (if below then '-' else '+') :: ds)

/-- A row of digits at the head of a text, and what follows it. -/
def takeDigits (cs : List Char) : List Char × List Char :=
  (cs.takeWhile Char.isDigit, cs.dropWhile Char.isDigit)

/-- The exponent part at the head of a text, which needs a digit when its letter is there. -/
def readExponent : List Char → Option (Option (Bool × List Char) × List Char)
  | [] => some (none, [])
  | c :: cs =>
    if c = 'e' ∨ c = 'E' then
      let (below, cs) := match cs with
        | '-' :: cs => (true, cs)
        | '+' :: cs => (false, cs)
        | cs => (false, cs)
      match takeDigits cs with
      | ([], _) => none
      | (ds, rest) => some (some (below, ds), rest)
    else some (none, c :: cs)

/-- The part after the point at the head of a text. -/
def readFraction : List Char → Option (List Char) × List Char
  | '.' :: cs =>
    let (ds, rest) := takeDigits cs
    (some ds, rest)
  | cs => (none, cs)

/-- The strict form: digits before the point without needless zeros, and a digit after a point. -/
def read (cs : List Char) : Option (Numeral × List Char) :=
  let (negative, cs) := match cs with
    | '-' :: cs => (true, cs)
    | cs => (false, cs)
  let (whole, cs) := takeDigits cs
  let (fraction, cs) := readFraction cs
  if whole = [] ∨ (whole.head? = some '0' ∧ whole ≠ ['0']) ∨ fraction = some [] then none
  else match readExponent cs with
    | none => none
    | some (exponent, rest) => some (⟨negative, whole, fraction, exponent⟩, rest)

end Numeral

def infinity : Float :=
  .ofModel (.pack (.infinity .positive))

def notNumber : Float :=
  .ofModel (.pack .notANumber)

namespace Numeral

/-- An unsigned number in the free form: digits on either side of an optional point, or a name in any letter
case. -/
def readFreeUnsigned (negative : Bool) (cs : List Char) : Option Float :=
  let signed (x : Float) : Float := if negative then -x else x
  let name := String.ofList (cs.map Char.toLower)
  if name = "inf" ∨ name = "infinity" then some (signed infinity)
  else if name = "nan" then some notNumber
  else
    let (whole, rest) := takeDigits cs
    let (fraction, rest) := readFraction rest
    if whole = [] ∧ fraction.getD [] = [] then none
    else match readExponent rest with
      | some (exponent, []) => some (Numeral.toFloat ⟨negative, whole, fraction, exponent⟩)
      | _ => none

/-- The free form with an optional sign, which takes the whole text. -/
def readFree (cs : List Char) : Option Float :=
  match cs with
  | '-' :: cs => readFreeUnsigned true cs
  | '+' :: cs => readFreeUnsigned false cs
  | cs => readFreeUnsigned false cs

end Numeral
end Handoff
