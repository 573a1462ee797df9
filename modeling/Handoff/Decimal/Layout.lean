import Handoff.Decimal.Shortest
import Handoff.Decimal.Numeral

set_option autoImplicit false
set_option relaxedAutoImplicit false

/-!
How binary numbers are written out, in two layouts over the same shortest digits.
-/

namespace Handoff

/-- The decisions that a way of writing binary numbers makes. -/
structure Layout where
  /-- Whether a number whose first digit stands at this power of ten is written without an exponent. -/
  isPlain : Int → Bool
  /-- Whole numbers have a zero after the point. -/
  pointZero : Bool
  tie : Decimal.Tie

namespace Layout

/-- Numbers as text shows them: no exponent, no point without a fraction. -/
def plain : Layout :=
  ⟨fun _ => true, false, .up⟩

/-- Numbers as archives write them: a point always, an exponent outside of `10 ^ -5` to `10 ^ 15`. -/
def archive : Layout :=
  ⟨fun lead => decide (-5 ≤ lead ∧ lead ≤ 15), true, .even⟩

def wholeFraction (layout : Layout) : Option (List Char) :=
  if layout.pointZero then some ['0'] else none

def spelled (layout : Layout) (negative : Bool) (ds : List Char) (exponent : Int) : Numeral :=
  if 0 ≤ exponent then
    ⟨negative, ds ++ List.replicate exponent.toNat '0', layout.wholeFraction, none⟩
  else
    let places := (-exponent).toNat
    if places < ds.length then
      ⟨negative, ds.take (ds.length - places), some (ds.drop (ds.length - places)), none⟩
    else
      ⟨negative, ['0'], some (List.replicate (places - ds.length) '0' ++ ds), none⟩

/-- The digits with the point after the first and a power of ten. -/
def scientific (negative : Bool) (ds : List Char) (lead : Int) : Numeral :=
  { negative := negative
    whole := ds.take 1
    fraction := if ds.length ≤ 1 then none else some (ds.drop 1)
    exponent := some (decide (lead < 0), Nat.toDigits 10 lead.natAbs) }

/-- A decimal in a layout. -/
def place (layout : Layout) (negative : Bool) (d : Decimal) : Numeral :=
  let ds := Nat.toDigits 10 d.digits
  let lead := (ds.length : Int) - 1 + d.exponent
  if layout.isPlain lead then layout.spelled negative ds d.exponent
  else scientific negative ds lead

/-- How a finite number is written; `none` for the others. -/
def numeral (layout : Layout) (x : Float) : Option Numeral :=
  match x.toModel.unpack with
  | .notANumber | .infinity _ => none
  | .zero s => some ⟨s == .negative, ['0'], layout.wholeFraction, none⟩
  | .finite s m e _ => some (layout.place (s == .negative) (Decimal.shortest layout.tie m e))

end Layout

def plainText (x : Float) : String :=
  match Layout.plain.numeral x with
  | some n => String.ofList n.chars
  | none => if x.isNaN then "NaN" else if x < 0 then "-inf" else "inf"

end Handoff
