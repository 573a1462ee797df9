import Handoff.Decimal.Layout

set_option autoImplicit false
set_option relaxedAutoImplicit false

/-!
Rounding of binary numbers to whole ones, and the short numbers that drawings are written with.
-/

namespace Handoff

/-- The whole number nearest to `x`, a half going away from zero. The sign stays on a zero. -/
def roundHalfAway (x : Float) : Float :=
  match x.toModel.unpack with
  | .finite s m e _ =>
    if 0 ≤ e then x
    else
      let half := Nat.pow 2 ((-e).toNat - 1)
      let whole := (m + half) / (2 * half)
      .ofModel (.pack (.normalize .binary64 (s.apply whole) 0 s))
  | _ => x

def clamp (low high x : Float) : Float :=
  let raised := if x < low then low else x
  if high < raised then high else raised

/-- A number in drawing output: three decimals at most, and zero for what is not finite. -/
def pixelText (x : Float) : String :=
  if x.isFinite then
    let rounded := roundHalfAway (x * 1000) / 1000
    if rounded == 0 then "0" else plainText rounded
  else "0"

end Handoff
