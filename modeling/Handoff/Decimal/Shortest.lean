set_option autoImplicit false
set_option relaxedAutoImplicit false

/-!
The shortest decimal that reads back as a binary number.

A binary number `m * 2 ^ e` of 53 digits stands for all reals that round to it. Among the points of decimal grids
in that interval, one of the coarsest grid is chosen, and on that grid the one nearest to the number.
-/

namespace Handoff

/-- The number `digits * 10 ^ exponent`. -/
structure Decimal where
  digits : Nat
  exponent : Int
  deriving DecidableEq, Repr

namespace Decimal

/-- Which of two equally near grid points is taken. -/
inductive Tie where
  | even
  | up
  deriving DecidableEq, Repr

/-- The lower end of the interval that rounds to `m * 2 ^ e`, in quarters of `2 ^ e`. -/
def lowEnd (m : Nat) (e : Int) : Nat :=
  if m = Nat.pow 2 52 ∧ -1074 < e then 4 * m - 1 else 4 * m - 2

def highEnd (m : Nat) : Nat :=
  4 * m + 2

/-- The ratio of a quarter of `2 ^ e` to a step of the grid `10 ^ t`, as numerator and denominator. -/
def gridRatio (e t : Int) : Nat × Nat :=
  let q := e - 2
  (Nat.pow 2 q.toNat * Nat.pow 10 (-t).toNat, Nat.pow 10 t.toNat * Nat.pow 2 (-q).toNat)

/-- Whether the grid point `p * 10 ^ t` rounds to `m * 2 ^ e`; the ends of the interval do when `m` is even. -/
def readsBack (m : Nat) (e t : Int) (p : Nat) : Bool :=
  let (num, den) := gridRatio e t
  let low := lowEnd m e * num
  let high := highEnd m * num
  if m % 2 = 0 then Nat.ble low (p * den) && Nat.ble (p * den) high
  else Nat.blt low (p * den) && Nat.blt (p * den) high

/-- The grid point next below `m * 2 ^ e`. -/
def floorOn (m : Nat) (e t : Int) : Nat :=
  let (num, den) := gridRatio e t
  4 * m * num / den

/-- The nearer of the two grid points around `m * 2 ^ e`. -/
def nearer (tie : Tie) (m : Nat) (e t : Int) : Nat :=
  let (num, den) := gridRatio e t
  let below := floorOn m e t
  let down := 4 * m * num - below * den
  let up := (below + 1) * den - 4 * m * num
  if down < up then below
  else if up < down then below + 1
  else match tie with
    | .up => below + 1
    | .even => below + below % 2

/-- The grid point that stands for `m * 2 ^ e` on the grid `10 ^ t`, when there is one. -/
def onGrid (tie : Tie) (m : Nat) (e t : Int) : Option Nat :=
  let below := floorOn m e t
  match readsBack m e t below, readsBack m e t (below + 1) with
  | true, true => some (nearer tie m e t)
  | true, false => some below
  | false, true => some (below + 1)
  | false, false => none

/-- The first of the grids `10 ^ t`, `10 ^ (t - 1)`, … with a point that reads back. -/
def search (tie : Tie) (m : Nat) (e : Int) : Nat → Int → Decimal
  | 0, t => ⟨floorOn m e t, t⟩
  | steps + 1, t =>
    match onGrid tie m e t with
    | some p => ⟨p, t⟩
    | none => search tie m e steps (t - 1)

/-- A power of ten that is above every number with `bits` binary digits before the point. -/
def startOf (bits : Int) : Int :=
  if 0 ≤ bits then bits * 31 / 100 + 1 else 1 - -bits * 3 / 10

/-- The shortest decimal that reads back as `m * 2 ^ e`. The grid `10 ^ -324` has a point in every interval. -/
def shortest (tie : Tie) (m : Nat) (e : Int) : Decimal :=
  let start := startOf (m.log2 + 2 + e)
  search tie m e (start + 325).toNat start

end Decimal
end Handoff
