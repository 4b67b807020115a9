import ColorLowering.Decimal.Binary32

/-!
# Shortest decimals

A decimal reads back as the number `x` when it lies in the interval of reals that round to `x`; the
ends belong to it when the significand is even. Among the grids of multiples of `10 ^ p` the
coarsest that meets the interval gives the fewest digits. There one of the two neighbors of `x` on
the grid is inside; of two, the nearer is taken, and the upper one if they are equally near.
-/
namespace ColorLowering

/-- The number `digits * 10 ^ exponent`. -/
structure Decimal where
  digits : Nat
  exponent : Int
  deriving DecidableEq

namespace Binary32

/-- Distances in quarters of a unit in the last place: half a unit to either side, but half of that
below a power of two, where the numbers are twice as dense. -/
def quartersBelow (x : Binary32) : Nat :=
  if x.significand = 0x800000 ∧ 1 < x.exponentField then 1 else 2

/-- `d * 10 ^ p` in the unit that `quarterUnit` shares. -/
def decimalUnit (x : Binary32) (p : Int) : Nat := Nat.pow 10 p.toNat <<< (2 - x.scale).toNat

/-- A quarter of a unit in the last place, in the same unit. -/
def quarterUnit (x : Binary32) (p : Int) : Nat := Nat.pow 10 (-p).toNat <<< (x.scale - 2).toNat

/-- Whether `d * 10 ^ p` reads back as `x`. -/
def readsBack (x : Binary32) (p : Int) (d : Nat) : Bool :=
  let point := d * x.decimalUnit p
  let low := (4 * x.significand - x.quartersBelow) * x.quarterUnit p
  let high := (4 * x.significand + 2) * x.quarterUnit p
  if x.significand % 2 = 0 then low ≤ point && point ≤ high else low < point && point < high

/-- The neighbor of `x` among the multiples of `10 ^ p` that reads back, if there is one. -/
def onGrid? (x : Binary32) (p : Int) : Option Decimal :=
  let exact := 4 * x.significand * x.quarterUnit p
  let step := x.decimalUnit p
  let below := exact / step
  let upperNearer := step ≤ 2 * (exact % step)
  match x.readsBack p below, x.readsBack p (below + 1) with
  | true, true => some ⟨if upperNearer then below + 1 else below, p⟩
  | true, false => some ⟨below, p⟩
  | false, true => some ⟨below + 1, p⟩
  | false, false => none

/-- From the greatest power of ten that is no more than some number, down to one whose multiples
meet every interval. -/
def gridExponents : List Int :=
  (List.range 84).map fun i => 38 - Int.ofNat i

def shortest (x : Binary32) : Decimal :=
  (gridExponents.findSome? x.onGrid?).getD ⟨0, 0⟩

end Binary32
end ColorLowering
