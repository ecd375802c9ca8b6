import SceneDoc.Number.Double

namespace SceneDoc

-- Powers are those of the core library, also where more algebra is in scope.
attribute [local instance (high)] instPowNat

/-- `digits · 10^exponent`. -/
structure Decimal where
  digits : Nat
  exponent : Int
deriving DecidableEq, Repr

namespace Finite

/-- Distance to the next larger double. -/
def spacing (x : Finite) : Nat := 2 ^ Precision.double.step x.units

/-- Four times the midpoint to the next smaller double. Just above a power of two that neighbour is
half as far away. -/
def lowerMidpoint (x : Finite) : Nat :=
  if x.units = 2 ^ x.units.log2 ∧ 1 < x.spacing then 4 * x.units - x.spacing
  else 4 * x.units - 2 * x.spacing

def upperMidpoint (x : Finite) : Nat := 4 * x.units + 2 * x.spacing

/-- Whether `digits · 10^exponent` reads back as this double: it lies between the midpoints, and on one
of them only if the double is even. -/
def readsFrom (x : Finite) (digits : Nat) (exponent : Int) : Bool :=
  let decimal := 4 * digits * 10 ^ exponent.toNat * unitsPerOne
  let scale := 10 ^ (-exponent).toNat
  let lower := x.lowerMidpoint * scale
  let upper := x.upperMidpoint * scale
  if x.units / x.spacing % 2 = 0 then lower ≤ decimal && decimal ≤ upper
  else lower < decimal && decimal < upper

/-- The better of the two neighbours on the grid of multiples of `10^exponent`, if one reads back. -/
def onGrid? (tie : Tie) (x : Finite) (exponent : Int) : Option Nat :=
  let num := x.units * 10 ^ (-exponent).toNat
  let den := 10 ^ exponent.toNat * unitsPerOne
  let below := num / den
  match x.readsFrom below exponent, x.readsFrom (below + 1) exponent with
  | true, true => some (roundDiv tie num den)
  | true, false => some below
  | false, true => some (below + 1)
  | false, false => none

def leadingExponent (x : Finite) : Int :=
  if unitsPerOne ≤ x.units then ((Nat.toDigits 10 (x.units / unitsPerOne)).length : Int) - 1
  else - ((Nat.toDigits 10 ((unitsPerOne + x.units - 1) / x.units - 1)).length : Int)

/-- The shortest decimal that reads back, and of those the nearest. Seventeen digits always suffice;
the grid above the leading digit comes first because of numbers just below a power of ten. -/
def shortest (tie : Tie) (x : Finite) : Decimal :=
  let top := x.leadingExponent + 1
  let found := (List.range 18).findSome? fun (k : Nat) =>
    (x.onGrid? tie (top - k)).map (Decimal.mk · (top - k))
  found.getD ⟨0, 0⟩

end Finite
end SceneDoc
