import ExperienceReplay.Binary32.Basic

/-!
The shortest decimal of a binary32 number: of the decimals that round to it, those on the coarsest
power of ten, and of these the nearest.
-/

namespace ExperienceReplay

/-- The number `digits * 10 ^ exponent`. -/
structure Decimal where
  digits : Nat
  exponent : Int
deriving DecidableEq

namespace Decimal

inductive Tie where
  | even
  | up
deriving DecidableEq

/-- The numbers that round to `value`, all over one denominator. -/
structure RoundingRange where
  lower : Nat
  value : Nat
  upper : Nat
  closed : Bool

namespace RoundingRange

def contains (range : RoundingRange) (n : Nat) : Bool :=
  if range.closed then range.lower ≤ n && n ≤ range.upper
  else range.lower < n && n < range.upper

/-- The multiple of `spacing` in the range that is nearest to the value, as a count of spacings. -/
def nearestMultiple? (range : RoundingRange) (tie : Tie) (spacing : Nat) : Option Nat :=
  let below := range.value / spacing
  let above := below + 1
  match range.contains (below * spacing), range.contains (above * spacing) with
  | false, false => none
  | true, false => some below
  | false, true => some above
  | true, true =>
    let excess := 2 * (range.value % spacing)
    if excess < spacing then some below
    else if spacing < excess then some above
    else match tie with
      | .up => some above
      | .even => some (if below % 2 = 0 then below else above)

end RoundingRange

/-- No number of the format needs a finer power of ten than `10 ^ -46`. -/
def finestPlace : Nat := 46

/-- The denominator of a rounding range: quarters of a unit, on the finest power of ten. -/
def rangeScale : Nat := 4 * 10 ^ finestPlace

/-- A number's range reaches half way to its neighbours, and its ends belong to it if the number's
last significant bit is zero. The neighbour below a power of two is only half as far. -/
def rangeOf (magnitude : Binary32.Magnitude) : RoundingRange :=
  let units := magnitude.units
  let place := Rounding.gridExponent Binary32.precision units 1
  let gap := 2 * 2 ^ place
  let gapBelow := if 0 < place ∧ units = 2 ^ units.log2 then 2 ^ place else gap
  { lower := (4 * units - gapBelow) * 10 ^ finestPlace
    value := units * rangeScale
    upper := (4 * units + gap) * 10 ^ finestPlace
    closed := units / 2 ^ place % 2 = 0 }

/-- The places at which a decimal may end, coarsest first, counted from the finest. -/
def places : List Nat := (List.range 86).reverse

def shortest (tie : Tie) (magnitude : Binary32.Magnitude) : Decimal :=
  if magnitude.units = 0 then ⟨0, 0⟩
  else
    (places.findSome? fun place =>
      ((rangeOf magnitude).nearestMultiple? tie (10 ^ place * (4 * Binary32.unitsPerOne))).map
        fun digits => ⟨digits, place - finestPlace⟩).getD ⟨0, 0⟩

end Decimal

end ExperienceReplay
