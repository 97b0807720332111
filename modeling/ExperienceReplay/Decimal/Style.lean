import ExperienceReplay.Decimal.Shortest

/-!
Ways to write a binary32 number as text: the shortest decimal, laid out in positional notation or
with an exponent.
-/

namespace ExperienceReplay.Decimal

/-- The number of digits before the point in positional notation; not positive for small numbers. -/
def point (d : Decimal) : Int := (Nat.toDigits 10 d.digits).length + d.exponent

def positional (whole : String) (d : Decimal) : String :=
  let digits := Nat.toDigits 10 d.digits
  if 0 ≤ d.exponent then
    String.ofList (digits ++ List.replicate d.exponent.toNat '0') ++ whole
  else if 0 < d.point then
    String.ofList (digits.take d.point.toNat ++ '.' :: digits.drop d.point.toNat)
  else
    "0." ++ String.ofList (List.replicate (-d.point).toNat '0' ++ digits)

def scientific (d : Decimal) : String :=
  let digits := Nat.toDigits 10 d.digits
  let fraction := if digits.length ≤ 1 then [] else '.' :: digits.drop 1
  let exponent := d.point - 1
  String.ofList (digits.take 1 ++ fraction) ++ "e" ++ (if exponent < 0 then "-" else "") ++
    exponent.natAbs.repr

structure Style where
  tie : Tie
  /-- Positional notation is used for points above the first and up to the second bound. -/
  positionalPoints : Option (Int × Int)
  /-- Follows a number without a fraction in positional notation. -/
  whole : String
  nan : String
  infinity : String

namespace Style

def isPositional (style : Style) (d : Decimal) : Bool :=
  match style.positionalPoints with
  | none => true
  | some (above, upTo) => above < d.point && d.point ≤ upTo

def writeMagnitude (style : Style) (magnitude : Binary32.Magnitude) : String :=
  let d := shortest style.tie magnitude
  if style.isPositional d then d.positional style.whole else d.scientific

def write (style : Style) : Binary32 → String
  | .nan => style.nan
  | .infinite negative => (if negative then "-" else "") ++ style.infinity
  | .finite negative magnitude =>
    (if negative then "-" else "") ++ style.writeMagnitude magnitude

end Style

end ExperienceReplay.Decimal
