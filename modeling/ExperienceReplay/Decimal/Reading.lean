import ExperienceReplay.Decimal.Shortest

/-!
Reading decimal text. Numbers are read in double precision first and then rounded to binary32, so
a decimal close to the middle of two binary32 numbers is rounded twice.
-/

namespace ExperienceReplay.Decimal

/-- Splits off a leading sign; true stands for minus. -/
def splitSign : List Char → Bool × List Char
  | '-' :: rest => (true, rest)
  | '+' :: rest => (false, rest)
  | text => (false, text)

def natural? (text : List Char) : Option Nat :=
  if text ≠ [] ∧ text.all Char.isDigit then some (Nat.ofDigitChars 10 text 0) else none

def integer? (text : List Char) : Option Int :=
  let (negative, digits) := splitSign text
  (natural? digits).map fun n => if negative then -(n : Int) else n

/-- The exponent after `e`; nothing written stands for zero. -/
def exponent? : List Char → Option Int
  | [] => some 0
  | c :: rest => if c = 'e' ∨ c = 'E' then integer? rest else none

/-- An unsigned decimal: digits with an optional point and an optional exponent, at least one digit
before the exponent. -/
def unsigned? (text : List Char) : Option Decimal :=
  let whole := text.takeWhile Char.isDigit
  let rest := text.dropWhile Char.isDigit
  let (fraction, rest) :=
    match rest with
    | '.' :: after => (after.takeWhile Char.isDigit, after.dropWhile Char.isDigit)
    | _ => ([], rest)
  if whole = [] ∧ fraction = [] then none
  else
    (exponent? rest).map fun exponent =>
      ⟨Nat.ofDigitChars 10 (whole ++ fraction) 0, exponent - fraction.length⟩

/-- The double precision number nearest to a decimal, in units of `2 ^ -1074`; nothing if it
exceeds the finite numbers. Decimals far outside the range of the format are decided by their
length alone. -/
def doubleUnits? (d : Decimal) : Option Nat :=
  if d.digits = 0 then some 0
  else
    let point := (Nat.toDigits 10 d.digits).length + d.exponent
    if 310 < point then none
    else if point < -330 then some 0
    else
      let units := Rounding.toBits 53 (d.digits * 10 ^ d.exponent.toNat * 2 ^ 1074)
        (10 ^ (-d.exponent).toNat)
      if units ≤ (2 ^ 53 - 1) * 2 ^ 2045 then some units else none

inductive Double where
  | nan
  | infinite (negative : Bool)
  /-- A number of units of `2 ^ -1074`. -/
  | finite (negative : Bool) (units : Nat)
deriving DecidableEq

namespace Double

def isFinite : Double → Bool
  | finite _ _ => true
  | _ => false

def toBinary32 : Double → Binary32
  | nan => .nan
  | infinite negative => .infinite negative
  | finite negative units => .ofQuotient negative units (2 ^ 925)

def read? (text : List Char) : Option Double :=
  let (negative, rest) := splitSign text
  match unsigned? rest with
  | some d =>
    match d.doubleUnits? with
    | some units => some (finite negative units)
    | none => some (infinite negative)
  | none =>
    match String.ofList (rest.map Char.toLower) with
    | "inf" | "infinity" => some (infinite negative)
    | "nan" => some nan
    | _ => none

end Double

end ExperienceReplay.Decimal
