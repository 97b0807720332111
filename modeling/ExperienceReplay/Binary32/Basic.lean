import ExperienceReplay.Binary32.Rounding

/-!
The binary32 numbers. A finite number is a sign and a whole number of units of `2 ^ -149`, the
least positive number of the format, so that every finite number is an integer over one
denominator. All comparisons go through one integer key, `rank?`.
-/

namespace ExperienceReplay

def Binary32.precision : Nat := 24

def Binary32.greatestUnits : Nat := (2 ^ 24 - 1) * 2 ^ 253

def Binary32.unitsPerOne : Nat := 2 ^ 149

/-- The absolute value of a finite number, in units. -/
structure Binary32.Magnitude where
  units : Nat
  fits : Rounding.Fits precision units
  le_greatest : units ≤ greatestUnits
deriving DecidableEq

/-- A binary32 number. Not-a-number has no sign and no payload. -/
inductive Binary32 where
  | nan
  | infinite (negative : Bool)
  | finite (negative : Bool) (magnitude : Binary32.Magnitude)
deriving DecidableEq

namespace Binary32

/-- The number nearest to `num / den` units, an infinity if that exceeds the finite numbers. -/
def ofQuotient (negative : Bool) (num den : Nat) : Binary32 :=
  if h : Rounding.toBits precision num den ≤ greatestUnits then
    finite negative ⟨_, Rounding.fits_toBits (by decide) num den, h⟩
  else infinite negative

def ofNat (n : Nat) : Binary32 := ofQuotient false (n * unitsPerOne) 1

def Magnitude.zero : Magnitude := ⟨0, by decide, by decide⟩

def zero : Binary32 := finite false .zero

def one : Binary32 := finite false ⟨2 ^ 149, by decide, by decide⟩

/-- The least positive number with full precision, `2 ^ -126`. -/
def leastNormal : Binary32 := finite false ⟨2 ^ 23, by decide, by decide⟩

def greatest : Binary32 := finite false ⟨greatestUnits, by decide, by decide⟩

/-- `1 - 2 ^ -23`. -/
def belowOne : Binary32 := finite false ⟨(2 ^ 23 - 1) * 2 ^ 126, by decide, by decide⟩

def infinity : Binary32 := infinite false

instance : OfNat Binary32 0 := ⟨zero⟩

instance : OfNat Binary32 1 := ⟨one⟩

instance : Inhabited Binary32 := ⟨zero⟩

def isFinite : Binary32 → Bool
  | finite _ _ => true
  | _ => false

/-- A number in units with its sign; nothing for infinities and not-a-number. -/
def units? : Binary32 → Option Int
  | finite negative magnitude =>
    some (if negative then -(magnitude.units : Int) else magnitude.units)
  | _ => none

/-- The position on the number line; both zeros have the same. -/
def rank? : Binary32 → Option Int
  | nan => none
  | infinite negative => some (if negative then -(2 ^ 277) else 2 ^ 277)
  | finite negative magnitude =>
    some (if negative then -(magnitude.units : Int) else magnitude.units)

def compareBy (holds : Int → Int → Bool) (a b : Binary32) : Bool :=
  match a.rank?, b.rank? with
  | some x, some y => holds x y
  | _, _ => false

def less (a b : Binary32) : Bool := compareBy (· < ·) a b

def atMost (a b : Binary32) : Bool := compareBy (· ≤ ·) a b

/-- Equality of numbers: the two zeros are equal, not-a-number differs from itself. -/
def same (a b : Binary32) : Bool := compareBy (· = ·) a b

instance : LT Binary32 := ⟨fun a b => a.less b = true⟩

instance : LE Binary32 := ⟨fun a b => a.atMost b = true⟩

instance (a b : Binary32) : Decidable (a < b) := inferInstanceAs (Decidable (_ = true))

instance (a b : Binary32) : Decidable (a ≤ b) := inferInstanceAs (Decidable (_ = true))

end Binary32

end ExperienceReplay
