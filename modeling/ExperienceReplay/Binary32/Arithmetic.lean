import ExperienceReplay.Binary32.Basic

/-!
Arithmetic on binary32 numbers. Each operation on finite numbers is the exact result, rounded once
to nearest with ties to even.
-/

namespace ExperienceReplay.Binary32

def neg : Binary32 → Binary32
  | nan => nan
  | infinite negative => infinite !negative
  | finite negative magnitude => finite (!negative) magnitude

/-- A sum that is exactly zero is negative only if both terms are. -/
def add : Binary32 → Binary32 → Binary32
  | nan, _ => nan
  | _, nan => nan
  | infinite s, infinite t => if s = t then infinite s else nan
  | infinite s, finite _ _ => infinite s
  | finite _ _, infinite t => infinite t
  | finite s a, finite t b =>
    let sum : Int := (if s then -(a.units : Int) else a.units) +
      (if t then -(b.units : Int) else b.units)
    if sum = 0 then finite (s && t) .zero
    else ofQuotient (sum < 0) sum.natAbs 1

def sub (a b : Binary32) : Binary32 := a.add b.neg

def mul : Binary32 → Binary32 → Binary32
  | nan, _ => nan
  | _, nan => nan
  | infinite s, infinite t => infinite (s ^^ t)
  | infinite s, finite t b => if b.units = 0 then nan else infinite (s ^^ t)
  | finite s a, infinite t => if a.units = 0 then nan else infinite (s ^^ t)
  | finite s a, finite t b => ofQuotient (s ^^ t) (a.units * b.units) unitsPerOne

def div : Binary32 → Binary32 → Binary32
  | nan, _ => nan
  | _, nan => nan
  | infinite _, infinite _ => nan
  | infinite s, finite t _ => infinite (s ^^ t)
  | finite s _, infinite t => finite (s ^^ t) .zero
  | finite s a, finite t b =>
    if b.units = 0 then (if a.units = 0 then nan else infinite (s ^^ t))
    else ofQuotient (s ^^ t) (a.units * unitsPerOne) b.units

instance : Neg Binary32 := ⟨neg⟩

instance : Add Binary32 := ⟨add⟩

instance : Sub Binary32 := ⟨sub⟩

instance : Mul Binary32 := ⟨mul⟩

instance : Div Binary32 := ⟨div⟩

/-- The lesser of two numbers; a number against not-a-number is the number. -/
def lesser (a b : Binary32) : Binary32 :=
  if a = nan then b else if b < a then b else a

def greater (a b : Binary32) : Binary32 :=
  if a = nan then b else if a < b then b else a

end ExperienceReplay.Binary32
