import ExperienceReplay.Binary32.Basic

/-!
The interchange encoding of binary32 numbers in 32 bits: sign, eight bits of exponent and 23 bits
of fraction.
-/

namespace ExperienceReplay.Binary32

/-- Every pattern with a full exponent and a fraction reads as the one not-a-number. -/
def ofBits (bits : UInt32) : Binary32 :=
  let negative := bits >>> 31 = 1
  let exponent := (bits.toNat >>> 23) % 256
  let fraction := bits.toNat % 2 ^ 23
  if exponent = 255 then (if fraction = 0 then infinite negative else nan)
  else if exponent = 0 then ofQuotient negative fraction 1
  else ofQuotient negative ((2 ^ 23 + fraction) * 2 ^ (exponent - 1)) 1

def Magnitude.toBits (magnitude : Magnitude) : Nat :=
  let units := magnitude.units
  if units < 2 ^ 23 then units
  else
    let exponent := units.log2 - 22
    exponent * 2 ^ 23 + (units >>> (exponent - 1)) % 2 ^ 23

/-- Not-a-number is written as the positive quiet one. -/
def toBits : Binary32 → UInt32
  | nan => 0x7fc00000
  | infinite negative => if negative then 0xff800000 else 0x7f800000
  | finite negative magnitude =>
    UInt32.ofNat ((if negative then 2 ^ 31 else 0) + magnitude.toBits)

end ExperienceReplay.Binary32
