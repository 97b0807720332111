import ExperienceReplay.Binary32.Bits

/-!
Powers of binary32 numbers. The library takes the power function as a parameter, because no
standard fixes its last bit; `Power.viaDouble` computes it in double precision and rounds once.
-/

namespace ExperienceReplay

class Power where
  pow : Binary32 → Binary32 → Binary32

class Power.OnePow [Power] : Prop where
  one_pow : ∀ exponent, Power.pow 1 exponent = 1

def Binary32.toDouble (x : Binary32) : Float := (Float32.ofBits x.toBits).toFloat

/-- One to any power and any number to the power zero are one; every other power is the double
precision power, rounded. -/
@[reducible] def Power.viaDouble : Power where
  pow base exponent :=
    if base = 1 ∨ exponent.same 0 then 1
    else Binary32.ofBits (base.toDouble.pow exponent.toDouble).toFloat32.toBits

theorem Power.viaDouble_onePow : letI := Power.viaDouble; Power.OnePow :=
  letI := Power.viaDouble
  ⟨fun _ => if_pos (Or.inl rfl)⟩

end ExperienceReplay
