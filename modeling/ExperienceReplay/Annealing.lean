import ExperienceReplay.Binary32.Arithmetic

/-!
Linear annealing of the exponent of importance weights over the priority updates of a buffer.
-/

namespace ExperienceReplay

/-- The exponent to end with, and the number of updates after which it is reached. -/
structure BetaSchedule where
  betaFinal : Binary32
  updatesFinal : Nat
deriving DecidableEq

structure Annealing where
  initial : Binary32
  final : Binary32
  updatesFinal : Nat
  updates : Nat
deriving DecidableEq

namespace Annealing

def ofSchedule (beta : Binary32) : Option BetaSchedule → Annealing
  | none => ⟨beta, beta, 0, 0⟩
  | some schedule => ⟨beta, schedule.betaFinal, schedule.updatesFinal, 0⟩

def betaAt (annealing : Annealing) (updates : Nat) : Binary32 :=
  if annealing.updatesFinal ≤ updates then annealing.final
  else
    annealing.initial + (annealing.final - annealing.initial) *
      (Binary32.ofNat updates / Binary32.ofNat annealing.updatesFinal)

def beta (annealing : Annealing) : Binary32 := annealing.betaAt annealing.updates

def countUpdate (annealing : Annealing) : Annealing :=
  { annealing with updates := annealing.updates + 1 }

end Annealing

end ExperienceReplay
