import ExperienceReplay.Annealing
import ExperienceReplay.Records
import ExperienceReplay.Error

/-!
Configurations of a replay buffer.
-/

namespace ExperienceReplay

structure Config where
  capacity : Nat
  /-- The exponent applied to priorities. -/
  alpha : Binary32
  /-- The initial exponent of importance weights; zero turns the correction off. -/
  beta : Binary32
  betaSchedule : Option BetaSchedule
  /-- Whether sampled batches carry the states of the following slots. -/
  nextStates : Bool
  seed : UInt64
  fields : List Field
deriving DecidableEq

namespace Config

def default : Config where
  capacity := 10000
  alpha := Binary32.ofQuotient false (6 * Binary32.unitsPerOne) 10
  beta := Binary32.ofQuotient false (4 * Binary32.unitsPerOne) 10
  betaSchedule := none
  nextStates := true
  seed := 42
  fields := [.scalar Field.states, .scalar "actions", .scalar "rewards", .scalar Field.terminals]

def betas (config : Config) : List Binary32 :=
  config.beta :: config.betaSchedule.toList.map BetaSchedule.betaFinal

/-- Checks exponents and capacity; the fields are checked when a buffer is built. -/
def validate (config : Config) : Except ConfigDefect Unit :=
  if ¬(0 < config.alpha ∧ config.alpha.isFinite) then .error (.alphaNotPositive config.alpha)
  else
    match config.betas.find? fun beta => ¬(0 ≤ beta ∧ beta.isFinite) with
    | some beta => .error (.betaNegative beta)
    | none => if config.capacity = 0 then .error .noCapacity else .ok ()

end Config

end ExperienceReplay
