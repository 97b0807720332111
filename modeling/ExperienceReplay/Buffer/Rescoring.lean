import ExperienceReplay.Buffer.Basic

/-!
New priorities for sampled slots.
-/

namespace ExperienceReplay.Buffer

/-- No leaf may weigh more, so that the sum of all leaves stays finite. -/
def greatestWeight (buffer : Buffer) : Binary32 :=
  Binary32.greatest / Binary32.ofNat (2 * buffer.sums.size)

def isScorable [Power] (buffer : Buffer) (priority : Binary32) : Bool :=
  let weight := Power.pow priority buffer.alpha
  0 < priority && priority.isFinite && Binary32.leastNormal ≤ weight &&
    weight ≤ buffer.greatestWeight

def checkScore [Power] (buffer : Buffer) (score : Nat × Binary32) : Except Error Unit :=
  if buffer.capacity ≤ score.1 then .error (.indexOutOfRange score.1 buffer.capacity)
  else if buffer.isScorable score.2 then .ok ()
  else .error (.invalidPriority score.1 score.2)

def rescore [Power] (score : Nat × Binary32) : Action Buffer Unit := do
  setWeight (Power.pow score.2 (← get).alpha) score.1
  modify fun buffer => { buffer with maxPriority := buffer.maxPriority.greater score.2 }

/-- Replaces the priorities of the given slots, after all of them have been checked. -/
def update [Power] (indices : List Nat) (priorities : List Binary32) : Action Buffer Unit := do
  if indices.length ≠ priorities.length then
    Action.refuse (.lengthMismatch indices.length priorities.length)
  let scores := indices.zip priorities
  Action.inspect fun buffer => refusing (scores.forM buffer.checkScore)
  scores.forM rescore
  modify fun buffer => { buffer with annealing := buffer.annealing.countUpdate }

end ExperienceReplay.Buffer
