import ExperienceReplay.Buffer.Basic

/-!
Sampling. A draw from `[0, 1)` selects the slot at which the running sum of weights first exceeds
that share of their total; importance weights correct for the selection.
-/

namespace ExperienceReplay

structure SampledBatch where
  records : Records
  indices : List Nat
  weights : List Binary32
deriving DecidableEq

namespace SampledBatch

def size (batch : SampledBatch) : Nat := batch.indices.length

def isEmpty (batch : SampledBatch) : Bool := batch.indices.isEmpty

end SampledBatch

namespace Buffer

def totalMass (buffer : Buffer) : Except Abort Binary32 := do
  if buffer.size = 0 then throw (.refused .emptyBuffer)
  let last ← Abort.lastSlot buffer.size
  let mass ← refusing (buffer.sums.reduce 0 last)
  if ¬(0 < mass ∧ mass.isFinite) then throw (.refused (.degeneratePriority mass))
  return mass

/-- The slot that a draw selects. The mass and the root of the tree are summed in different
orders, so the target is kept below the root; and rounding may lead beyond the last slot written. -/
def select (buffer : Buffer) (mass draw : Binary32) : Except Abort Nat := do
  let bound := buffer.sums.total * Binary32.belowOne
  let found ← refusing (buffer.sums.indexOfPrefixSum ((draw * mass).lesser bound))
  return min found (← Abort.lastSlot buffer.size)

/-- The importance weight of a slot: its weight relative to the least, to the power `-beta`. The
ratio is formed first, so that it cannot overflow, and is kept positive where it underflows. -/
def importanceWeight [Power] (buffer : Buffer) (slot : Nat) : Except Abort Binary32 := do
  let weight ← refusing (buffer.sums.leaf slot)
  let corrected := Power.pow (buffer.mins.total / weight) buffer.beta
  return (corrected.greater Binary32.leastNormal).lesser 1

def sampleWith [Power] (buffer : Buffer) (draws : List Binary32) : Except Abort SampledBatch := do
  let mass ← buffer.totalMass
  match draws.find? fun draw => ¬(0 ≤ draw ∧ draw < 1) with
  | some draw => throw (.refused (.invalidUniform draw))
  | none =>
    let indices ← draws.mapM (buffer.select mass)
    let weights ← indices.mapM buffer.importanceWeight
    let records ← buffer.ring.read indices
    return { records, indices, weights }

def takeDraws (n : Nat) : Action Buffer (List Binary32) :=
  Action.update fun buffer =>
    let (draws, stream) := buffer.stream.take n
    .ok (draws, { buffer with stream })

/-- Draws a batch of `n` records. Nothing is drawn from a buffer that cannot be sampled. -/
def sample [Power] (n : Nat) : Action Buffer SampledBatch := do
  let _ ← Action.inspect totalMass
  let draws ← takeDraws n
  Action.inspect (sampleWith · draws)

end Buffer

end ExperienceReplay
