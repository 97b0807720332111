import ExperienceReplay.Binary32.Power
import ExperienceReplay.Config.Basic
import ExperienceReplay.RandomStream.Basic
import ExperienceReplay.RecordRing.Basic
import ExperienceReplay.SegmentTree.Basic

/-!
A replay buffer that samples records in proportion to a power of their priority. Slot `i` of the
ring and leaf `i` of both trees describe the same record; the weight of a slot is its priority to
the power `alpha`.
-/

namespace ExperienceReplay

structure Buffer where
  ring : RecordRing
  /-- The weights, to find the slot at which the running sum exceeds a draw. -/
  sums : SumTree
  mins : MinTree
  alpha : Binary32
  annealing : Annealing
  /-- The greatest priority seen, given to new records. -/
  maxPriority : Binary32
  stream : RandomStream

namespace Buffer

def build (config : Config) : Except Error Buffer := do
  config.validate.mapError .invalidConfiguration
  let ring ← RecordRing.build config.capacity config.fields config.nextStates
  return {
    ring
    sums := .ofCapacity _ config.capacity
    mins := .ofCapacity _ config.capacity
    alpha := config.alpha
    annealing := .ofSchedule config.beta config.betaSchedule
    maxPriority := 1
    stream := .ofSeed config.seed }

/-- A buffer with the default seed and without annealing. -/
def new (capacity : Nat) (alpha beta : Binary32) (nextStates : Bool) (fields : List Field) :
    Except Error Buffer :=
  build { Config.default with capacity, alpha, beta, nextStates, fields }

def size (buffer : Buffer) : Nat := buffer.ring.size

def isEmpty (buffer : Buffer) : Bool := buffer.ring.isEmpty

def capacity (buffer : Buffer) : Nat := buffer.ring.capacity

def cursor (buffer : Buffer) : Nat := buffer.ring.cursor

def priorityCapacity (buffer : Buffer) : Nat := buffer.sums.size

def schema (buffer : Buffer) : List Field := buffer.ring.schema

def beta (buffer : Buffer) : Binary32 := buffer.annealing.beta

def refusing {α : Type} (result : Except Error α) : Except Abort α :=
  result.mapError .refused

def setWeight (weight : Binary32) (slot : Nat) : Action Buffer Unit := do
  Action.update fun buffer => do
    return ((), { buffer with sums := ← refusing (buffer.sums.update slot weight .replace) })
  Action.update fun buffer => do
    return ((), { buffer with mins := ← refusing (buffer.mins.update slot weight .replace) })

/-- Writes a batch. Every slot written gets the weight of the greatest priority seen so far. -/
def insert [Power] (records : Records) : Action Buffer Unit := do
  let slots ← Action.update fun buffer => do
    let (slots, ring) ← buffer.ring.insert records
    return (slots, { buffer with ring })
  let buffer ← get
  slots.forM (setWeight (Power.pow buffer.maxPriority buffer.alpha))

end Buffer

end ExperienceReplay
