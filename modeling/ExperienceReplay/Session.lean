import ExperienceReplay.SharedBuffer

/-!
Sessions: sequences of requests to a buffer, through any of the faces that it shows to its users.
-/

namespace ExperienceReplay

inductive Request where
  | insert (records : Records)
  | sample (n : Nat)
  | draw (draws : List Binary32)
  | update (indices : List Nat) (priorities : List Binary32)
  | length

inductive Answer where
  | done
  | batch (batch : SampledBatch)
  | length (size : Nat) (isEmpty : Bool)
deriving DecidableEq

/-- The operations of a buffer as some of its users call them. -/
structure Face (σ : Type) where
  insert : Records → Action σ Unit
  sample : Nat → Action σ SampledBatch
  draw : List Binary32 → Action σ SampledBatch
  update : List Nat → List Binary32 → Action σ Unit
  length : σ → Except Error (Logged (Nat × Bool))
  look : {α : Type} → (Buffer → Except Abort α) → Action σ α

namespace Face

def direct [Power] : Face Buffer where
  insert := Buffer.insert
  sample := Buffer.sample
  draw draws := Action.inspect (Buffer.sampleWith · draws)
  update := Buffer.update
  length buffer := .ok (.silent (buffer.size, buffer.isEmpty))
  look := Action.inspect

def shared [Power] : Face SharedBuffer where
  insert := SharedBuffer.insert
  sample := SharedBuffer.sample
  draw := SharedBuffer.sampleWith
  update := SharedBuffer.update
  length shared := shared.size.map fun size => .silent (size, size == 0)
  look see := SharedBuffer.locked (Action.inspect see)

/-- The same face, with the operations that the interface of producers and learners has. -/
def viaInterface {σ : Type} [ReplaySource σ] (face : Face σ) : Face σ :=
  { face with
    insert := ExperienceSink.push
    sample := ReplaySource.batch
    update := ReplaySource.updatePriority
    length := fun state =>
      .ok ((ExperienceSink.length state).both (ExperienceSink.isEmpty state)) }

def answer {σ : Type} (face : Face σ) : Request → Action σ (Logged Answer)
  | .insert records => do
    face.insert records
    return .silent .done
  | .sample n => return .silent (.batch (← face.sample n))
  | .draw draws => return .silent (.batch (← face.draw draws))
  | .update indices priorities => do
    face.update indices priorities
    return .silent .done
  | .length => do
    let length ← Action.inspect fun state => Buffer.refusing (face.length state)
    return length.map fun (size, isEmpty) => .length size isEmpty

end Face

structure BufferSummary where
  size : Nat
  cursor : Nat
  maxPriority : Binary32
  beta : Binary32
  sum : Binary32
  min : Binary32
deriving DecidableEq

def Buffer.summary (buffer : Buffer) : BufferSummary where
  size := buffer.size
  cursor := buffer.cursor
  maxPriority := buffer.maxPriority
  beta := buffer.beta
  sum := buffer.sums.total
  min := buffer.mins.total

end ExperienceReplay
