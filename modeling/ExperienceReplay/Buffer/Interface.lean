import ExperienceReplay.Buffer.Sampling
import ExperienceReplay.Buffer.Rescoring
import ExperienceReplay.Log

/-!
What producers and learners see of a replay buffer. Code written against these classes does not
depend on the buffer behind them.
-/

namespace ExperienceReplay

class ExperienceSink (σ : Type) where
  push : Records → Action σ Unit
  length : σ → Logged Nat

namespace ExperienceSink

def isEmpty {σ : Type} [ExperienceSink σ] (sink : σ) : Logged Bool :=
  (length sink).map (· == 0)

end ExperienceSink

/-- A buffer from which batches are drawn and to which their new priorities are reported. -/
class ReplaySource (σ : Type) extends ExperienceSink σ where
  build : Config → Except Error σ
  batch : Nat → Action σ SampledBatch
  updatePriority : List Nat → List Binary32 → Action σ Unit

instance [Power] : ReplaySource Buffer where
  push := Buffer.insert
  length buffer := .silent buffer.size
  build := Buffer.build
  batch := Buffer.sample
  updatePriority := Buffer.update

end ExperienceReplay
