import ExperienceReplay.RandomStream.ChaCha
import ExperienceReplay.Binary32.Basic

/-!
Uniform draws. A stream is fixed by its seed; what changes is only the number of draws taken.
-/

namespace ExperienceReplay

def seedStep (state : UInt64) : UInt64 := state * 6364136223846793005 + 11634580027462260723

/-- A state's key word: its high half folded into the low one and rotated by its top bits. -/
def seedWord (state : UInt64) : UInt32 :=
  let folded := (((state >>> 18) ^^^ state) >>> 27).toUInt32
  let turn := (state >>> 59).toUInt32
  (folded >>> turn) ||| (folded <<< ((32 - turn) % 32))

def seedState (seed : UInt64) : Nat → UInt64
  | 0 => seed
  | n + 1 => seedStep (seedState seed n)

def keyOfSeed (seed : UInt64) : ChaCha.Key :=
  Vector.ofFn fun i => seedWord (seedState seed (i + 1))

structure RandomStream where
  key : ChaCha.Key
  position : Nat
deriving DecidableEq

namespace RandomStream

def ofSeed (seed : UInt64) : RandomStream := ⟨keyOfSeed seed, 0⟩

/-- Draw `k` of the stream with a key: the upper 24 bits of a word, as a fraction of one. -/
def draw (key : ChaCha.Key) (k : Nat) : Binary32 :=
  Binary32.ofQuotient false ((ChaCha.word key k >>> 8).toNat * Binary32.unitsPerOne) (2 ^ 24)

def take (stream : RandomStream) (n : Nat) : List Binary32 × RandomStream :=
  ((List.range n).map fun i => draw stream.key (stream.position + i),
    { stream with position := stream.position + n })

end RandomStream

end ExperienceReplay
