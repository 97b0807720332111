import ExperienceReplay.Buffer.Interface

/-!
A buffer shared by several holders under one lock. Each call holds the lock once, from beginning to
end. A fault while the lock is held poisons it, and from then on every call is refused.
-/

namespace ExperienceReplay

structure SharedBuffer where
  buffer : Buffer
  poisoned : Bool

namespace SharedBuffer

def ofBuffer (buffer : Buffer) : SharedBuffer := ⟨buffer, false⟩

def locked {α : Type} (call : Action Buffer α) : Action SharedBuffer α := fun shared =>
  if shared.poisoned then (.error (.refused .lockPoisoned), shared)
  else
    match call.perform shared.buffer with
    | (.error (.faulted fault), buffer) => (.error (.faulted fault), ⟨buffer, true⟩)
    | (answer, buffer) => (answer, ⟨buffer, false⟩)

theorem perform_locked_of_poisoned {α : Type} (call : Action Buffer α) {shared : SharedBuffer}
    (h : shared.poisoned = true) :
    (locked call).perform shared = (.error (.refused .lockPoisoned), shared) := by
  change (if shared.poisoned then _ else _) = _
  rw [if_pos h]

/-- What becomes of the lock when its holder fails on its own account. -/
def abandon (shared : SharedBuffer) : SharedBuffer := { shared with poisoned := true }

def insert [Power] (records : Records) : Action SharedBuffer Unit := locked (Buffer.insert records)

def sample [Power] (n : Nat) : Action SharedBuffer SampledBatch := locked (Buffer.sample n)

def sampleWith [Power] (draws : List Binary32) : Action SharedBuffer SampledBatch :=
  locked (Action.inspect (Buffer.sampleWith · draws))

def update [Power] (indices : List Nat) (priorities : List Binary32) : Action SharedBuffer Unit :=
  locked (Buffer.update indices priorities)

def size (shared : SharedBuffer) : Except Error Nat :=
  if shared.poisoned then .error .lockPoisoned else .ok shared.buffer.size

/-- A buffer whose lock is poisoned counts as empty. -/
def sizeOrZero (shared : SharedBuffer) : Logged Nat :=
  match shared.size with
  | .ok size => .silent size
  | .error error => .warning ("Reporting an empty buffer: " ++ error.message) 0

end SharedBuffer

instance [Power] : ReplaySource SharedBuffer where
  push := SharedBuffer.insert
  length := SharedBuffer.sizeOrZero
  build config := (Buffer.build config).map .ofBuffer
  batch := SharedBuffer.sample
  updatePriority := SharedBuffer.update

end ExperienceReplay
