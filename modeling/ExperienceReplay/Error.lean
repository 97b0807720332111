import ExperienceReplay.Decimal.Style
import ExperienceReplay.Text.Quoted

/-!
Refusals of a replay buffer and their wording. A refused call has checked its arguments and given
up before it changed anything.
-/

namespace ExperienceReplay

def messageStyle : Decimal.Style where
  tie := .up
  positionalPoints := none
  whole := ""
  nan := "NaN"
  infinity := "inf"

inductive ConfigDefect where
  | alphaNotPositive (alpha : Binary32)
  | betaNegative (beta : Binary32)
  | noCapacity
  | noFields
  | zeroDim (field : String)
  | derivedName (field : String)
  | duplicateField (field : String)
  | noTerminals
  | noStates
  | stated (text : String)
deriving DecidableEq

namespace ConfigDefect

def message : ConfigDefect → String
  | alphaNotPositive alpha => "alpha must be positive, got " ++ messageStyle.write alpha
  | betaNegative beta => "beta must be non-negative, got " ++ messageStyle.write beta
  | noCapacity => "capacity must be positive"
  | noFields => "record schema has no fields"
  | zeroDim field => "field " ++ Text.quoted field ++ " has zero dim"
  | derivedName field => "field " ++ Text.quoted field ++ " collides with derived next states"
  | duplicateField field => "duplicate field " ++ Text.quoted field
  | noTerminals => "record schema must contain \"terminals\""
  | noStates => "next states require a state field"
  | stated text => text

end ConfigDefect

inductive Misfit where
  | fieldNames (expected actual : List String)
  | missingField (field : String)
  | raggedField (field : String) (values dim : Nat)
  | recordCount (field : String) (records expected : Nat)
  | stated (text : String)
deriving DecidableEq

namespace Misfit

def message : Misfit → String
  | fieldNames expected actual =>
    "expected fields " ++ Text.quotedList expected ++ ", got " ++ Text.quotedList actual
  | missingField field => "missing field " ++ Text.quoted field
  | raggedField field values dim =>
    "field " ++ Text.quoted field ++ " has " ++ values.repr ++ " values, not a multiple of dim " ++
      dim.repr
  | recordCount field records expected =>
    "field " ++ Text.quoted field ++ " has " ++ records.repr ++ " records, expected " ++
      expected.repr
  | stated text => text

end Misfit

inductive Error where
  | invalidConfiguration (defect : ConfigDefect)
  | schemaMismatch (misfit : Misfit)
  | indexOutOfRange (index bound : Nat)
  | emptyBuffer
  | degeneratePriority (mass : Binary32)
  | prefixSumOutOfRange (target total : Binary32)
  | invalidUniform (draw : Binary32)
  | lengthMismatch (indices priorities : Nat)
  | invalidPriority (index : Nat) (priority : Binary32)
  | lockPoisoned
  | disconnected
deriving DecidableEq

namespace Error

def message : Error → String
  | invalidConfiguration defect => "Invalid configuration: " ++ defect.message
  | schemaMismatch misfit => "Schema mismatch: " ++ misfit.message
  | indexOutOfRange index bound =>
    "Index " ++ index.repr ++ " is out of range (bound " ++ bound.repr ++ ")"
  | emptyBuffer => "Sampling from an empty buffer"
  | degeneratePriority mass => "Degenerate priority mass: " ++ messageStyle.write mass
  | prefixSumOutOfRange target total =>
    "Prefix sum target " ++ messageStyle.write target ++ " is outside of [0, " ++
      messageStyle.write total ++ ")"
  | invalidUniform draw => "Uniform draw " ++ messageStyle.write draw ++ " is outside of [0, 1)"
  | lengthMismatch indices priorities =>
    "Got " ++ indices.repr ++ " indices but " ++ priorities.repr ++ " priorities"
  | invalidPriority index priority =>
    "Invalid priority " ++ messageStyle.write priority ++ " for index " ++ index.repr
  | lockPoisoned => "Lock of the shared replay buffer is poisoned"
  | disconnected => "Insert worker is disconnected"

end Error

/-- A step without meaning. No call on a buffer that was built from a configuration reaches one. -/
inductive Fault where
  | rowOutOfRange
  | rowWidth
  | zeroDivisor
  | noLastSlot
deriving DecidableEq

inductive Abort where
  | refused (error : Error)
  | faulted (fault : Fault)
deriving DecidableEq

namespace Abort

def remainder (n divisor : Nat) : Except Abort Nat :=
  if divisor = 0 then .error (.faulted .zeroDivisor) else .ok (n % divisor)

def quotient (n divisor : Nat) : Except Abort Nat :=
  if divisor = 0 then .error (.faulted .zeroDivisor) else .ok (n / divisor)

def lastSlot : Nat → Except Abort Nat
  | 0 => .error (.faulted .noLastSlot)
  | size + 1 => .ok size

end Abort

/-- A call on a state. What it changed stays changed when it ends without an answer. -/
abbrev Action (σ α : Type) : Type := ExceptT Abort (StateM σ) α

namespace Action

def perform {σ α : Type} (action : Action σ α) (state : σ) : Except Abort α × σ :=
  (ExceptT.run action).run state

def refuse {σ α : Type} (error : Error) : Action σ α := throw (.refused error)

def inspect {σ α : Type} (look : σ → Except Abort α) : Action σ α := do
  liftExcept (look (← get))
where
  liftExcept : Except Abort α → Action σ α
    | .ok a => pure a
    | .error abort => throw abort

def onPart {σ τ α : Type} (part : σ → τ) (setPart : τ → σ → σ) (action : Action τ α) :
    Action σ α :=
  fun state =>
    let (answer, changed) := action.perform (part state)
    (answer, setPart changed state)

def update {σ α : Type} (change : σ → Except Abort (α × σ)) : Action σ α := do
  let (answer, state) ← inspect change
  set state
  pure answer

variable {σ α β : Type}

@[simp] theorem perform_pure (a : α) (state : σ) :
    (pure a : Action σ α).perform state = (.ok a, state) := rfl

@[simp] theorem perform_refuse (error : Error) (state : σ) :
    (refuse error : Action σ α).perform state = (.error (.refused error), state) := rfl

@[simp] theorem perform_get (state : σ) :
    (get : Action σ σ).perform state = (.ok state, state) := rfl

@[simp] theorem perform_set (state changed : σ) :
    (set changed : Action σ PUnit).perform state = (.ok ⟨⟩, changed) := rfl

@[simp] theorem perform_modify (change : σ → σ) (state : σ) :
    (modify change : Action σ PUnit).perform state = (.ok ⟨⟩, change state) := rfl

theorem perform_bind (first : Action σ α) (next : α → Action σ β) (state : σ) :
    (first >>= next).perform state =
      match first.perform state with
      | (.ok a, changed) => (next a).perform changed
      | (.error abort, changed) => (.error abort, changed) := by
  change (ExceptT.bindCont next (first.perform state).1) (first.perform state).2 = _
  rcases first.perform state with ⟨_ | _, _⟩ <;> rfl

@[simp] theorem perform_inspect (look : σ → Except Abort α) (state : σ) :
    (inspect look).perform state = (look state, state) := by
  change (inspect.liftExcept (look state)).perform state = _
  cases look state <;> rfl

/-- A call that replaces the state leaves it as it was when it is refused. -/
theorem perform_update (change : σ → Except Abort (α × σ)) (state : σ) :
    (update change).perform state =
      match change state with
      | .ok (answer, changed) => (.ok answer, changed)
      | .error abort => (.error abort, state) := by
  rw [update, perform_bind, perform_inspect]
  cases change state <;> rfl

end Action

end ExperienceReplay
