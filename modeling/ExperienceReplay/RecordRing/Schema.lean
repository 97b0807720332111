import ExperienceReplay.Records
import ExperienceReplay.Error

/-!
Schemas, the lists of fields that records have, and the batches that fit them.
-/

namespace ExperienceReplay.Schema

def checkFields (seen : List String) : List Field → Except ConfigDefect Unit
  | [] => .ok ()
  | field :: rest =>
    if field.dim = 0 then .error (.zeroDim field.name)
    else if Field.isDerivedName field.name then .error (.derivedName field.name)
    else if field.name ∈ seen then .error (.duplicateField field.name)
    else checkFields (field.name :: seen) rest

/-- A schema needs fields with distinct names that leave the names of next states free, among them
the terminal flag and, if next states are read, a state. -/
def check (capacity : Nat) (schema : List Field) (nextStates : Bool) : Except ConfigDefect Unit :=
  if capacity = 0 then .error .noCapacity
  else if schema = [] then .error .noFields
  else do
    checkFields [] schema
    if ¬schema.any (·.name == Field.terminals) then throw .noTerminals
    if nextStates ∧ ¬schema.any Field.isState then throw .noStates

def countFrom (records : Records) (expected : Option Nat) : List Field → Except Abort (Option Nat)
  | [] => .ok expected
  | field :: rest =>
    match records.get? field.name with
    | none => .error (.refused (.schemaMismatch (.missingField field.name)))
    | some values => do
      let excess ← Abort.remainder values.length field.dim
      let count ← Abort.quotient values.length field.dim
      if excess ≠ 0 then
        throw (.refused (.schemaMismatch (.raggedField field.name values.length field.dim)))
      if expected.any (· ≠ count) then
        throw (.refused (.schemaMismatch (.recordCount field.name count (expected.getD 0))))
      countFrom records (some count) rest

def batchLength (schema : List Field) (records : Records) : Except Abort Nat :=
  if records.size ≠ schema.length then
    .error (.refused (.schemaMismatch (.fieldNames (schema.map Field.name) records.names)))
  else do
    return (← countFrom records none schema).getD 0

end ExperienceReplay.Schema
