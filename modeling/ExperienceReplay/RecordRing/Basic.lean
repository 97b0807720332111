import ExperienceReplay.RecordRing.Schema

/-!
A ring of records. Slots are written in turn, so that a full ring overwrites its oldest records.
The state that follows a record is not stored; it is read from the next slot.
-/

namespace ExperienceReplay

/-- Cuts values into rows of one width; the last row may be shorter. -/
def splitRows {α : Type} (width : Nat) (positive : 0 < width) : List α → List (List α)
  | [] => []
  | value :: rest =>
    (value :: rest).take width :: splitRows width positive ((value :: rest).drop width)
termination_by values => values.length
decreasing_by simp; omega

@[simp] theorem flatten_splitRows {α : Type} {width : Nat} (positive : 0 < width)
    (values : List α) : (splitRows width positive values).flatten = values := by
  fun_induction splitRows width positive values with
  | case1 => rfl
  | case2 value rest ih => rw [List.flatten_cons, ih, List.take_append_drop]

structure Column where
  field : Field
  rows : Array (List Binary32)

namespace Column

def ofField (slots : Nat) (field : Field) : Column :=
  ⟨field, Array.replicate slots (List.replicate field.dim 0)⟩

def write (column : Column) (slot : Nat) (row : List Binary32) : Except Abort Column :=
  if row.length ≠ column.field.dim then .error (.faulted .rowWidth)
  else if h : slot < column.rows.size then
    .ok { column with rows := column.rows.set slot row }
  else .error (.faulted .rowOutOfRange)

/-- Writes rows into consecutive slots; after the last slot comes the first. -/
def writeRows (slots : Nat) : Nat → List (List Binary32) → Column → Except Abort Column
  | _, [], column => .ok column
  | slot, row :: rest, column => do
    let column ← column.write slot row
    column.writeRows slots (if slot + 1 = slots then 0 else slot + 1) rest

def append (column : Column) (slots cursor : Nat) (values : List Binary32) :
    Except Abort Column :=
  if positive : 0 < column.field.dim then
    column.writeRows slots cursor (splitRows column.field.dim positive values)
  else .error (.faulted .zeroDivisor)

def row (column : Column) (slot : Nat) : Except Abort (List Binary32) :=
  match column.rows[slot]? with
  | some row => .ok row
  | none => .error (.faulted .rowOutOfRange)

def gather (column : Column) (slots : List Nat) : Except Abort (List Binary32) := do
  return (← slots.mapM column.row).flatten

end Column

/-- Slot `i` of every column belongs to the same record. -/
structure RecordRing where
  capacity : Nat
  cursor : Nat
  size : Nat
  columns : List Column
  nextStates : Bool

namespace RecordRing

def build (capacity : Nat) (schema : List Field) (nextStates : Bool) : Except Error RecordRing :=
  match Schema.check capacity schema nextStates with
  | .error defect => .error (.invalidConfiguration defect)
  | .ok () => .ok ⟨capacity, 0, 0, schema.map (Column.ofField capacity), nextStates⟩

def schema (ring : RecordRing) : List Field := ring.columns.map Column.field

def isEmpty (ring : RecordRing) : Bool := ring.size == 0

def batchLength (ring : RecordRing) (records : Records) : Except Abort Nat :=
  Schema.batchLength ring.schema records

def appendColumn (ring : RecordRing) (records : Records) (column : Column) :
    Except Abort Column :=
  match records.get? column.field.name with
  | some values => column.append ring.capacity ring.cursor values
  | none => .ok column

/-- Writes a batch at the cursor, and answers the slots written, in order. Of a batch longer than
the ring the last records remain. -/
def insert (ring : RecordRing) (records : Records) : Except Abort (List Nat × RecordRing) := do
  let count ← ring.batchLength records
  let columns ← ring.columns.mapM (ring.appendColumn records)
  let slots ← (List.range count).mapM fun j => Abort.remainder (ring.cursor + j) ring.capacity
  let cursor ← Abort.remainder (ring.cursor + count) ring.capacity
  return (slots, { ring with columns, cursor, size := min (ring.size + count) ring.capacity })

/-- Adds what one column holds in the given slots and, for a state, in the slots after them. -/
def readColumn (ring : RecordRing) (slots : List Nat) (records : Records) (column : Column) :
    Except Abort Records := do
  let records := records.insert column.field.name (← column.gather slots)
  if ring.nextStates ∧ column.field.isState then
    let following ← slots.mapM fun slot => Abort.remainder (slot + 1) ring.capacity
    return records.insert (Field.nextStateName column.field.name) (← column.gather following)
  else return records

/-- The records in the given slots, in that order. The slot after the newest record holds an older
one, so the next state of the newest record is not its own. -/
def read (ring : RecordRing) (slots : List Nat) : Except Abort Records :=
  match slots.find? (ring.capacity ≤ ·) with
  | some slot => .error (.refused (.indexOutOfRange slot ring.capacity))
  | none => ring.columns.foldlM (ring.readColumn slots) Records.empty

end RecordRing

end ExperienceReplay
