import ExperienceReplay.Proofs.Records
import ExperienceReplay.Proofs.RecordRing.Reading

/-!
Columns as they lie in memory, the values of one row after those of another. Slices are cut with
their bounds checked here, and a row is copied only over a slice of its own length. Main statements:
whatever a column answers, no slice leaves its values and no copy is of another length.
-/

namespace ExperienceReplay

namespace FlatRows

variable {α : Type}

def slice? (values : List α) (start stop : Nat) : Option (List α) :=
  if start ≤ stop ∧ stop ≤ values.length then some ((values.drop start).take (stop - start))
  else none

def copy? (values : List α) (start stop : Nat) (row : List α) : Option (List α) :=
  if start ≤ stop ∧ stop ≤ values.length ∧ row.length = stop - start then
    some (values.take start ++ row ++ values.drop stop)
  else none

def push? (slots dim : Nat) : Nat → List (List α) → List α → Option (List α)
  | _, [], values => some values
  | slot, row :: rest, values => do
    let values ← copy? values (slot * dim) ((slot + 1) * dim) row
    push? slots dim (if slot + 1 = slots then 0 else slot + 1) rest values

def gather? (dim : Nat) (values : List α) : List Nat → Option (List α)
  | [] => some []
  | slot :: rest => do
    let row ← slice? values (slot * dim) ((slot + 1) * dim)
    let others ← gather? dim values rest
    return row ++ others

theorem flatten_take_drop {rows : List (List α)} {dim slot : Nat}
    (widths : ∀ row ∈ rows, row.length = dim) (inside : slot ≤ rows.length) :
    (rows.take slot).flatten = rows.flatten.take (slot * dim) ∧
      (rows.drop slot).flatten = rows.flatten.drop (slot * dim) := by
  have total : (rows.take slot).flatten.length = slot * dim := by
    rw [Records.length_flatten_of_widths fun row mem => widths row (List.mem_of_mem_take mem),
      List.length_take_of_le inside]
  have parts : rows.flatten = (rows.take slot).flatten ++ (rows.drop slot).flatten := by
    rw [← List.flatten_append, List.take_append_drop]
  rw [parts, ← total]
  exact ⟨List.take_left.symm, List.drop_left.symm⟩

theorem slice?_flatten {rows : List (List α)} {dim slot : Nat}
    (widths : ∀ row ∈ rows, row.length = dim) {row : List α} (here : rows[slot]? = some row) :
    slice? rows.flatten (slot * dim) ((slot + 1) * dim) = some row := by
  have inside : slot < rows.length := (List.getElem?_eq_some_iff.1 here).1
  rw [slice?, if_pos, Nat.succ_mul, Nat.add_sub_cancel_left,
    Records.take_drop_flatten widths here]
  rw [Records.length_flatten_of_widths widths]
  exact ⟨Nat.mul_le_mul_right dim (Nat.le_succ slot), Nat.mul_le_mul_right dim inside⟩

theorem copy?_flatten {rows : List (List α)} {dim slot : Nat}
    (widths : ∀ row ∈ rows, row.length = dim) {row : List α} (width : row.length = dim)
    (inside : slot < rows.length) :
    copy? rows.flatten (slot * dim) ((slot + 1) * dim) row = some (rows.set slot row).flatten := by
  rw [copy?, if_pos, List.set_eq_take_append_cons_drop, if_pos inside, List.flatten_append,
    List.flatten_cons, (flatten_take_drop widths (Nat.le_of_lt inside)).1,
    (flatten_take_drop widths inside).2, List.append_assoc]
  rw [Records.length_flatten_of_widths widths, width, Nat.succ_mul, Nat.add_sub_cancel_left]
  exact ⟨Nat.le_add_right _ dim, Nat.succ_mul slot dim ▸ Nat.mul_le_mul_right dim inside, rfl⟩

end FlatRows

namespace Column

open FlatRows

def flat (column : Column) : List Binary32 := column.rows.toList.flatten

def Even (column : Column) : Prop := ∀ row ∈ column.rows.toList, row.length = column.field.dim

variable {column next : Column}

theorem Even.length_flat (even : column.Even) :
    column.flat.length = column.rows.size * column.field.dim := by
  rw [flat, Records.length_flatten_of_widths even, Array.length_toList]

theorem Even.write (even : column.Even) {slot : Nat} {row : List Binary32}
    (written : column.write slot row = .ok next) :
    copy? column.flat (slot * column.field.dim) ((slot + 1) * column.field.dim) row =
      some next.flat ∧ next.field = column.field ∧ next.Even := by
  unfold Column.write at written
  split at written
  · cases written
  next width =>
  split at written
  next inside =>
    obtain rfl := Except.ok.inj written
    have width := Decidable.not_not.1 width
    refine ⟨?_, rfl, fun other mem => ?_⟩
    · rw [flat, flat, copy?_flatten even width (by rwa [Array.length_toList]), Array.toList_set]
    · rw [Array.toList_set] at mem
      rcases List.mem_or_eq_of_mem_set mem with old | rfl
      · exact even other old
      · exact width
  · cases written

theorem Even.writeRows (even : column.Even) {slots slot : Nat} {rows : List (List Binary32)}
    (written : column.writeRows slots slot rows = .ok next) :
    push? slots column.field.dim slot rows column.flat = some next.flat := by
  induction rows generalizing column slot with
  | nil =>
    obtain rfl := Except.ok.inj written
    rfl
  | cons row rest ih =>
    rw [Column.writeRows] at written
    obtain ⟨middle, here, written⟩ := bind_eq_ok_iff.1 written
    obtain ⟨copied, field, even⟩ := even.write here
    rw [push?, copied, ← field]
    exact ih even written

theorem Even.append (even : column.Even) (positive : 0 < column.field.dim) {slots cursor : Nat}
    {values : List Binary32} (appended : column.append slots cursor values = .ok next) :
    push? slots column.field.dim cursor (splitRows column.field.dim positive values) column.flat =
      some next.flat := by
  unfold Column.append at appended
  rw [dif_pos positive] at appended
  exact even.writeRows appended

theorem Even.gather (even : column.Even) {slots : List Nat} {values : List Binary32}
    (gathered : column.gather slots = .ok values) :
    gather? column.field.dim column.flat slots = some values := by
  unfold Column.gather at gathered
  obtain ⟨rows, read, answer⟩ := bind_eq_ok_iff.1 gathered
  obtain rfl := Except.ok.inj answer
  clear gathered answer
  induction slots generalizing rows with
  | nil =>
    obtain rfl := Except.ok.inj read
    rfl
  | cons slot rest ih =>
    rw [List.mapM_cons] at read
    obtain ⟨row, here, read⟩ := bind_eq_ok_iff.1 read
    obtain ⟨others, there, read⟩ := bind_eq_ok_iff.1 read
    obtain rfl := Except.ok.inj read
    have found : column.rows.toList[slot]? = some row := by
      unfold Column.row at here
      split at here
      next found => rw [Array.getElem?_toList, found, Except.ok.inj here]
      next => cases here
    rw [gather?, flat, slice?_flatten even found, ← flat, ih _ there]
    rfl

end Column

theorem RecordRing.Holds.even {ring : RecordRing} {layout : RecordRing.Layout} {history : History}
    (holds : ring.Holds layout history) {column : Column} (mem : column ∈ ring.columns) :
    column.Even := by
  intro row hrow
  obtain ⟨slot, here⟩ := List.getElem?_of_mem hrow
  obtain ⟨size, rows⟩ := holds.columns column mem
  have inside : slot < column.rows.toList.length := (List.getElem?_eq_some_iff.1 here).1
  rw [Array.length_toList, size] at inside
  rw [Array.getElem?_toList, rows slot inside] at here
  rw [← Option.some.inj here, holds.length_row (holds.field_mem mem)]

end ExperienceReplay
