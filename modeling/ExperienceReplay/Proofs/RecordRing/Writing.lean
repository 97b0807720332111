import ExperienceReplay.Proofs.Calls
import ExperienceReplay.Proofs.RecordRing.History
import ExperienceReplay.Proofs.RecordRing.Schema

/-!
Writing to a ring. A batch that fits the schema extends the history that the ring shows; any other
batch is refused.
-/

namespace ExperienceReplay

structure Column.Holds (column : Column) (capacity : Nat) (history : History) : Prop where
  size : column.rows.size = capacity
  rows : ∀ slot < capacity, column.rows[slot]? = some (history.row capacity column.field slot)

namespace Column

theorem holds_ofField (capacity : Nat) (field : Field) :
    (Column.ofField capacity field).Holds capacity [] where
  size := Array.size_replicate
  rows slot below := by simp [ofField, History.row, below]

theorem Holds.write {column : Column} {capacity : Nat} {history : History} {record : Record}
    (holds : column.Holds capacity history) (positive : 0 < capacity)
    (width : (record column.field).length = column.field.dim) :
    ∃ next, column.write (history.length % capacity) (record column.field) = .ok next ∧
      next.field = column.field ∧ next.Holds capacity (history ++ [record]) := by
  have below : history.length % capacity < column.rows.size := by
    rw [holds.size]
    exact Nat.mod_lt _ positive
  unfold Column.write
  rw [if_neg (not_not_intro width), dif_pos below]
  refine ⟨_, rfl, rfl, ⟨by simpa using holds.size, fun slot hslot => ?_⟩⟩
  rw [History.row_concat]
  simp only [Array.getElem?_set]
  split
  · rfl
  · exact holds.rows slot hslot

theorem next_slot {capacity n : Nat} (positive : 0 < capacity) :
    (if n % capacity + 1 = capacity then 0 else n % capacity + 1) = (n + 1) % capacity := by
  have below := Nat.mod_lt n positive
  have whole : n + 1 = capacity * (n / capacity) + (n % capacity + 1) := by
    have := Nat.div_add_mod n capacity
    omega
  rw [whole, Nat.mul_add_mod]
  split
  next last => rw [last, Nat.mod_self]
  next inside => exact (Nat.mod_eq_of_lt (by omega)).symm

theorem Holds.writeRows {column : Column} {capacity : Nat} {history : History}
    (holds : column.Holds capacity history) (positive : 0 < capacity) {records : List Record}
    (widths : ∀ record ∈ records, (record column.field).length = column.field.dim) :
    ∃ next, column.writeRows capacity (history.length % capacity)
        (records.map (· column.field)) = .ok next ∧
      next.field = column.field ∧ next.Holds capacity (history ++ records) := by
  induction records generalizing column history with
  | nil => exact ⟨column, rfl, rfl, by rwa [List.append_nil]⟩
  | cons record rest ih =>
    obtain ⟨width, widths⟩ := List.forall_mem_cons.1 widths
    obtain ⟨middle, written, same, holds⟩ := holds.write positive width
    rw [← same] at widths
    obtain ⟨next, rest_written, same', holds⟩ := ih holds widths
    refine ⟨next, ?_, same'.trans same, by rwa [List.append_cons]⟩
    rw [List.map_cons, Column.writeRows, written, next_slot positive]
    rw [List.length_append, List.length_singleton, same] at rest_written
    exact rest_written

end Column

theorem splitRows_eq_map {values : List Binary32} {dim count : Nat} (positive : 0 < dim)
    (h : values.length = count * dim) :
    splitRows dim positive values =
      (List.range count).map fun i => (values.drop (i * dim)).take dim := by
  induction count generalizing values with
  | zero =>
    obtain rfl : values = [] := List.eq_nil_of_length_eq_zero (by omega)
    rw [splitRows]
    rfl
  | succ count ih =>
    rw [Nat.succ_mul] at h
    cases values with
    | nil => simp at h; omega
    | cons value rest =>
      rw [splitRows, ih (by rw [List.length_drop]; omega), List.range_succ_eq_map, List.map_cons,
        List.map_map, Nat.zero_mul, List.drop_zero]
      congr 1
      apply List.map_congr_left
      intro i _
      rw [List.drop_drop, Function.comp_apply, Nat.succ_mul, Nat.add_comm]

structure RecordRing.Layout where
  capacity : Nat
  schema : List Field
  nextStates : Bool
  capacity_pos : 0 < capacity
  sound : Schema.Sound schema nextStates

/-- A ring of a layout that shows the records of a history. -/
structure RecordRing.Holds (ring : RecordRing) (layout : RecordRing.Layout) (history : History) :
    Prop where
  capacity_eq : ring.capacity = layout.capacity
  schema_eq : ring.schema = layout.schema
  nextStates_eq : ring.nextStates = layout.nextStates
  cursor_eq : ring.cursor = history.length % layout.capacity
  size_eq : ring.size = min history.length layout.capacity
  columns : ∀ column ∈ ring.columns, column.Holds layout.capacity history
  widths : ∀ record ∈ history, ∀ field ∈ layout.schema, (record field).length = field.dim

namespace RecordRing

variable {ring : RecordRing} {layout : Layout} {history : History}

theorem exists_layout_of_build {capacity : Nat} {schema : List Field} {nextStates : Bool}
    (built : build capacity schema nextStates = .ok ring) :
    ∃ layout : Layout, layout.capacity = capacity ∧ layout.schema = schema ∧
      layout.nextStates = nextStates ∧ ring.Holds layout [] := by
  unfold build at built
  split at built
  next => cases built
  next checked =>
    obtain ⟨positive, sound⟩ := Schema.check_eq_ok_iff.1 checked
    obtain rfl := Except.ok.inj built
    refine ⟨⟨capacity, schema, nextStates, positive, sound⟩, rfl, rfl, rfl, ?_⟩
    exact {
      capacity_eq := rfl
      schema_eq := by simp [RecordRing.schema, Column.ofField, Function.comp_def]
      nextStates_eq := rfl
      cursor_eq := (Nat.zero_mod capacity).symm
      size_eq := (Nat.zero_min capacity).symm
      columns := by
        intro column mem
        obtain ⟨field, _, rfl⟩ := List.mem_map.1 mem
        exact Column.holds_ofField capacity field
      widths := by simp }

theorem Holds.field_mem (holds : ring.Holds layout history) {column : Column}
    (mem : column ∈ ring.columns) : column.field ∈ layout.schema := by
  rw [← holds.schema_eq]
  exact List.mem_map_of_mem mem

theorem Holds.widths_append (holds : ring.Holds layout history) {batch : Records} {count : Nat}
    (fits : Schema.Fits layout.schema batch count) :
    ∀ record ∈ history ++ batch.toHistory count, ∀ field ∈ layout.schema,
      (record field).length = field.dim := by
  intro record mem field hfield
  rcases List.mem_append.1 mem with old | new
  · exact holds.widths record old field hfield
  · obtain ⟨i, hi, rfl⟩ := List.mem_map.1 new
    obtain ⟨values, found, total⟩ := fits.rows field hfield
    have inside : (i + 1) * field.dim ≤ values.length := by
      rw [total]
      exact Nat.mul_le_mul_right _ (List.mem_range.1 hi)
    rw [Records.recordAt_eq found total (List.mem_range.1 hi), List.length_take, List.length_drop]
    rw [Nat.succ_mul] at inside
    omega

theorem Holds.append_column (holds : ring.Holds layout history) {batch : Records} {count : Nat}
    (fits : Schema.Fits layout.schema batch count) {column : Column}
    (mem : column ∈ ring.columns) :
    ∃ next, ring.appendColumn batch column = .ok next ∧ next.field = column.field ∧
      next.Holds layout.capacity (history ++ batch.toHistory count) := by
  have field_mem := holds.field_mem mem
  have positive := layout.sound.dim_pos _ field_mem
  obtain ⟨values, found, total⟩ := fits.rows _ field_mem
  have rows : splitRows column.field.dim positive values =
      (batch.toHistory count).map (· column.field) := by
    rw [splitRows_eq_map positive total, Records.toHistory, List.map_map]
    apply List.map_congr_left
    intro i hi
    exact (Records.recordAt_eq found total (List.mem_range.1 hi)).symm
  have widths : ∀ record ∈ batch.toHistory count, (record column.field).length = column.field.dim :=
    fun record new =>
      holds.widths_append fits record (List.mem_append_right history new) _ field_mem
  obtain ⟨next, written, same, shows⟩ :=
    (holds.columns column mem).writeRows layout.capacity_pos widths
  refine ⟨next, ?_, same, shows⟩
  unfold appendColumn Column.append
  simp only [found]
  rw [dif_pos positive, rows, holds.capacity_eq, holds.cursor_eq]
  exact written

theorem Holds.batchLength_eq (holds : ring.Holds layout history) (batch : Records) :
    ring.batchLength batch = Schema.batchLength layout.schema batch := by
  rw [batchLength, holds.schema_eq]

theorem Holds.remainder_cursor (holds : ring.Holds layout history) (j : Nat) :
    Abort.remainder (ring.cursor + j) ring.capacity =
      .ok ((history.length + j) % layout.capacity) := by
  rw [holds.capacity_eq, Abort.remainder_of_pos layout.capacity_pos, holds.cursor_eq,
    Nat.mod_add_mod]

theorem Holds.insert_of_fits (holds : ring.Holds layout history) {batch : Records} {count : Nat}
    (fits : Schema.Fits layout.schema batch count) :
    ∃ next, ring.insert batch =
        .ok ((List.range count).map fun j => (history.length + j) % layout.capacity, next) ∧
      next.Holds layout (history ++ batch.toHistory count) := by
  have counted : ring.batchLength batch = .ok count := by
    rw [holds.batchLength_eq]
    exact (Schema.batchLength_eq_ok_iff layout.sound.nonempty layout.sound.dim_pos).2 fits
  obtain ⟨columns, written, all⟩ := exists_mapM_eq_ok fun column => holds.append_column fits
  have slots : (List.range count).mapM (fun j => Abort.remainder (ring.cursor + j) ring.capacity) =
      .ok ((List.range count).map fun j => (history.length + j) % layout.capacity) :=
    mapM_eq_ok fun j _ => holds.remainder_cursor j
  have cursor := holds.remainder_cursor count
  refine ⟨{ ring with
    columns
    cursor := (history.length + count) % layout.capacity
    size := min (ring.size + count) ring.capacity }, ?_, ?_⟩
  · unfold RecordRing.insert
    rw [counted]
    simp only [written, slots, cursor, bind, Except.bind]
    rfl
  · exact {
      capacity_eq := holds.capacity_eq
      schema_eq := by
        rw [← holds.schema_eq]
        exact (map_eq_map_of_forall₂ (all.imp fun _ _ next => next.1.symm)).symm
      nextStates_eq := holds.nextStates_eq
      cursor_eq := by simp
      size_eq := by
        simp only [holds.size_eq, holds.capacity_eq, List.length_append, Records.length_toHistory]
        omega
      columns := forall_mem_of_forall₂ (all.imp fun _ _ next => next.2)
      widths := holds.widths_append fits }

theorem Holds.insert_of_not_fits (holds : ring.Holds layout history) {batch : Records}
    (misfit : ∀ count, ¬Schema.Fits layout.schema batch count) :
    ∃ cause, ring.insert batch = .error (.refused (.schemaMismatch cause)) := by
  unfold RecordRing.insert
  rw [holds.batchLength_eq]
  cases counted : Schema.batchLength layout.schema batch with
  | ok count =>
    rw [Schema.batchLength_eq_ok_iff layout.sound.nonempty layout.sound.dim_pos] at counted
    exact absurd counted (misfit count)
  | error abort =>
    obtain ⟨cause, rfl⟩ := Schema.batchLength_eq_error layout.sound.dim_pos counted
    exact ⟨cause, rfl⟩

end RecordRing

end ExperienceReplay
