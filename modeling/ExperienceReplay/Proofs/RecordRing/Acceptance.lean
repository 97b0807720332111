import ExperienceReplay.Proofs.RecordRing.Reading
import Mathlib.Data.List.Perm.Subperm

/-!
Which batches a ring accepts. The code counts the fields of a batch and looks for those of the
schema. No name stands twice in a checked schema, nor in a batch, so this compares the names.
-/

namespace ExperienceReplay

namespace Records

theorem nodup_names (records : Records) : records.names.Nodup := by
  unfold names
  exact List.pairwise_map.2 (records.inOrder.imp String.ne_of_lt)

theorem isSome_get?_iff {records : Records} {name : String} :
    (records.get? name).isSome ↔ name ∈ records.names := by
  unfold get? names
  simp [List.lookup_isSome_iff]

theorem mem_names_of_get? {records : Records} {name : String} {values : List Binary32}
    (found : records.get? name = some values) : name ∈ records.names := by
  rw [← isSome_get?_iff, found, Option.isSome_some]

end Records

namespace Schema

/-- A batch with the names of the schema and no others, and under each of them as many values as
that many records have. -/
structure Matches (schema : List Field) (records : Records) (count : Nat) : Prop where
  names : ∀ name, name ∈ records.names ↔ name ∈ schema.map Field.name
  rows : ∀ field ∈ schema, ∃ values, records.get? field.name = some values ∧
    values.length = count * field.dim

variable {schema : List Field} {records : Records} {count : Nat}

theorem Fits.perm_names (distinct : (schema.map Field.name).Nodup)
    (fits : Fits schema records count) : (schema.map Field.name).Perm records.names := by
  have present : schema.map Field.name ⊆ records.names := by
    intro name named
    obtain ⟨field, mem, rfl⟩ := List.mem_map.1 named
    obtain ⟨values, found, _⟩ := fits.rows field mem
    exact Records.mem_names_of_get? found
  apply (List.subperm_of_subset distinct present).perm_of_length_le
  simpa [Records.names, Records.size] using fits.size.le

theorem fits_iff_matches (distinct : (schema.map Field.name).Nodup) :
    Fits schema records count ↔ Matches schema records count := by
  constructor
  · intro fits
    exact ⟨fun _ => (fits.perm_names distinct).mem_iff.symm, fits.rows⟩
  · intro matching
    have same : records.names.Perm (schema.map Field.name) :=
      (List.perm_ext_iff_of_nodup records.nodup_names distinct).2 matching.names
    refine ⟨?_, matching.rows⟩
    simpa [Records.names, Records.size] using same.length_eq

theorem batchLength_eq_ok_iff_matches {nextStates : Bool} (sound : Sound schema nextStates) :
    batchLength schema records = .ok count ↔ Matches schema records count := by
  rw [batchLength_eq_ok_iff sound.nonempty sound.dim_pos, fits_iff_matches sound.distinct]

theorem exists_batchLength_eq_error {nextStates : Bool} (sound : Sound schema nextStates)
    (misfit : ∀ count, ¬Matches schema records count) :
    ∃ cause, batchLength schema records = .error (.refused (.schemaMismatch cause)) := by
  cases counted : batchLength schema records with
  | ok count => exact absurd ((batchLength_eq_ok_iff_matches sound).1 counted) (misfit count)
  | error abort =>
    obtain ⟨cause, rfl⟩ := batchLength_eq_error sound.dim_pos counted
    exact ⟨cause, rfl⟩

end Schema

namespace RecordRing

variable {ring : RecordRing} {layout : Layout} {history : History} {records : Records}

theorem insert_of_batchLength_eq_error {abort : Abort}
    (counted : ring.batchLength records = .error abort) : ring.insert records = .error abort := by
  unfold insert
  rw [counted]
  rfl

/-- Nothing fails after the length of a batch is known, so writing never stops half way. -/
theorem Holds.insert_eq_ok_iff (holds : ring.Holds layout history) {count : Nat} :
    (∃ slots next, ring.insert records = .ok (slots, next) ∧ slots.length = count) ↔
      ring.batchLength records = .ok count := by
  have counts (count : Nat) : ring.batchLength records = .ok count ↔
      Schema.Fits layout.schema records count := by
    rw [holds.batchLength_eq]
    exact Schema.batchLength_eq_ok_iff layout.sound.nonempty layout.sound.dim_pos
  cases counted : ring.batchLength records with
  | ok length =>
    obtain ⟨next, inserted, _⟩ := holds.insert_of_fits ((counts length).1 counted)
    simp [inserted]
  | error abort => simp [insert_of_batchLength_eq_error counted]

/-- A ring tells the length of the batches that have exactly the names of its schema and, under each
name, the same number of rows. It takes these and no others; the rest is refused as a mismatch, and
the ring stays as it was. -/
theorem accepts_iff_matches {capacity : Nat} {schema : List Field} {nextStates : Bool}
    {empty : RecordRing} (built : build capacity schema nextStates = .ok empty)
    (batches : List Records) (records : Records) :
    let ring := empty.insertAll batches
    (∀ count, ring.batchLength records = .ok count ↔ Schema.Matches schema records count) ∧
    (∀ count, (∃ slots next, ring.insert records = .ok (slots, next) ∧ slots.length = count) ↔
      Schema.Matches schema records count) ∧
    ((∀ count, ¬Schema.Matches schema records count) → ∃ cause,
      ring.batchLength records = .error (.refused (.schemaMismatch cause)) ∧
      (Action.update fun ring : RecordRing => ring.insert records).perform ring =
        (.error (.refused (.schemaMismatch cause)), ring)) := by
  obtain ⟨layout, rfl, rfl, rfl, holds⟩ := exists_layout_of_build built
  have holds := holds.insertAll batches
  intro ring
  have counts (count : Nat) : ring.batchLength records = .ok count ↔
      Schema.Matches layout.schema records count := by
    rw [holds.batchLength_eq]
    exact Schema.batchLength_eq_ok_iff_matches layout.sound
  refine ⟨counts, fun count => ?_, fun misfit => ?_⟩
  · rw [holds.insert_eq_ok_iff, counts]
  · obtain ⟨cause, refused⟩ := Schema.exists_batchLength_eq_error layout.sound misfit
    rw [← holds.batchLength_eq] at refused
    refine ⟨cause, refused, ?_⟩
    rw [Action.perform_update, insert_of_batchLength_eq_error refused]

/-- With two numbers to a state, four states and two flags are two records. Under a name that the
schema does not have, the flags are refused. -/
theorem accepts_iff_matches_wide :
    ∃ empty, build 3 [⟨Field.states, 2⟩, .scalar Field.terminals] true = .ok empty ∧
      (∃ slots next, empty.insert (.ofList [("states", [0, 1, 1, 0]), ("terminals", [0, 1])]) =
        .ok (slots, next) ∧ slots.length = 2) ∧
      ∃ cause, (Action.update fun ring : RecordRing =>
          ring.insert (.ofList [("states", [0, 1, 1, 0]), ("flags", [0, 1])])).perform empty =
        (.error (.refused (.schemaMismatch cause)), empty) := by
  have built : build 3 [⟨Field.states, 2⟩, .scalar Field.terminals] true = .ok _ := rfl
  obtain ⟨_, accepted, _⟩ := accepts_iff_matches built []
    (.ofList [("states", [0, 1, 1, 0]), ("terminals", [0, 1])])
  obtain ⟨_, _, refused⟩ := accepts_iff_matches built []
    (.ofList [("states", [0, 1, 1, 0]), ("flags", [0, 1])])
  refine ⟨_, built, (accepted 2).2 ⟨fun name => ?_, ?_⟩, ?_⟩
  · have : (Records.ofList [("states", [0, 1, 1, 0]), ("terminals", [0, 1])]).names =
        ["states", "terminals"] := by decide +kernel
    rw [this]
    rfl
  · simp only [List.forall_mem_cons]
    exact ⟨⟨[0, 1, 1, 0], by decide +kernel, rfl⟩, ⟨[0, 1], by decide +kernel, rfl⟩, by simp⟩
  · obtain ⟨cause, _, unchanged⟩ := refused fun count matching => by
      have : "flags" ∈ [Field.states, Field.terminals] :=
        (matching.names "flags").1 (by decide +kernel)
      exact absurd this (by decide)
    exact ⟨cause, unchanged⟩

end RecordRing

end ExperienceReplay
