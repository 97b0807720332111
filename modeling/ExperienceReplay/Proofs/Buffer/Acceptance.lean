import ExperienceReplay.Proofs.Buffer.Formed
import ExperienceReplay.Proofs.Config.Acceptance
import ExperienceReplay.Proofs.RecordRing.Widening

/-!
What a configuration has to be for a buffer, and what it gains: whatever is read of the buffer after
any calls, each field has a name of its own.
-/

namespace ExperienceReplay.Buffer

variable {buffer : Buffer} {layout : RecordRing.Layout}

theorem nextStates_of_build {config : Config} (built : build config = .ok buffer) :
    buffer.ring.nextStates = config.nextStates := by
  obtain ⟨ring, made, rfl⟩ := exists_ring_of_build built
  obtain ⟨_, _, _, same, holds⟩ := RecordRing.exists_layout_of_build made
  exact holds.nextStates_eq.trans same

/-- A buffer is built from a sound configuration and from no other. Whatever is asked of it, reading
slots of it gives as many rows under the name of each field and, with next states, under one more
name for each state; all these names are different, and under each stands what was read for it. -/
theorem builds_iff_sound_and_reads_apart [Power] (config : Config) :
    ((∃ start, build config = .ok start) ↔ config.Sound) ∧
    ∀ start, build config = .ok start → ∃ following,
      Schema.Following config.nextStates config.fields following ∧
      ((config.fields ++ following).map Field.name).Nodup ∧
      ∀ requests,
        let ring := (start.after requests).ring
        ring.schema = config.fields ∧ ring.nextStates = config.nextStates ∧
        ∀ slots, (∀ slot ∈ slots, slot < config.capacity) → ∃ records,
          ring.read slots = .ok records ∧
          Schema.Matches (config.fields ++ following) records slots.length ∧
          ring.Shows slots records := by
  refine ⟨exists_build_eq_ok_iff, fun start built => ?_⟩
  obtain ⟨layout, capacity, schema, formed⟩ := exists_formed_of_build built
  obtain ⟨_, empty⟩ := formed.ring
  have nextStates := empty.nextStates_eq.symm.trans (nextStates_of_build built)
  rw [← capacity, ← schema, ← nextStates]
  obtain ⟨following, widens⟩ := Schema.exists_following layout.nextStates layout.schema
  refine ⟨following, widens, layout.distinct_widened widens, fun requests => ?_⟩
  obtain ⟨history, holds⟩ := (formed.after requests).ring
  exact ⟨holds.schema_eq, holds.nextStates_eq, fun slots below => holds.exists_read widens below⟩

/-- A state may have an empty leaf, and one may be named like the next states. Three slots, one of
them asked for twice, are read under seven names. -/
theorem builds_iff_sound_and_reads_apart_nested :
    letI := Power.linear
    let config := { Config.linear 3 with
      fields := [⟨"states", 2⟩, .scalar "states/", .scalar "states/next_states",
        .scalar "terminals"] }
    let filling := Request.insert (.ofList [("states", [0, 1, 1, 0]), ("states/", [0, 1]),
      ("states/next_states", [1, 0]), ("terminals", [0, 1])])
    config.Sound ∧ ∃ start, build config = .ok start ∧ ∃ records,
      (start.after [filling]).ring.read [2, 0, 2] = .ok records ∧
      (∀ name, name ∈ records.names ↔ name ∈ ["states", "states/", "states/next_states",
        "terminals", "next_states", "next_states/", "next_states/next_states"]) ∧
      ∃ values, records.get? "next_states" = some values ∧ values.length = 6 := by
  let _ := Power.linear
  intro config filling
  have built : build config = .ok _ := rfl
  obtain ⟨accepted, reads⟩ := builds_iff_sound_and_reads_apart config
  obtain ⟨following, widens, _, apart⟩ := reads _ built
  obtain ⟨_, _, shown⟩ := apart [filling]
  obtain ⟨records, read, matching, _⟩ := shown [2, 0, 2] (by decide)
  have flag : ¬Field.Under "states" "terminals" := by
    rw [← Field.isStateName_iff_under]
    decide
  obtain rfl : following = [⟨"next_states", 2⟩, .scalar "next_states/",
      .scalar "next_states/next_states"] :=
    widens.unique (.state rfl .root (.state rfl (.leaf "") (.state rfl (.leaf "next_states")
      (.other (fun unread => flag unread.2) .nil))))
  exact ⟨accepted.1 ⟨_, built⟩, _, built, records, read, matching.names,
    matching.rows ⟨"next_states", 2⟩ (by decide)⟩

theorem Formed.matches_of_batch [Power] (formed : buffer.Formed layout) {following : List Field}
    (widens : Schema.Following layout.nextStates layout.schema following) {request : Request}
    {batch : SampledBatch} (answered : (buffer.ask request).1 = .ok (.silent (.batch batch))) :
    Schema.Matches (layout.schema ++ following) batch.records batch.size ∧
      buffer.ring.Shows batch.indices batch.records := by
  obtain ⟨history, holds⟩ := formed.ring
  obtain ⟨draws, sampled⟩ := exists_draws_of_batch answered
  obtain ⟨_, _, _, _, _, shown⟩ := sampleWith_eq_ok_iff.1 sampled
  obtain ⟨records, read, apart⟩ := holds.exists_read widens (holds.lt_of_read shown)
  obtain rfl : records = batch.records := Except.ok.inj (read.symm.trans shown)
  exact apart

end ExperienceReplay.Buffer
