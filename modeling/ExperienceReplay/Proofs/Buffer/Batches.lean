import ExperienceReplay.Proofs.Buffer.Formed
import ExperienceReplay.Proofs.RecordRing.Batches

/-!
Inserting in batches of any size. Main statement: it makes no difference to a buffer how records are
grouped into batches, and of a batch that is longer than the ring only the last records make one.
-/

namespace ExperienceReplay.Buffer

open RecordRing (slotsFrom slotsFrom_add mem_slotsFrom_iff)

variable [Power] {buffer : Buffer} {layout : RecordRing.Layout}

def movedTo (buffer : Buffer) (cursor : Nat) : Buffer :=
  { buffer with ring := { buffer.ring with cursor } }

theorem filled_filled (buffer : Buffer) (slots others : List Nat) (middle ring : RecordRing) :
    (buffer.filled slots middle).filled others ring = buffer.filled (slots ++ others) ring := by
  simp only [filled, weighing, seedWeight, SegmentTree.writeAll, List.map_append, List.foldl_append]

theorem Formed.filled_congr (formed : buffer.Formed layout) {slots others : List Nat}
    (below : ∀ slot, slot ∈ slots ↔ slot < layout.capacity)
    (below' : ∀ slot, slot ∈ others ↔ slot < layout.capacity) (ring : RecordRing) :
    buffer.filled slots ring = buffer.filled others ring := by
  have inside {slots : List Nat} (below : ∀ slot, slot ∈ slots ↔ slot < layout.capacity) :
      ∀ entry ∈ slots.map (·, buffer.seedWeight),
        entry.1 < buffer.sums.size ∧ entry.1 < buffer.mins.size := by
    intro entry mem
    obtain ⟨slot, there, rfl⟩ := List.mem_map.1 mem
    exact formed.inside ((below slot).1 there)
  have same : ∀ i, lastFor? (slots.map (·, buffer.seedWeight)) i =
      lastFor? (others.map (·, buffer.seedWeight)) i := by
    intro i
    simp only [lastFor?_const, below, below']
  exact congrArg (fun weighed : Buffer => { weighed with ring })
    (formed.weighing_congr (inside below) (inside below') same)

theorem ask_insert_of_inserted {batch : Records} {next : Buffer}
    (performed : (insert batch).perform buffer = (.ok (), next)) :
    buffer.ask (.insert batch) = (.ok (.silent .done), next) := by
  rw [ask_insert, performed]
  rfl

theorem Formed.ask_insert_append (formed : buffer.Formed layout) {a b : Records} {m n : Nat}
    (fitsA : Schema.Fits layout.schema a m) (fitsB : Schema.Fits layout.schema b n) :
    ∃ middle next, buffer.ask (.insert a) = (.ok (.silent .done), middle) ∧
      middle.ask (.insert b) = (.ok (.silent .done), next) ∧
      buffer.ask (.insert (a ++ b)) = (.ok (.silent .done), next) := by
  obtain ⟨history, holds⟩ := formed.ring
  obtain ⟨middle, next, insertedA, insertedB, inserted⟩ := holds.insert_append fitsA fitsB
  have below (start count : Nat) : ∀ slot ∈ slotsFrom layout.capacity start count,
      slot < layout.capacity := by
    intro slot mem
    obtain ⟨j, _, rfl⟩ := List.mem_map.1 mem
    exact Nat.mod_lt _ layout.capacity_pos
  have performedA := formed.perform_insert insertedA (below _ _)
  have formedA := formed.insert a
  rw [performedA] at formedA
  have performedB := formedA.perform_insert insertedB (below _ _)
  rw [filled_filled, ← slotsFrom_add] at performedB
  exact ⟨_, _, ask_insert_of_inserted performedA, ask_insert_of_inserted performedB,
    ask_insert_of_inserted (formed.perform_insert inserted (below _ _))⟩

theorem Formed.ask_insert_round (formed : buffer.Formed layout) {batch : Records} {count : Nat}
    (fits : Schema.Fits layout.schema batch count) (round : layout.capacity ≤ count) :
    (buffer.movedTo ((buffer.cursor + count) % layout.capacity)).ask
        (.insert (batch.dropRecords layout.schema (count - layout.capacity))) =
      buffer.ask (.insert batch) := by
  obtain ⟨history, holds⟩ := formed.ring
  obtain ⟨next, inserted, insertedLast⟩ := holds.insert_round fits round
  have all (start : Nat) {count : Nat} (round : layout.capacity ≤ count) (slot : Nat) :
      slot ∈ slotsFrom layout.capacity start count ↔ slot < layout.capacity :=
    mem_slotsFrom_iff layout.capacity_pos round
  have performed := formed.perform_insert inserted fun slot mem => (all _ round slot).1 mem
  let moved := buffer.movedTo ((buffer.cursor + count) % layout.capacity)
  have performedLast := Buffer.perform_insert (show moved.ring.insert _ = _ from insertedLast)
    fun slot mem => formed.inside ((all _ (Nat.le_refl _) slot).1 mem)
  rw [ask_insert_of_inserted performed, ask_insert_of_inserted performedLast]
  exact congrArg _ (formed.filled_congr (all _ (Nat.le_refl _)) (all _ round) next)

/-- Whatever was asked of a buffer before, two batches that fit the schema leave the same state
whether they are inserted as one batch or one after the other. A batch that fills the ring leaves
the same state as its last records do when they are inserted from the slot where the batch ends. -/
theorem insert_append_after_build {config : Config} {start : Buffer}
    (built : build config = .ok start) (requests : List Request) {a b : Records} {m n : Nat}
    (lengthA : Schema.batchLength config.fields a = .ok m)
    (lengthB : Schema.batchLength config.fields b = .ok n) :
    let buffer := start.after requests
    (buffer.ask (.insert a)).1 = .ok (.silent .done) ∧
    ((buffer.ask (.insert a)).2.ask (.insert b)).1 = .ok (.silent .done) ∧
    buffer.ask (.insert (a ++ b)) = (buffer.ask (.insert a)).2.ask (.insert b) ∧
    (config.capacity ≤ m →
      let last := a.dropRecords config.fields (m - config.capacity)
      Schema.batchLength config.fields last = .ok config.capacity ∧
        (buffer.movedTo ((buffer.cursor + m) % config.capacity)).ask (.insert last) =
          buffer.ask (.insert a)) := by
  obtain ⟨layout, capacity, schema, formed⟩ := exists_formed_of_build built
  have formed := formed.after requests
  have accepted {batch : Records} {count : Nat} :
      Schema.batchLength layout.schema batch = .ok count ↔ Schema.Fits layout.schema batch count :=
    Schema.batchLength_eq_ok_iff layout.sound.nonempty layout.sound.dim_pos
  rw [← schema] at lengthA lengthB ⊢
  rw [← capacity]
  have fitsA := accepted.1 lengthA
  obtain ⟨middle, next, askedA, askedB, asked⟩ :=
    formed.ask_insert_append fitsA (accepted.1 lengthB)
  intro buffer
  refine ⟨congrArg Prod.fst askedA, ?_, ?_, fun round => ⟨?_, formed.ask_insert_round fitsA round⟩⟩
  · rw [askedA, askedB]
  · rw [asked, askedA, askedB]
  · have fitsLast := fitsA.dropRecords layout.sound.distinct (m - layout.capacity)
    rw [Nat.sub_sub_self round] at fitsLast
    exact accepted.2 fitsLast

omit [Power] in
/-- Three records into a ring of two slots that was rescored and has its cursor in the middle. -/
theorem insert_append_after_build_rescored :
    letI := Power.linear
    ∃ start, build (.linear 2) = .ok start ∧
      let first : Records := .ofList [("states", [1]), ("terminals", [0])]
      let a : Records := .ofList [("states", [1, 0, 0]), ("terminals", [0, 1, 0])]
      let b : Records := .ofList [("states", [0]), ("terminals", [1])]
      let buffer := start.after [.insert first, .update [0] [Binary32.belowOne]]
      buffer.cursor = 1 ∧
        buffer.ask (.insert (a ++ b)) = (buffer.ask (.insert a)).2.ask (.insert b) ∧
        (buffer.movedTo 0).ask (.insert (.ofList [("states", [0, 0]), ("terminals", [1, 0])])) =
          buffer.ask (.insert a) := by
  let _ := Power.linear
  have built : build (.linear 2) = .ok _ := rfl
  refine ⟨_, built, ?_⟩
  intro first a b buffer
  obtain ⟨_, _, appended, last⟩ := insert_append_after_build built
    [.insert first, .update [0] [Binary32.belowOne]]
    (by decide +kernel : Schema.batchLength _ a = .ok 3)
    (by decide +kernel : Schema.batchLength _ b = .ok 1)
  have end_slot : (buffer.cursor + 3) % (Config.linear 2).capacity = 0 := by decide +kernel
  have last_two : a.dropRecords (Config.linear 2).fields (3 - (Config.linear 2).capacity) =
      .ofList [("states", [0, 0]), ("terminals", [1, 0])] := by decide +kernel
  have round := (last (by decide)).2
  rw [last_two, end_slot] at round
  exact ⟨by decide +kernel, appended, round⟩

end ExperienceReplay.Buffer
