import ExperienceReplay.Proofs.Buffer.Formed
import ExperienceReplay.Proofs.RecordRing.FlatRows
import ExperienceReplay.Proofs.SegmentTree.NodeRow
import ExperienceReplay.Proofs.SegmentTree.Ranges

/-!
Calls without faults. Main statements: whatever was asked of a buffer, its next call is answered or
refused, and every place that the call looks up in a column or in a tree is there.
-/

namespace ExperienceReplay

/-- An answer, or a refusal that has nothing to do with a lock. -/
def Orderly {α : Type} (answer : Except Abort α) : Prop :=
  ∀ abort, answer = .error abort → ∃ error, abort = .refused error ∧ error ≠ .lockPoisoned

namespace Orderly

variable {α β : Type}

theorem ok (a : α) : Orderly (.ok a) := by
  intro abort failed
  cases failed

theorem refused {error : Error} (other : error ≠ .lockPoisoned) :
    Orderly (.error (.refused error) : Except Abort α) :=
  fun _ failed => ⟨error, (Except.error.inj failed).symm, other⟩

theorem error {abort : Abort} (orderly : Orderly (.error abort : Except Abort α)) :
    Orderly (.error abort : Except Abort β) :=
  fun _ failed => orderly _ (congrArg _ (Except.error.inj failed))

theorem bind {first : Except Abort α} {next : α → Except Abort β} (here : Orderly first)
    (there : ∀ a, first = .ok a → Orderly (next a)) : Orderly (first >>= next) := by
  cases first with
  | error abort => exact here.error
  | ok a => exact there a rfl

theorem mapM {f : α → Except Abort β} {items : List α}
    (each : ∀ item ∈ items, Orderly (f item)) : Orderly (items.mapM f) := by
  induction items with
  | nil => exact ok []
  | cons item rest ih =>
    obtain ⟨here, each⟩ := List.forall_mem_cons.1 each
    rw [List.mapM_cons]
    exact here.bind fun _ _ => (ih each).bind fun _ _ => ok _

theorem map {answer : Except Abort α} (orderly : Orderly answer) (f : α → β) :
    Orderly (answer.map f) := by
  cases answer with
  | error abort => exact orderly.error
  | ok a => exact ok (f a)

theorem refusing {result : Except Error α}
    (other : ∀ error, result = .error error → error ≠ .lockPoisoned) :
    Orderly (Buffer.refusing result) := by
  cases result with
  | error error => exact refused (other error rfl)
  | ok a => exact ok a

theorem no_fault {answer : Except Abort α} (orderly : Orderly answer) (fault : Fault) :
    answer ≠ .error (.faulted fault) := by
  intro faulted
  obtain ⟨error, refused, _⟩ := orderly _ faulted
  cases refused

theorem not_poisoned {answer : Except Abort α} (orderly : Orderly answer) :
    answer ≠ .error (.refused .lockPoisoned) := by
  intro poisoned
  obtain ⟨error, refused, other⟩ := orderly _ poisoned
  exact other (Abort.refused.inj refused).symm

end Orderly

namespace SegmentTree

variable {α : Type} {op : Operation α} {tree : SegmentTree op}

theorem leaf_error {i : Nat} {error : Error} (failed : tree.leaf i = .error error) :
    error = .indexOutOfRange i tree.size := by
  unfold leaf checkIndex at failed
  split at failed
  · cases failed
  · exact (Except.error.inj failed).symm

theorem reduce_error {start limit : Nat} {error : Error}
    (failed : tree.reduce start limit = .error error) :
    error = .indexOutOfRange limit tree.size := by
  by_cases inside : limit < tree.size
  · unfold reduce checkIndex at failed
    rw [if_pos inside] at failed
    change (if limit < start then Except.ok op.neutral else Except.ok _) = _ at failed
    split at failed <;> cases failed
  · rw [reduce_eq_error (Nat.le_of_not_lt inside)] at failed
    exact (Except.error.inj failed).symm

theorem indexOfPrefixSum_error {tree : SumTree} {target : Binary32} {error : Error}
    (failed : tree.indexOfPrefixSum target = .error error) :
    error = .degeneratePriority tree.total ∨ error = .prefixSumOutOfRange target tree.total := by
  unfold indexOfPrefixSum at failed
  split at failed
  · exact Or.inl (Except.error.inj failed).symm
  · split at failed
    · exact Or.inr (Except.error.inj failed).symm
    · cases failed

end SegmentTree

namespace Buffer

variable {buffer : Buffer} {layout : RecordRing.Layout}

theorem orderly_totalMass (buffer : Buffer) : Orderly buffer.totalMass := by
  by_cases empty : buffer.size = 0
  · rw [totalMass_of_empty empty]
    exact .refused Error.noConfusion
  · unfold totalMass
    rw [if_neg empty, Abort.lastSlot_of_pos (Nat.pos_of_ne_zero empty)]
    refine (Orderly.refusing fun error failed => ?_).bind fun mass _ => ?_
    · rw [SegmentTree.reduce_error failed]
      exact Error.noConfusion
    · split
      · exact .refused Error.noConfusion
      · exact .ok mass

theorem orderly_select (positive : 0 < buffer.size) (mass draw : Binary32) :
    Orderly (buffer.select mass draw) := by
  unfold select
  rw [Abort.lastSlot_of_pos positive]
  refine (Orderly.refusing fun error failed => ?_).bind fun found _ => .ok _
  rcases SegmentTree.indexOfPrefixSum_error failed with rfl | rfl <;> exact Error.noConfusion

theorem orderly_importanceWeight [Power] (buffer : Buffer) (slot : Nat) :
    Orderly (buffer.importanceWeight slot) := by
  refine (Orderly.refusing fun error failed => ?_).bind fun weight _ => .ok _
  rw [SegmentTree.leaf_error failed]
  exact Error.noConfusion

theorem Formed.orderly_read (formed : buffer.Formed layout) (slots : List Nat) :
    Orderly (buffer.ring.read slots) := by
  obtain ⟨history, holds⟩ := formed.ring
  by_cases below : ∀ slot ∈ slots, slot < layout.capacity
  · rw [holds.read below]
    exact .ok _
  · have beyond : slots.find? (buffer.ring.capacity ≤ ·) ≠ none := by
      rw [Ne, List.find?_eq_none, holds.capacity_eq]
      simpa using below
    obtain ⟨slot, found⟩ := Option.ne_none_iff_exists'.1 beyond
    unfold RecordRing.read
    rw [found]
    exact .refused Error.noConfusion

theorem Formed.orderly_sampleWith [Power] (formed : buffer.Formed layout) (draws : List Binary32) :
    Orderly (buffer.sampleWith draws) := by
  refine buffer.orderly_totalMass.bind fun mass massed => ?_
  have positive := size_pos_of_totalMass massed
  split
  · exact .refused Error.noConfusion
  · refine (Orderly.mapM fun draw _ => orderly_select positive mass draw).bind fun indices _ => ?_
    refine (Orderly.mapM fun slot _ => buffer.orderly_importanceWeight slot).bind fun _ _ => ?_
    exact (formed.orderly_read indices).bind fun _ _ => .ok _

variable [Power]

theorem Formed.orderly_insert (formed : buffer.Formed layout) (batch : Records) :
    Orderly ((Buffer.insert batch).perform buffer).1 := by
  rcases formed.perform_insert_cases batch with
    ⟨_, _, _, _, _, _, performed⟩ | ⟨cause, refused⟩
  · rw [performed]
    exact .ok ()
  · rw [refused]
    exact .refused Error.noConfusion

theorem Formed.orderly_sample (formed : buffer.Formed layout) (n : Nat) :
    Orderly ((Buffer.sample n).perform buffer).1 := by
  unfold Buffer.sample takeDraws
  rw [Action.perform_bind, Action.perform_inspect]
  cases massed : buffer.totalMass with
  | error abort => exact (massed ▸ buffer.orderly_totalMass).error
  | ok mass =>
    simp only
    rw [Action.perform_bind, Action.perform_update]
    simp only
    rw [Action.perform_inspect]
    exact (formed.of_stream _).orderly_sampleWith _

theorem Formed.orderly_update (formed : buffer.Formed layout) (indices : List Nat)
    (priorities : List Binary32) :
    Orderly ((Buffer.update indices priorities).perform buffer).1 := by
  by_cases same : indices.length = priorities.length
  · cases checked : (indices.zip priorities).forM buffer.checkScore with
    | error error =>
      rw [perform_update_of_refused same checked]
      obtain ⟨_, score, _, _, _, failed⟩ := forM_eq_error_iff.1 checked
      refine .refused fun poisoned => ?_
      unfold checkScore at failed
      split at failed
      · cases failed.trans (congrArg _ poisoned)
      · split at failed <;> cases failed.trans (congrArg _ poisoned)
    | ok =>
      rw [formed.perform_update_of_checked same checked]
      exact .ok ()
  · rw [perform_update_of_mismatch same]
    exact .refused Error.noConfusion

theorem Formed.orderly_ask (formed : buffer.Formed layout) (request : Request) :
    Orderly (buffer.ask request).1 := by
  cases request with
  | insert batch =>
    rw [ask_insert]
    exact (formed.orderly_insert batch).map _
  | sample n =>
    rw [ask_sample]
    exact (formed.orderly_sample n).map _
  | draw draws =>
    rw [ask_draw]
    exact (formed.orderly_sampleWith draws).map _
  | update indices priorities =>
    rw [ask_update]
    exact (formed.orderly_update indices priorities).map _
  | length => exact .ok _

end Buffer

/-- Every field of the schema has one column, found by its name, with as many rows as there are
slots; and whatever a column takes or shows lies inside of it. -/
structure RecordRing.InBounds (ring : RecordRing) (capacity : Nat) (schema : List Field) :
    Prop where
  capacity_pos : 0 < capacity
  capacity_eq : ring.capacity = capacity
  cursor_lt : ring.cursor < capacity
  size_le : ring.size ≤ capacity
  schema_eq : ring.columns.map Column.field = schema
  dim_pos : ∀ field ∈ schema, 0 < field.dim
  named : ∀ column ∈ ring.columns,
    ring.columns.find? (fun other => other.field.name = column.field.name) = some column
  length : ∀ column ∈ ring.columns, column.flat.length = capacity * column.field.dim
  appended : ∀ column ∈ ring.columns, ∀ cursor values next,
    column.append capacity cursor values = .ok next →
      ∃ positive : 0 < column.field.dim, FlatRows.push? capacity column.field.dim cursor
        (splitRows column.field.dim positive values) column.flat = some next.flat
  gathered : ∀ column ∈ ring.columns, ∀ slots values, column.gather slots = .ok values →
    FlatRows.gather? column.field.dim column.flat slots = some values

theorem find?_name_of_nodup {columns : List Column}
    (distinct : (columns.map fun column => column.field.name).Nodup) {column : Column}
    (mem : column ∈ columns) :
    columns.find? (fun other => other.field.name = column.field.name) = some column := by
  induction columns with
  | nil => cases mem
  | cons first rest ih =>
    obtain ⟨fresh, distinct⟩ := List.nodup_cons.1 distinct
    rcases List.mem_cons.1 mem with rfl | mem
    · rw [List.find?_cons_of_pos (by simp)]
    · have other : first.field.name ≠ column.field.name := fun same =>
        fresh (List.mem_map.2 ⟨column, mem, same.symm⟩)
      rw [List.find?_cons_of_neg (by simpa using other), ih distinct mem]

theorem RecordRing.Holds.inBounds {ring : RecordRing} {layout : RecordRing.Layout}
    {history : History} (holds : ring.Holds layout history) :
    ring.InBounds layout.capacity layout.schema where
  capacity_pos := layout.capacity_pos
  capacity_eq := holds.capacity_eq
  cursor_lt := holds.cursor_eq ▸ Nat.mod_lt _ layout.capacity_pos
  size_le := holds.size_eq ▸ Nat.min_le_right _ _
  schema_eq := holds.schema_eq
  dim_pos := layout.sound.dim_pos
  named column mem := by
    have distinct := layout.sound.distinct
    rw [← holds.schema_eq, RecordRing.schema, List.map_map] at distinct
    exact find?_name_of_nodup distinct mem
  length column mem := by
    rw [(holds.even mem).length_flat, (holds.columns column mem).size]
  appended column mem cursor values next appended := by
    have positive := layout.sound.dim_pos _ (holds.field_mem mem)
    exact ⟨positive, (holds.even mem).append positive appended⟩
  gathered column mem slots values gathered := (holds.even mem).gather gathered

/-- No call faults, and what it looks up is there: rows in the columns, leaves and nodes in both
trees. -/
structure Buffer.InBounds [Power] (buffer : Buffer) (config : Config) : Prop where
  orderly : ∀ request, Orderly (buffer.ask request).1
  ring : buffer.ring.InBounds config.capacity config.fields
  capacity_le : config.capacity ≤ buffer.sums.size
  sizes : buffer.mins.size = buffer.sums.size
  sums : buffer.sums.Walked
  mins : buffer.mins.Walked
  descended : ∀ target i, buffer.sums.indexOfPrefixSum target = .ok i →
    NodeRow.descend? buffer.sums.size buffer.sums.nodes 1 Nat.one_pos target = some i

theorem Buffer.Formed.inBounds [Power] {buffer : Buffer} {layout : RecordRing.Layout}
    (formed : buffer.Formed layout) {config : Config} (capacity : layout.capacity = config.capacity)
    (schema : layout.schema = config.fields) : buffer.InBounds config where
  orderly := formed.orderly_ask
  ring := by
    obtain ⟨history, holds⟩ := formed.ring
    exact capacity ▸ schema ▸ holds.inBounds
  capacity_le := capacity ▸ formed.capacity_le
  sizes := congrArg (2 ^ ·) formed.height_eq
  sums := SegmentTree.walked formed.sums_combined
  mins := SegmentTree.walked formed.mins_combined
  descended _ _ found := SegmentTree.descend?_nodes found

end ExperienceReplay
