import ExperienceReplay.Proofs.Records
import ExperienceReplay.Proofs.RecordRing.Writing

/-!
Reading from a ring. Main statement: after any batches a ring is the history of those it accepted,
which fixes its size, its cursor, the slots of the next batch and what any slots show.
-/

namespace ExperienceReplay.RecordRing

variable {ring : RecordRing} {layout : Layout} {history : History}

theorem Holds.length_row (holds : ring.Holds layout history) {field : Field}
    (mem : field ∈ layout.schema) (slot : Nat) :
    (history.row layout.capacity field slot).length = field.dim := by
  unfold History.row
  split
  next record last =>
    obtain ⟨r, found, _⟩ := latest?_eq_some_iff.1 last
    exact holds.widths record (List.mem_of_getElem? found) field mem
  next => exact List.length_replicate

def Layout.shown (layout : Layout) (history : History) (slots : List Nat) (field : Field) :
    List (String × List Binary32) :=
  (field.name, (slots.map (history.row layout.capacity field)).flatten) ::
    if layout.nextStates ∧ field.isState then
      [(Field.nextStateName field.name, (slots.map fun slot =>
        history.row layout.capacity field ((slot + 1) % layout.capacity)).flatten)]
    else []

theorem Holds.gather (holds : ring.Holds layout history) {column : Column}
    (mem : column ∈ ring.columns) {slots : List Nat}
    (below : ∀ slot ∈ slots, slot < layout.capacity) :
    column.gather slots = .ok (slots.map (history.row layout.capacity column.field)).flatten := by
  have rows : slots.mapM column.row =
      .ok (slots.map (history.row layout.capacity column.field)) := by
    apply mapM_eq_ok
    intro slot hslot
    unfold Column.row
    rw [(holds.columns column mem).rows slot (below slot hslot)]
  unfold Column.gather
  rw [rows]
  rfl

theorem Holds.readColumn (holds : ring.Holds layout history) {column : Column}
    (mem : column ∈ ring.columns) {slots : List Nat}
    (below : ∀ slot ∈ slots, slot < layout.capacity) (records : Records) :
    ring.readColumn slots records column =
      .ok ((layout.shown history slots column.field).foldl
        (fun records entry => records.insert entry.1 entry.2) records) := by
  have following : slots.mapM (fun slot => Abort.remainder (slot + 1) ring.capacity) =
      .ok (slots.map fun slot => (slot + 1) % layout.capacity) := by
    rw [holds.capacity_eq]
    exact mapM_eq_ok fun slot _ => Abort.remainder_of_pos layout.capacity_pos
  have inside : ∀ slot ∈ slots.map fun slot => (slot + 1) % layout.capacity,
      slot < layout.capacity := by
    intro slot hslot
    obtain ⟨before, _, rfl⟩ := List.mem_map.1 hslot
    exact Nat.mod_lt _ layout.capacity_pos
  have next := holds.gather mem inside
  unfold RecordRing.readColumn Layout.shown
  rw [holds.gather mem below, holds.nextStates_eq]
  by_cases states : layout.nextStates ∧ column.field.isState
  · simp only [bind, Except.bind, if_pos states, following, next, List.map_map]
    rfl
  · simp only [bind, Except.bind, if_neg states]
    rfl

theorem Holds.read (holds : ring.Holds layout history) {slots : List Nat}
    (below : ∀ slot ∈ slots, slot < layout.capacity) :
    ring.read slots =
      .ok (Records.ofList (layout.schema.flatMap (layout.shown history slots))) := by
  have inside : slots.find? (ring.capacity ≤ ·) = none := by
    rw [List.find?_eq_none]
    intro slot hslot
    have := below slot hslot
    simp only [decide_eq_true_eq, holds.capacity_eq]
    omega
  have all : ∀ (columns : List Column), (∀ column ∈ columns, column ∈ ring.columns) →
      ∀ records : Records, columns.foldlM (ring.readColumn slots) records =
        .ok (((columns.map Column.field).flatMap (layout.shown history slots)).foldl
          (fun records entry => records.insert entry.1 entry.2) records) := by
    intro columns
    induction columns with
    | nil => exact fun _ _ => rfl
    | cons column rest ih =>
      intro mem records
      obtain ⟨here, mem⟩ := List.forall_mem_cons.1 mem
      rw [List.foldlM_cons, holds.readColumn here below, List.map_cons, List.flatMap_cons,
        List.foldl_append]
      exact ih mem _
  unfold RecordRing.read
  rw [inside]
  simp only
  rw [all ring.columns (fun _ mem => mem), ← holds.schema_eq]
  rfl

theorem Layout.mem_names_shown {layout : Layout} {history : History} {slots : List Nat}
    {field : Field} {name : String} :
    name ∈ (layout.shown history slots field).map Prod.fst ↔
      name = field.name ∨
        (layout.nextStates ∧ field.isState) ∧ name = Field.nextStateName field.name := by
  unfold Layout.shown
  split
  next states => simp [states]
  next noStates => simp [noStates]

/-- No field is shown under the name of another: names of following states are kept free, and no
two states have the same. -/
theorem Layout.distinct_shown (layout : Layout) (history : History) (slots : List Nat) :
    ((layout.schema.flatMap (layout.shown history slots)).map Prod.fst).Nodup := by
  have apart : ∀ field ∈ layout.schema, ∀ other ∈ layout.schema,
      other.isState → field.name ≠ Field.nextStateName other.name := by
    intro field hfield other _ state same
    have free := layout.sound.not_derived field hfield
    rw [same, Field.isDerivedName_nextStateName state] at free
    cases free
  rw [List.map_flatMap, List.nodup_flatMap]
  constructor
  · intro field hfield
    unfold Layout.shown
    split
    next states => simpa using apart field hfield field hfield states.2
    next => simp
  · refine (List.pairwise_map.1 layout.sound.distinct).imp_of_mem fun {a b} ha hb different => ?_
    intro name inA inB
    rcases mem_names_shown.1 inA with rfl | ⟨⟨_, stateA⟩, rfl⟩
    · rcases mem_names_shown.1 inB with same | ⟨⟨_, stateB⟩, same⟩
      · exact different same
      · exact apart a ha b hb stateB same
    · rcases mem_names_shown.1 inB with same | ⟨⟨_, stateB⟩, same⟩
      · exact apart b hb a ha stateA same.symm
      · exact different (Field.nextStateName_injective stateA stateB same)

theorem Layout.get?_ofList_shown (layout : Layout) (history : History) (slots : List Nat)
    {field : Field} (mem : field ∈ layout.schema) :
    (Records.ofList (layout.schema.flatMap (layout.shown history slots))).get? field.name =
      some (slots.map (history.row layout.capacity field)).flatten :=
  Records.get?_ofList (layout.distinct_shown history slots)
    (List.mem_flatMap.2 ⟨field, mem, List.mem_cons_self⟩)

theorem Layout.get?_nextStateName_ofList_shown (layout : Layout) (history : History)
    (slots : List Nat) {field : Field} (mem : field ∈ layout.schema) (next : layout.nextStates)
    (state : field.isState) :
    (Records.ofList (layout.schema.flatMap (layout.shown history slots))).get?
      (Field.nextStateName field.name) = some (slots.map fun slot =>
        history.row layout.capacity field ((slot + 1) % layout.capacity)).flatten := by
  refine Records.get?_ofList (layout.distinct_shown history slots)
    (List.mem_flatMap.2 ⟨field, mem, ?_⟩)
  unfold Layout.shown
  rw [if_pos ⟨next, state⟩]
  exact List.mem_cons_of_mem _ List.mem_cons_self

theorem Holds.row?_ofList_shown (holds : ring.Holds layout history) {field : Field}
    (mem : field ∈ layout.schema) (slots : List Nat) (k : Nat) :
    (Records.ofList (layout.schema.flatMap (layout.shown history slots))).row? field.name k
      field.dim = slots[k]?.map (history.row layout.capacity field) := by
  rw [← List.getElem?_map]
  exact Records.row?_of_get?_flatten (layout.sound.dim_pos field mem)
    (List.forall_mem_map.2 fun slot _ => holds.length_row mem slot)
    (layout.get?_ofList_shown history slots mem) k

theorem Holds.row?_nextStateName_ofList_shown (holds : ring.Holds layout history) {field : Field}
    (mem : field ∈ layout.schema) (next : layout.nextStates) (state : field.isState)
    (slots : List Nat) (k : Nat) :
    (Records.ofList (layout.schema.flatMap (layout.shown history slots))).row?
      (Field.nextStateName field.name) k field.dim =
      slots[k]?.map fun slot =>
        history.row layout.capacity field ((slot + 1) % layout.capacity) := by
  rw [← List.getElem?_map]
  exact Records.row?_of_get?_flatten (layout.sound.dim_pos field mem)
    (List.forall_mem_map.2 fun slot _ => holds.length_row mem _)
    (layout.get?_nextStateName_ofList_shown history slots mem next state) k

def insertAll (ring : RecordRing) : List Records → RecordRing
  | [] => ring
  | batch :: rest =>
    match ring.insert batch with
    | .ok (_, next) => next.insertAll rest
    | .error _ => ring.insertAll rest

def accepted (ring : RecordRing) : List Records → History
  | [] => []
  | batch :: rest =>
    match ring.insert batch with
    | .ok (slots, next) => batch.toHistory slots.length ++ next.accepted rest
    | .error _ => ring.accepted rest

theorem Holds.insertAll (holds : ring.Holds layout history) (batches : List Records) :
    (ring.insertAll batches).Holds layout (history ++ ring.accepted batches) := by
  induction batches generalizing ring history with
  | nil => rwa [accepted, List.append_nil]
  | cons batch rest ih =>
    by_cases fits : ∃ count, Schema.Fits layout.schema batch count
    · obtain ⟨count, fits⟩ := fits
      obtain ⟨next, inserted, holds⟩ := holds.insert_of_fits fits
      unfold RecordRing.insertAll accepted
      simp only [inserted, List.length_map, List.length_range, ← List.append_assoc]
      exact ih holds
    · obtain ⟨cause, refused⟩ := holds.insert_of_not_fits (not_exists.1 fits)
      unfold RecordRing.insertAll accepted
      simp only [refused]
      exact ih holds

/-- A ring is its history: the number of records it holds, its cursor, the slots of the next batch
and what it shows in any slots follow from the records accepted so far. -/
theorem insertAll_refines_history {capacity : Nat} {schema : List Field} {nextStates : Bool}
    {empty : RecordRing} (built : build capacity schema nextStates = .ok empty)
    (batches : List Records) :
    let ring := empty.insertAll batches
    let history := empty.accepted batches
    ring.size = min history.length capacity ∧ ring.cursor = history.length % capacity ∧
    (∀ batch count, Schema.Fits schema batch count → ∃ next,
      ring.insert batch =
        .ok ((List.range count).map fun j => (history.length + j) % capacity, next)) ∧
    (∀ batch, (∀ count, ¬Schema.Fits schema batch count) → ∃ cause,
      ring.insert batch = .error (.refused (.schemaMismatch cause))) ∧
    ∀ slots, (∀ slot ∈ slots, slot < capacity) → ∃ records, ring.read slots = .ok records ∧
      ∀ field ∈ schema, ∀ k,
        records.row? field.name k field.dim = slots[k]?.map (history.row capacity field) ∧
        (nextStates → field.isState →
          records.row? (Field.nextStateName field.name) k field.dim =
            slots[k]?.map fun slot => history.row capacity field ((slot + 1) % capacity)) := by
  obtain ⟨layout, rfl, rfl, rfl, holds⟩ := exists_layout_of_build built
  have holds := holds.insertAll batches
  rw [List.nil_append] at holds
  intro ring history
  refine ⟨holds.size_eq, holds.cursor_eq, fun batch count fits => ?_, fun batch misfit =>
    holds.insert_of_not_fits misfit, fun slots below => ⟨_, holds.read below, ?_⟩⟩
  · obtain ⟨next, inserted, _⟩ := holds.insert_of_fits fits
    exact ⟨next, inserted⟩
  · intro field mem k
    exact ⟨holds.row?_ofList_shown mem slots k, fun next state =>
      holds.row?_nextStateName_ofList_shown mem next state slots k⟩

/-- Of a batch of three records in a ring of two slots the last two are shown, the newest in slot
zero. -/
theorem insertAll_refines_history_oversized :
    ∃ empty, build 2 [.scalar Field.states, .scalar Field.terminals] true = .ok empty ∧
      let ring := empty.insertAll [.ofList [("states", [0, 1, 0]), ("terminals", [0, 0, 1])]]
      ring.cursor = 1 ∧ ∃ records, ring.read [1, 0, 1] = .ok records ∧
        records.row? "states" 2 1 = some [1] ∧ records.row? "terminals" 1 1 = some [1] ∧
        records.row? "next_states" 2 1 = some [0] := by
  have built : build 2 [.scalar Field.states, .scalar Field.terminals] true = .ok _ := rfl
  refine ⟨_, built, ?_⟩
  obtain ⟨_, cursor, _, _, read⟩ := insertAll_refines_history built
    [.ofList [("states", [0, 1, 0]), ("terminals", [0, 0, 1])]]
  obtain ⟨records, shown, rows⟩ := read [1, 0, 1] (by decide)
  refine ⟨cursor.trans (by decide +kernel), records, shown, ?_, ?_, ?_⟩
  · exact (rows (.scalar Field.states) (by decide) 2).1.trans (by decide +kernel)
  · exact (rows (.scalar Field.terminals) (by decide) 1).1.trans (by decide +kernel)
  · exact ((rows (.scalar Field.states) (by decide) 2).2 rfl rfl).trans (by decide +kernel)

end ExperienceReplay.RecordRing
