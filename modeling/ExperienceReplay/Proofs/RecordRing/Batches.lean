import ExperienceReplay.Proofs.RecordRing.Reading

/-!
Batches put together and cut. A ring is fixed by its cursor, its size and the rows that it shows, so
that it does not matter how records were grouped into batches; and once every slot was written
again, what the ring showed before does not matter either.
-/

namespace ExperienceReplay

/-! ## Batches -/

namespace Records

def mapValues (f : String → List Binary32 → List Binary32) (records : Records) : Records :=
  ⟨records.entries.map fun entry => (entry.1, f entry.1 entry.2),
    List.pairwise_map.2 records.inOrder⟩

theorem get?_mapValues (f : String → List Binary32 → List Binary32) (records : Records)
    (name : String) : (records.mapValues f).get? name = (records.get? name).map (f name) := by
  obtain ⟨entries, inOrder⟩ := records
  simp only [get?, mapValues]
  clear inOrder
  induction entries with
  | nil => rfl
  | cons entry rest ih =>
    rw [List.map_cons, List.lookup_cons, List.lookup_cons, ih]
    by_cases same : name = entry.1
    · simp [same]
    · simp [beq_false_of_ne same]

theorem size_mapValues (f : String → List Binary32 → List Binary32) (records : Records) :
    (records.mapValues f).size = records.size :=
  List.length_map _

theorem mapValues_insert (f : String → List Binary32 → List Binary32) (records : Records)
    (name : String) (values : List Binary32) :
    (records.insert name values).mapValues f =
      (records.mapValues f).insert name (f name values) := by
  obtain ⟨entries, inOrder⟩ := records
  simp only [insert, mapValues, Records.mk.injEq]
  clear inOrder
  induction entries with
  | nil => rfl
  | cons entry rest ih =>
    simp only [enter, List.map_cons]
    split
    next => rfl
    next =>
      split
      next => rfl
      next => rw [List.map_cons, ih]

theorem mapValues_foldl_insert (f : String → List Binary32 → List Binary32)
    (entries : List (String × List Binary32)) (records : Records) :
    (entries.foldl (fun records entry => records.insert entry.1 entry.2) records).mapValues f =
      (entries.map fun entry => (entry.1, f entry.1 entry.2)).foldl
        (fun records entry => records.insert entry.1 entry.2) (records.mapValues f) := by
  induction entries generalizing records with
  | nil => rfl
  | cons entry rest ih => rw [List.foldl_cons, ih, mapValues_insert, List.map_cons, List.foldl_cons]

theorem mapValues_ofList (f : String → List Binary32 → List Binary32)
    (entries : List (String × List Binary32)) :
    (ofList entries).mapValues f = ofList (entries.map fun entry => (entry.1, f entry.1 entry.2)) :=
  mapValues_foldl_insert f entries empty

/-- Field by field the values of one batch, then those of another. -/
instance : Append Records where
  append records others :=
    records.mapValues fun name values => values ++ (others.get? name).getD []

theorem get?_append {records others : Records} {name : String} {values more : List Binary32}
    (found : records.get? name = some values) (found' : others.get? name = some more) :
    (records ++ others).get? name = some (values ++ more) := by
  change (records.mapValues _).get? name = _
  rw [get?_mapValues, found, found']
  rfl

def dropRecords (schema : List Field) (count : Nat) (records : Records) : Records :=
  records.mapValues fun name values =>
    values.drop (count * ((schema.find? (·.name = name)).map Field.dim).getD 0)

theorem get?_dropRecords {schema : List Field} (distinct : (schema.map Field.name).Nodup)
    {field : Field} (mem : field ∈ schema) {records : Records} {values : List Binary32}
    (found : records.get? field.name = some values) (count : Nat) :
    (records.dropRecords schema count).get? field.name =
      some (values.drop (count * field.dim)) := by
  have here : schema.find? (·.name = field.name) = some field := by
    cases first : schema.find? (·.name = field.name) with
    | none => simpa using List.find?_eq_none.1 first field mem
    | some other =>
      have same : other.name = field.name := by simpa using List.find?_some first
      rw [List.inj_on_of_nodup_map distinct (List.mem_of_find?_eq_some first) mem same]
  rw [dropRecords, get?_mapValues, found, here]
  rfl

end Records

namespace Schema.Fits

variable {schema : List Field} {a b : Records} {m n : Nat}

theorem append (fitsA : Fits schema a m) (fitsB : Fits schema b n) :
    Fits schema (a ++ b) (m + n) where
  size := (Records.size_mapValues _ a).trans fitsA.size
  rows field mem := by
    obtain ⟨values, found, total⟩ := fitsA.rows field mem
    obtain ⟨more, found', total'⟩ := fitsB.rows field mem
    refine ⟨values ++ more, Records.get?_append found found', ?_⟩
    rw [List.length_append, total, total', Nat.add_mul]

theorem dropRecords (distinct : (schema.map Field.name).Nodup) (fits : Fits schema a m)
    (count : Nat) : Fits schema (a.dropRecords schema count) (m - count) where
  size := (Records.size_mapValues _ a).trans fits.size
  rows field mem := by
    obtain ⟨values, found, total⟩ := fits.rows field mem
    refine ⟨_, Records.get?_dropRecords distinct mem found count, ?_⟩
    rw [List.length_drop, total, Nat.sub_mul]

theorem map_toHistory_append (fitsA : Fits schema a m) (fitsB : Fits schema b n) {field : Field}
    (mem : field ∈ schema) :
    ((a ++ b).toHistory (m + n)).map (· field) =
      (a.toHistory m ++ b.toHistory n).map (· field) := by
  obtain ⟨values, found, total⟩ := fitsA.rows field mem
  obtain ⟨more, found', total'⟩ := fitsB.rows field mem
  have both := Records.get?_append found found'
  have total'' : (values ++ more).length = (m + n) * field.dim := by
    rw [List.length_append, total, total', Nat.add_mul]
  simp only [Records.toHistory, List.range_add, List.map_append, List.map_map]
  congr 1
  · apply List.map_congr_left
    intro i hi
    have below := List.mem_range.1 hi
    have inside : (i + 1) * field.dim ≤ m * field.dim := Nat.mul_le_mul_right _ below
    rw [Nat.succ_mul] at inside
    simp only [Function.comp_apply]
    rw [Records.recordAt_eq both total'' (by omega), Records.recordAt_eq found total below,
      List.drop_append_of_le_length (by omega),
      List.take_append_of_le_length (by rw [List.length_drop]; omega)]
  · apply List.map_congr_left
    intro j hj
    have below := List.mem_range.1 hj
    simp only [Function.comp_apply]
    rw [Records.recordAt_eq both total'' (by omega), Records.recordAt_eq found' total' below,
      Nat.add_mul, ← total, List.drop_length_add_append]

theorem map_toHistory_dropRecords (distinct : (schema.map Field.name).Nodup)
    (fits : Fits schema a m) (count : Nat) {field : Field} (mem : field ∈ schema) :
    ((a.dropRecords schema count).toHistory (m - count)).map (· field) =
      ((a.toHistory m).drop count).map (· field) := by
  obtain ⟨values, found, total⟩ := fits.rows field mem
  have total' : (values.drop (count * field.dim)).length = (m - count) * field.dim := by
    rw [List.length_drop, total, Nat.sub_mul]
  apply List.ext_getElem?
  intro i
  simp only [Records.toHistory, List.map_map, List.getElem?_map, List.getElem?_drop,
    List.map_drop]
  by_cases below : i < m - count
  · rw [List.getElem?_range below, List.getElem?_range (by omega)]
    simp only [Option.map_some, Function.comp_apply]
    rw [Records.recordAt_eq (Records.get?_dropRecords distinct mem found count) total' below,
      Records.recordAt_eq found total (by omega), List.drop_drop, Nat.add_mul]
  · rw [List.getElem?_eq_none (by simpa using below), List.getElem?_eq_none (by simp; omega)]
    rfl

end Schema.Fits

/-! ## Rows of a history -/

theorem latest?_map {α β : Type} (f : α → β) (capacity : Nat) (items : List α) (slot : Nat) :
    latest? capacity (items.map f) slot = (latest? capacity items slot).map f := by
  induction items using List.reverseRecOn with
  | nil => rfl
  | append_singleton items last ih =>
    rw [List.map_append, List.map_singleton, latest?_concat, latest?_concat, ih, List.length_map]
    split <;> rfl

theorem latest?_append_congr {α : Type} {capacity : Nat} {before before' items : List α}
    (same : before.length % capacity = before'.length % capacity) {slot j : Nat}
    (inside : j < items.length) (here : (before.length + j) % capacity = slot) :
    latest? capacity (before ++ items) slot = latest? capacity (before' ++ items) slot := by
  induction items using List.reverseRecOn with
  | nil => simp at inside
  | append_singleton items last ih =>
    have lengths : (before ++ items).length % capacity = (before' ++ items).length % capacity := by
      rw [List.length_append, List.length_append, Nat.add_mod, same, ← Nat.add_mod]
    rw [← List.append_assoc, ← List.append_assoc, latest?_concat, latest?_concat, lengths]
    split
    next => rfl
    next elsewhere =>
      rw [List.length_append, List.length_singleton] at inside
      have : j ≠ items.length := by
        rintro rfl
        rw [← lengths, List.length_append] at elsewhere
        exact elsewhere here
      exact ih (by omega)

theorem latest?_map_range {α : Type} {capacity slot : Nat} (f : Nat → α) (inRing : slot < capacity)
    {n : Nat} (reached : slot < n) :
    latest? capacity ((List.range n).map fun r => f (r % capacity)) slot = some (f slot) := by
  induction n with
  | zero => omega
  | succ n ih =>
    rw [List.range_succ, List.map_append, List.map_singleton, latest?_concat, List.length_map,
      List.length_range]
    split
    next here => rw [here]
    next elsewhere =>
      have : slot ≠ n := fun same => elsewhere (same ▸ Nat.mod_eq_of_lt inRing)
      exact ih (by omega)

namespace History

variable {history history' : History} {capacity slot : Nat} {field : Field}

theorem row_eq_getD (history : History) (capacity slot : Nat) (field : Field) :
    history.row capacity field slot =
      (latest? capacity (history.map (· field)) slot).getD (List.replicate field.dim 0) := by
  rw [latest?_map, row]
  cases latest? capacity history slot <;> rfl

theorem row_congr (same : history.map (· field) = history'.map (· field)) :
    history.row capacity field slot = history'.row capacity field slot := by
  rw [row_eq_getD, row_eq_getD, same]

theorem exists_add_mod_eq (start : Nat) (inRing : slot < capacity) :
    ∃ j < capacity, (start + j) % capacity = slot := by
  have below := Nat.mod_lt start (Nat.zero_lt_of_lt inRing)
  refine ⟨(slot + (capacity - start % capacity)) % capacity, Nat.mod_lt _ (by omega), ?_⟩
  rw [Nat.add_mod_mod, ← Nat.mod_add_mod]
  have whole : start % capacity + (slot + (capacity - start % capacity)) = slot + capacity := by
    omega
  rw [whole, Nat.add_mod_right, Nat.mod_eq_of_lt inRing]

theorem row_append_congr {before before' : History}
    (same : before.length % capacity = before'.length % capacity)
    (round : capacity ≤ history.length) (inRing : slot < capacity) :
    History.row (before ++ history) capacity field slot =
      History.row (before' ++ history) capacity field slot := by
  obtain ⟨j, below, here⟩ := exists_add_mod_eq before.length inRing
  simp only [row, latest?_append_congr same (Nat.lt_of_lt_of_le below round) here]

/-- A history of a given length that shows the same rows as another. -/
def unrolled (history : History) (capacity length : Nat) : History :=
  (List.range length).map fun r field => history.row capacity field (r % capacity)

@[simp] theorem length_unrolled (history : History) (capacity length : Nat) :
    (history.unrolled capacity length).length = length := by
  simp [unrolled]

theorem row_unrolled (history : History) (inRing : slot < capacity) {length : Nat}
    (round : capacity ≤ length) (field : Field) :
    (history.unrolled capacity length).row capacity field slot =
      history.row capacity field slot := by
  rw [row, unrolled,
    latest?_map_range (fun slot field => history.row capacity field slot) inRing (by omega)]

theorem row_unrolled_append {records last : History} {count : Nat}
    (length : records.length = count) (round : capacity ≤ count)
    (same : last.map (· field) = (records.drop (count - capacity)).map (· field))
    (inRing : slot < capacity) :
    History.row (history.unrolled capacity (history.length + count) ++ last) capacity field slot =
      History.row (history ++ records) capacity field slot :=
  calc
    _ = History.row (history.unrolled capacity (history.length + count) ++
          records.drop (count - capacity)) capacity field slot := by
      apply row_congr
      rw [List.map_append, List.map_append, same]
    _ = History.row (history ++ records.take (count - capacity) ++
          records.drop (count - capacity)) capacity field slot := by
      apply row_append_congr _ _ inRing
      · have : history.length + count = history.length + (count - capacity) + capacity := by omega
        rw [length_unrolled, this, Nat.add_mod_right]
        simp [length]
      · rw [List.length_drop]
        omega
    _ = _ := by rw [List.append_assoc, List.take_append_drop]

end History

/-! ## Rings -/

theorem Column.Holds.eq {column other : Column} {capacity : Nat} {history history' : History}
    (holds : column.Holds capacity history) (holds' : other.Holds capacity history')
    (field : column.field = other.field)
    (rows : ∀ slot < capacity,
      history.row capacity column.field slot = history'.row capacity column.field slot) :
    column = other := by
  obtain ⟨columnField, columnRows⟩ := column
  obtain ⟨otherField, otherRows⟩ := other
  obtain rfl : columnField = otherField := field
  congr 1
  apply Array.ext_getElem?
  intro slot
  by_cases below : slot < capacity
  · exact (holds.rows slot below).trans ((congrArg some (rows slot below)).trans
      (holds'.rows slot below).symm)
  · have size : columnRows.size = capacity := holds.size
    have size' : otherRows.size = capacity := holds'.size
    rw [Array.getElem?_eq_none (by omega), Array.getElem?_eq_none (by omega)]

theorem eq_of_map_eq {α β : Type} {f : α → β} {items others : List α}
    (same : items.map f = others.map f)
    (inj : ∀ item ∈ items, ∀ other ∈ others, f item = f other → item = other) :
    items = others := by
  induction items generalizing others with
  | nil => simpa [eq_comm] using same
  | cons item items ih =>
    cases others with
    | nil => simp at same
    | cons other others =>
      obtain ⟨head, tail⟩ := List.cons.inj same
      rw [inj item List.mem_cons_self other List.mem_cons_self head,
        ih tail fun item mem other mem' =>
          inj item (List.mem_cons_of_mem _ mem) other (List.mem_cons_of_mem _ mem')]

namespace RecordRing

variable {ring other : RecordRing} {layout : Layout} {history history' : History}

theorem Holds.eq (holds : ring.Holds layout history) (holds' : other.Holds layout history')
    (cursor : history.length % layout.capacity = history'.length % layout.capacity)
    (size : min history.length layout.capacity = min history'.length layout.capacity)
    (rows : ∀ field ∈ layout.schema, ∀ slot < layout.capacity,
      history.row layout.capacity field slot = history'.row layout.capacity field slot) :
    ring = other := by
  have columns : ring.columns = other.columns := by
    apply eq_of_map_eq (holds.schema_eq.trans holds'.schema_eq.symm)
    intro column mem column' mem' field
    exact (holds.columns column mem).eq (holds'.columns column' mem') field
      (rows column.field (holds.field_mem mem))
  have capacities := holds.capacity_eq.trans holds'.capacity_eq.symm
  have cursors := holds.cursor_eq.trans (cursor.trans holds'.cursor_eq.symm)
  have sizes := holds.size_eq.trans (size.trans holds'.size_eq.symm)
  have nexts := holds.nextStates_eq.trans holds'.nextStates_eq.symm
  cases ring
  cases other
  simp_all

theorem Holds.eq_of_map_eq (holds : ring.Holds layout history)
    (holds' : other.Holds layout history') (length : history.length = history'.length)
    (same : ∀ field ∈ layout.schema, history.map (· field) = history'.map (· field)) :
    ring = other :=
  holds.eq holds' (by rw [length]) (by rw [length]) fun field mem _ _ =>
    History.row_congr (same field mem)

theorem Layout.shown_append (layout : Layout) (history : History) (slots others : List Nat)
    {field : Field} (mem : field ∈ layout.schema) :
    layout.shown history (slots ++ others) field =
      (layout.shown history slots field).map fun entry => (entry.1, entry.2 ++
        ((Records.ofList (layout.schema.flatMap (layout.shown history others))).get?
          entry.1).getD []) := by
  have found (entry : String × List Binary32) (there : entry ∈ layout.shown history others field) :
      (Records.ofList (layout.schema.flatMap (layout.shown history others))).get? entry.1 =
        some entry.2 :=
    Records.get?_ofList (layout.distinct_shown history others)
      (List.mem_flatMap.2 ⟨field, mem, there⟩)
  -- no other field is shown under these names, so each finds its own values
  have own := found (field.name, _) List.mem_cons_self
  unfold Layout.shown at own ⊢
  by_cases states : layout.nextStates ∧ field.isState
  · have following := found (Field.nextStateName field.name, _) (by
      unfold Layout.shown
      rw [if_pos states]
      exact List.mem_cons_of_mem _ List.mem_cons_self)
    unfold Layout.shown at following
    simp only [if_pos states, List.map_cons, List.map_nil] at own following ⊢
    rw [own, following]
    simp
  · simp only [if_neg states, List.map_cons, List.map_nil] at own ⊢
    rw [own]
    simp

theorem Holds.read_append (holds : ring.Holds layout history) {slots others : List Nat}
    (below : ∀ slot ∈ slots, slot < layout.capacity)
    (below' : ∀ slot ∈ others, slot < layout.capacity) :
    ∃ records more, ring.read slots = .ok records ∧ ring.read others = .ok more ∧
      ring.read (slots ++ others) = .ok (records ++ more) := by
  refine ⟨_, _, holds.read below, holds.read below', ?_⟩
  rw [holds.read (List.forall_mem_append.2 ⟨below, below'⟩)]
  change _ = Except.ok ((Records.ofList _).mapValues _)
  rw [Records.mapValues_ofList, List.map_flatMap]
  congr 2
  exact List.flatMap_congr fun field mem => layout.shown_append history slots others mem

def slotsFrom (capacity start count : Nat) : List Nat :=
  (List.range count).map fun j => (start + j) % capacity

theorem slotsFrom_add (capacity start m n : Nat) :
    slotsFrom capacity start (m + n) =
      slotsFrom capacity start m ++ slotsFrom capacity (start + m) n := by
  simp [slotsFrom, List.range_add, Function.comp_def, Nat.add_assoc]

theorem mem_slotsFrom_iff {capacity start count slot : Nat} (positive : 0 < capacity)
    (round : capacity ≤ count) : slot ∈ slotsFrom capacity start count ↔ slot < capacity := by
  rw [slotsFrom, List.mem_map]
  constructor
  · rintro ⟨j, _, rfl⟩
    exact Nat.mod_lt _ positive
  · intro inRing
    obtain ⟨j, below, here⟩ := History.exists_add_mod_eq start inRing
    exact ⟨j, List.mem_range.2 (Nat.lt_of_lt_of_le below round), here⟩

theorem Holds.insert_append (holds : ring.Holds layout history) {a b : Records} {m n : Nat}
    (fitsA : Schema.Fits layout.schema a m) (fitsB : Schema.Fits layout.schema b n) :
    ∃ middle next,
      ring.insert a = .ok (slotsFrom layout.capacity history.length m, middle) ∧
      middle.insert b = .ok (slotsFrom layout.capacity (history.length + m) n, next) ∧
      ring.insert (a ++ b) = .ok (slotsFrom layout.capacity history.length (m + n), next) := by
  obtain ⟨middle, insertedA, holdsA⟩ := holds.insert_of_fits fitsA
  obtain ⟨next, insertedB, holdsB⟩ := holdsA.insert_of_fits fitsB
  obtain ⟨next', inserted, holds'⟩ := holds.insert_of_fits (fitsA.append fitsB)
  rw [List.length_append, Records.length_toHistory] at insertedB
  refine ⟨middle, next, insertedA, insertedB, ?_⟩
  have same : next' = next := by
    apply holds'.eq_of_map_eq holdsB
    · simp
    · intro field mem
      rw [List.map_append, fitsA.map_toHistory_append fitsB mem, ← List.map_append,
        List.append_assoc]
  rw [← same]
  exact inserted

/-- Where a batch goes once round, the size before does not matter. -/
theorem insert_resized {batch : Records} {count : Nat} {slots : List Nat} {next : RecordRing}
    (counted : ring.batchLength batch = .ok count) (round : ring.capacity ≤ count)
    (inserted : ring.insert batch = .ok (slots, next)) (size : Nat) :
    ({ ring with size } : RecordRing).insert batch = .ok (slots, next) := by
  have counted' : ({ ring with size } : RecordRing).batchLength batch = .ok count := counted
  have sizes : min (size + count) ring.capacity = min (ring.size + count) ring.capacity := by omega
  unfold RecordRing.insert at inserted ⊢
  rw [counted] at inserted
  rw [counted']
  simp only [bind, Except.bind, sizes]
  exact inserted

theorem Holds.moved (holds : ring.Holds layout history) {count : Nat}
    (round : layout.capacity ≤ count) :
    ({ ring with cursor := (ring.cursor + count) % layout.capacity, size := layout.capacity } :
      RecordRing).Holds layout
        (history.unrolled layout.capacity (history.length + count)) where
  capacity_eq := holds.capacity_eq
  schema_eq := holds.schema_eq
  nextStates_eq := holds.nextStates_eq
  cursor_eq := by simp [holds.cursor_eq]
  size_eq := by simp; omega
  columns column mem := by
    refine ⟨(holds.columns column mem).size, fun slot below => ?_⟩
    rw [History.row_unrolled history below (by omega)]
    exact (holds.columns column mem).rows slot below
  widths record mem field hfield := by
    obtain ⟨r, _, rfl⟩ := List.mem_map.1 mem
    exact holds.length_row hfield _

/-- Of a batch that goes round the ring only the last records matter, and where they begin. -/
theorem Holds.insert_round (holds : ring.Holds layout history) {batch : Records} {count : Nat}
    (fits : Schema.Fits layout.schema batch count) (round : layout.capacity ≤ count) :
    ∃ next, ring.insert batch = .ok (slotsFrom layout.capacity history.length count, next) ∧
      ({ ring with cursor := (ring.cursor + count) % layout.capacity } : RecordRing).insert
          (batch.dropRecords layout.schema (count - layout.capacity)) =
        .ok (slotsFrom layout.capacity (history.length + count) layout.capacity, next) := by
  have fitsLast := fits.dropRecords layout.sound.distinct (count - layout.capacity)
  have rest : count - (count - layout.capacity) = layout.capacity := by omega
  have moved := holds.moved round
  obtain ⟨next, inserted, shows⟩ := holds.insert_of_fits fits
  obtain ⟨next', inserted', shows'⟩ := moved.insert_of_fits fitsLast
  rw [History.length_unrolled, rest] at inserted'
  -- the moved ring holds another history, of which nothing shows after a round
  have same : next' = next := by
    refine shows'.eq shows ?_ ?_ fun field mem slot below => ?_
    · simp [rest]
    · simp
      omega
    · have last :=
        fits.map_toHistory_dropRecords layout.sound.distinct (count - layout.capacity) mem
      exact History.row_unrolled_append (Records.length_toHistory batch count) round last below
  rw [same] at inserted'
  have counted :=
    (Schema.batchLength_eq_ok_iff layout.sound.nonempty layout.sound.dim_pos).2 fitsLast
  rw [← moved.batchLength_eq, rest] at counted
  exact ⟨next, inserted,
    insert_resized counted (Nat.le_of_eq moved.capacity_eq) inserted' ring.size⟩

end RecordRing

end ExperienceReplay
