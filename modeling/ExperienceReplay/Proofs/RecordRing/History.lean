import ExperienceReplay.RecordRing.Basic
import Mathlib.Data.List.Induction

/-!
The history of a ring: all records it accepted, oldest first. Record `r` goes to slot
`r % capacity`, so that a slot shows the last record that went there.
-/

namespace ExperienceReplay

/-- Of items that go to the slots of a ring in turn, the last that went to a slot. -/
def latest? {α : Type} (capacity : Nat) (items : List α) (slot : Nat) : Option α :=
  ((List.range items.length).filter (· % capacity = slot)).getLast?.bind (items[·]?)

@[simp] theorem latest?_nil {α : Type} (capacity slot : Nat) :
    latest? capacity ([] : List α) slot = none := rfl

theorem latest?_concat {α : Type} (capacity : Nat) (items : List α) (item : α) (slot : Nat) :
    latest? capacity (items ++ [item]) slot =
      if items.length % capacity = slot then some item else latest? capacity items slot := by
  unfold latest?
  rw [List.length_append, List.length_singleton, List.range_succ, List.filter_append]
  split
  next here => simp [here]
  next elsewhere =>
    rw [List.filter_cons_of_neg (by simpa using elsewhere), List.filter_nil, List.append_nil]
    cases last : ((List.range items.length).filter (· % capacity = slot)).getLast? with
    | none => rfl
    | some r =>
      have : r < items.length :=
        List.mem_range.1 (List.mem_filter.1 (List.mem_of_getLast? last)).1
      exact List.getElem?_append_left this

theorem latest?_eq_some_iff {α : Type} {capacity : Nat} {items : List α} {slot : Nat} {item : α} :
    latest? capacity items slot = some item ↔
      ∃ r, items[r]? = some item ∧ r % capacity = slot ∧
        ∀ s < items.length, s % capacity = slot → s ≤ r := by
  induction items using List.reverseRecOn with
  | nil => simp
  | append_singleton items last ih =>
    rw [latest?_concat]
    split
    next here =>
      constructor
      · intro h
        refine ⟨items.length, by simpa using h, here, fun s hs _ => ?_⟩
        rw [List.length_append, List.length_singleton] at hs
        omega
      · rintro ⟨r, found, _, greatest⟩
        have below : r < (items ++ [last]).length := (List.getElem?_eq_some_iff.1 found).1
        rw [List.length_append, List.length_singleton] at below
        obtain rfl : r = items.length := by
          have := greatest items.length (by simp) here
          omega
        simpa using found
    next elsewhere =>
      rw [ih]
      constructor
      · rintro ⟨r, found, there, greatest⟩
        have below : r < items.length := (List.getElem?_eq_some_iff.1 found).1
        refine ⟨r, by rwa [List.getElem?_append_left below], there, fun s hs same => ?_⟩
        rw [List.length_append, List.length_singleton] at hs
        have : s ≠ items.length := fun equal => elsewhere (equal ▸ same)
        exact greatest s (by omega) same
      · rintro ⟨r, found, there, greatest⟩
        have below : r < (items ++ [last]).length := (List.getElem?_eq_some_iff.1 found).1
        rw [List.length_append, List.length_singleton] at below
        have : r ≠ items.length := fun equal => elsewhere (equal ▸ there)
        rw [List.getElem?_append_left (by omega)] at found
        exact ⟨r, found, there, fun s hs => greatest s (by simp; omega)⟩

/-- A record as a history keeps it: the row of each field. -/
abbrev Record : Type := Field → List Binary32

abbrev History : Type := List Record

/-- The row that a slot shows: that of the last record that went there, zeros before the first. -/
def History.row (history : History) (capacity : Nat) (field : Field) (slot : Nat) :
    List Binary32 :=
  match latest? capacity history slot with
  | some record => record field
  | none => List.replicate field.dim 0

def Records.recordAt (records : Records) (i : Nat) : Record :=
  fun field => (records.row? field.name i field.dim).getD []

def Records.toHistory (records : Records) (count : Nat) : History :=
  (List.range count).map records.recordAt

@[simp] theorem Records.length_toHistory (records : Records) (count : Nat) :
    (records.toHistory count).length = count := by
  simp [Records.toHistory]

theorem History.row_concat (history : History) (record : Record) (capacity : Nat) (field : Field)
    (slot : Nat) :
    History.row (history ++ [record]) capacity field slot =
      if history.length % capacity = slot then record field
      else History.row history capacity field slot := by
  by_cases here : history.length % capacity = slot <;> simp [History.row, latest?_concat, here]

theorem Records.recordAt_eq {records : Records} {count i : Nat} {field : Field}
    {values : List Binary32} (found : records.get? field.name = some values)
    (total : values.length = count * field.dim) (below : i < count) :
    records.recordAt i field = (values.drop (i * field.dim)).take field.dim := by
  have inside : (i + 1) * field.dim ≤ values.length := by
    rw [total]
    exact Nat.mul_le_mul_right _ below
  simp [recordAt, row?, found, inside]

end ExperienceReplay
