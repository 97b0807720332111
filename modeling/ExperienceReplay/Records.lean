import ExperienceReplay.Binary32.Basic

/-!
Batches of records. A batch maps each field name to the values of that field in all its records,
one record after the other; the fields are kept in the order of their names.
-/

namespace ExperienceReplay

structure Field where
  name : String
  dim : Nat
deriving DecidableEq

namespace Field

def states : String := "states"

def nextStates : String := "next_states"

def terminals : String := "terminals"

def scalar (name : String) : Field := ⟨name, 1⟩

/-- Names of state fields: `states` and everything below `states/`. -/
def isStateName (name : String) : Bool :=
  name == states || "states/".toList.isPrefixOf name.toList

def isDerivedName (name : String) : Bool :=
  name == nextStates || "next_states/".toList.isPrefixOf name.toList

def nextStateName (name : String) : String :=
  nextStates ++ String.ofList (name.toList.drop states.length)

def isState (field : Field) : Bool := isStateName field.name

end Field

abbrev Records.InOrder {α : Type} (entries : List (String × α)) : Prop :=
  entries.Pairwise fun a b => a.1 < b.1

def Records.enter {α : Type} (name : String) (values : α) :
    List (String × α) → List (String × α)
  | [] => [(name, values)]
  | (other, old) :: rest =>
    if name < other then (name, values) :: (other, old) :: rest
    else if name = other then (name, values) :: rest
    else (other, old) :: Records.enter name values rest

theorem Records.mem_enter {α : Type} {name : String} {values : α} {entries : List (String × α)}
    {entry : String × α} (h : entry ∈ enter name values entries) :
    entry = (name, values) ∨ entry ∈ entries := by
  induction entries with
  | nil => simpa [enter] using h
  | cons head rest ih =>
    obtain ⟨other, old⟩ := head
    simp only [enter] at h
    split at h
    · simpa using h
    · split at h
      · rcases List.mem_cons.1 h with rfl | h
        · exact Or.inl rfl
        · exact Or.inr (List.mem_cons_of_mem _ h)
      · rcases List.mem_cons.1 h with rfl | h
        · exact Or.inr List.mem_cons_self
        · exact (ih h).imp_right (List.mem_cons_of_mem _)

theorem Records.inOrder_enter {α : Type} {entries : List (String × α)} (name : String)
    (values : α) (h : InOrder entries) : InOrder (enter name values entries) := by
  induction entries with
  | nil => simp [enter, InOrder]
  | cons head rest ih =>
    obtain ⟨other, old⟩ := head
    obtain ⟨above, inRest⟩ := List.pairwise_cons.1 h
    simp only [enter]
    split
    next below =>
      refine List.pairwise_cons.2 ⟨fun entry mem => ?_, h⟩
      rcases List.mem_cons.1 mem with rfl | mem
      · exact below
      · exact String.lt_trans below (above entry mem)
    next notBelow =>
      split
      next equal => exact List.pairwise_cons.2 ⟨equal ▸ above, inRest⟩
      next different =>
        refine List.pairwise_cons.2 ⟨fun entry mem => ?_, ih inRest⟩
        rcases mem_enter mem with rfl | mem
        · exact Std.lt_of_le_of_ne (Std.not_lt.1 notBelow) (Ne.symm different)
        · exact above entry mem

theorem Records.lookup_enter {α : Type} (name other : String) (values : α)
    (entries : List (String × α)) :
    (enter name values entries).lookup other =
      if other = name then some values else entries.lookup other := by
  induction entries with
  | nil => simp only [enter, List.lookup_cons, List.lookup_nil]; grind
  | cons head rest ih =>
    obtain ⟨first, old⟩ := head
    simp only [enter]
    split
    · simp only [List.lookup_cons]; grind
    · split
      · simp only [List.lookup_cons]; grind
      · simp only [List.lookup_cons]; grind

/-- Named values, ordered by name. -/
structure Records where
  entries : List (String × List Binary32)
  inOrder : Records.InOrder entries
deriving DecidableEq

namespace Records

def empty : Records := ⟨[], .nil⟩

instance : Inhabited Records := ⟨empty⟩

def insert (records : Records) (name : String) (values : List Binary32) : Records :=
  ⟨enter name values records.entries, inOrder_enter name values records.inOrder⟩

def ofList (entries : List (String × List Binary32)) : Records :=
  entries.foldl (fun records entry => records.insert entry.1 entry.2) empty

def erase (records : Records) (name : String) : Records :=
  ⟨records.entries.filter fun entry => entry.1 != name, records.inOrder.filter _⟩

def get? (records : Records) (name : String) : Option (List Binary32) :=
  records.entries.lookup name

@[simp] theorem get?_empty (name : String) : empty.get? name = none := rfl

theorem get?_insert (records : Records) (name other : String) (values : List Binary32) :
    (records.insert name values).get? other =
      if other = name then some values else records.get? other :=
  lookup_enter name other values records.entries

def contains (records : Records) (name : String) : Bool := (records.get? name).isSome

def names (records : Records) : List String := records.entries.map Prod.fst

def size (records : Records) : Nat := records.entries.length

def row? (records : Records) (name : String) (i dim : Nat) : Option (List Binary32) := do
  let values ← records.get? name
  if (i + 1) * dim ≤ values.length then some ((values.drop (i * dim)).take dim) else none

def same (a b : Records) : Bool :=
  a.names == b.names && sameValues (a.entries.map Prod.snd) (b.entries.map Prod.snd)
where
  sameList : List Binary32 → List Binary32 → Bool
    | [], [] => true
    | x :: xs, y :: ys => x.same y && sameList xs ys
    | _, _ => false
  sameValues : List (List Binary32) → List (List Binary32) → Bool
    | [], [] => true
    | x :: xs, y :: ys => sameList x y && sameValues xs ys
    | _, _ => false

end Records

end ExperienceReplay
