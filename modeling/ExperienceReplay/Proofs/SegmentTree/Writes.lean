import ExperienceReplay.Proofs.SegmentTree.Combined
import Mathlib.Data.List.Nodup

/-!
Leaves set one after the other. The last value for a leaf stays, whatever was set before it.
-/

namespace ExperienceReplay

/-- Of values given to positions one after the other, the last one for a position. -/
def lastFor? {α : Type} (entries : List (Nat × α)) (i : Nat) : Option α := entries.reverse.lookup i

section

variable {α β : Type} {entries : List (Nat × α)} {i : Nat}

theorem lastFor?_append (entries others : List (Nat × α)) (i : Nat) :
    lastFor? (entries ++ others) i = (lastFor? others i).or (lastFor? entries i) := by
  rw [lastFor?, List.reverse_append, List.lookup_append, ← lastFor?, ← lastFor?]

theorem lastFor?_cons (entry : Nat × α) (rest : List (Nat × α)) (i : Nat) :
    lastFor? (entry :: rest) i =
      (lastFor? rest i).or (if entry.1 = i then some entry.2 else none) := by
  rw [← List.singleton_append, lastFor?_append, lastFor?.eq_def [entry], List.reverse_singleton,
    List.lookup_cons]
  by_cases same : i = entry.1
  · simp [same]
  · simp [beq_false_of_ne same, Ne.symm same]

theorem mem_of_lastFor? {value : α} (last : lastFor? entries i = some value) :
    (i, value) ∈ entries := by
  obtain ⟨before, after, split, _⟩ := List.lookup_eq_some_iff.1 last
  rw [← List.mem_reverse, split]
  exact List.mem_append_right before List.mem_cons_self

theorem lastFor?_eq_none_iff : lastFor? entries i = none ↔ i ∉ entries.map Prod.fst := by
  rw [lastFor?, List.lookup_eq_none_iff, List.mem_map]
  constructor
  · rintro other ⟨entry, mem, rfl⟩
    exact bne_iff_ne.1 (other entry (List.mem_reverse.2 mem)) rfl
  · exact fun fresh entry mem =>
      bne_iff_ne.2 fun same => fresh ⟨entry, List.mem_reverse.1 mem, same.symm⟩

theorem lastFor?_eq_some_iff (distinct : (entries.map Prod.fst).Nodup) {value : α} :
    lastFor? entries i = some value ↔ (i, value) ∈ entries := by
  refine ⟨mem_of_lastFor?, fun mem => ?_⟩
  cases last : lastFor? entries i with
  | none => exact absurd (List.mem_map.2 ⟨_, mem, rfl⟩) (lastFor?_eq_none_iff.1 last)
  | some other =>
    have same := List.inj_on_of_nodup_map distinct (mem_of_lastFor? last) mem rfl
    exact congrArg some (Prod.mk.inj same).2

theorem lastFor?_perm {others : List (Nat × α)} (perm : entries.Perm others)
    (distinct : (entries.map Prod.fst).Nodup) (i : Nat) :
    lastFor? entries i = lastFor? others i := by
  have distinct' := (perm.map Prod.fst).nodup_iff.1 distinct
  ext value
  rw [lastFor?_eq_some_iff distinct, lastFor?_eq_some_iff distinct', perm.mem_iff]

theorem lastFor?_map (f : α → β) (entries : List (Nat × α)) (i : Nat) :
    lastFor? (entries.map fun entry => (entry.1, f entry.2)) i = (lastFor? entries i).map f := by
  induction entries with
  | nil => rfl
  | cons entry rest ih =>
    rw [List.map_cons, lastFor?_cons, lastFor?_cons, ih]
    cases lastFor? rest i with
    | some value => rfl
    | none => split <;> rfl

theorem lastFor?_const (slots : List Nat) (value : α) (i : Nat) :
    lastFor? (slots.map (·, value)) i = if i ∈ slots then some value else none := by
  induction slots with
  | nil => rfl
  | cons slot rest ih =>
    rw [List.map_cons, lastFor?_cons, ih]
    by_cases there : i ∈ rest
    · simp [there]
    · simp [there, eq_comm]

end

namespace SegmentTree

variable {α : Type} {op : Operation α}

def writeAll (tree : SegmentTree op) (entries : List (Nat × α)) : SegmentTree op :=
  entries.foldl (fun tree entry => tree.write entry.1 entry.2 .replace) tree

@[simp] theorem height_writeAll (tree : SegmentTree op) (entries : List (Nat × α)) :
    (tree.writeAll entries).height = tree.height := by
  induction entries generalizing tree with
  | nil => rfl
  | cons entry rest ih => exact ih (tree.write entry.1 entry.2 .replace)

@[simp] theorem size_writeAll (tree : SegmentTree op) (entries : List (Nat × α)) :
    (tree.writeAll entries).size = tree.size :=
  congrArg (2 ^ ·) (tree.height_writeAll entries)

theorem combined_writeAll {tree : SegmentTree op} (combined : tree.root.Combined op)
    (entries : List (Nat × α)) : (tree.writeAll entries).root.Combined op := by
  induction entries generalizing tree with
  | nil => exact combined
  | cons entry rest ih => exact ih (combined.modify _ entry.1)

theorem get_writeAll {tree : SegmentTree op} {entries : List (Nat × α)} {i : Nat}
    (inside : ∀ entry ∈ entries, entry.1 < tree.size) (below : i < tree.size) :
    (tree.writeAll entries).root.get i = (lastFor? entries i).getD (tree.root.get i) := by
  induction entries generalizing tree with
  | nil => rfl
  | cons entry rest ih =>
    obtain ⟨here, inside⟩ := List.forall_mem_cons.1 inside
    have later : ((tree.write entry.1 entry.2 .replace).writeAll rest).root.get i = _ :=
      ih inside below
    change ((tree.write entry.1 entry.2 .replace).writeAll rest).root.get i = _
    rw [later, get_write_replace tree entry.2 here below, lastFor?_cons]
    cases lastFor? rest i with
    | some value => rfl
    | none => split <;> rfl

theorem forall_mem_leaves_writeAll {Holds : α → Prop} {tree : SegmentTree op}
    {entries : List (Nat × α)} (leaves : ∀ leaf ∈ tree.leaves, Holds leaf)
    (values : ∀ entry ∈ entries, Holds entry.2) :
    ∀ leaf ∈ (tree.writeAll entries).leaves, Holds leaf := by
  induction entries generalizing tree with
  | nil => exact leaves
  | cons entry rest ih =>
    obtain ⟨here, values⟩ := List.forall_mem_cons.1 values
    exact ih (PerfectTree.forall_mem_leaves_modify leaves (fun _ => here) entry.1) values

theorem leaf_writeAll_of_last {tree : SegmentTree op} {entries : List (Nat × α)} {i : Nat}
    (inside : ∀ entry ∈ entries, entry.1 < tree.size) {value : α}
    (last : lastFor? entries i = some value) : (tree.writeAll entries).leaf i = .ok value := by
  have below := inside _ (mem_of_lastFor? last)
  rw [leaf_eq_ok (by rwa [size_writeAll]), get_writeAll inside below, last]
  rfl

theorem leaf_writeAll_of_fresh {tree : SegmentTree op} {entries : List (Nat × α)} {i : Nat}
    (inside : ∀ entry ∈ entries, entry.1 < tree.size) (fresh : lastFor? entries i = none) :
    (tree.writeAll entries).leaf i = tree.leaf i := by
  unfold leaf checkIndex
  rw [size_writeAll]
  split
  next below => rw [get_writeAll inside below, fresh, Option.getD_none]
  next => rfl

theorem writeAll_congr {tree : SegmentTree op} (combined : tree.root.Combined op)
    {entries others : List (Nat × α)} (inside : ∀ entry ∈ entries, entry.1 < tree.size)
    (inside' : ∀ entry ∈ others, entry.1 < tree.size)
    (same : ∀ i, lastFor? entries i = lastFor? others i) :
    tree.writeAll entries = tree.writeAll others := by
  apply eq_of_get_eq (combined_writeAll combined entries) (combined_writeAll combined others)
    (by simp)
  intro i below
  rw [size_writeAll] at below
  rw [get_writeAll inside below, get_writeAll inside' below, same]

end SegmentTree

end ExperienceReplay
