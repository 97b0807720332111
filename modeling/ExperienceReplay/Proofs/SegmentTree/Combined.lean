import ExperienceReplay.SegmentTree.Basic

/-!
Trees in which every node holds the combination of the nodes below it. Writing a leaf changes that
leaf alone and keeps the nodes combined, whatever the operation is.
-/

namespace ExperienceReplay

namespace PerfectTree

variable {α : Type} {op : Operation α} {height : Nat}

/-- Every node holds the combination of its children. -/
def Combined (op : Operation α) : {height : Nat} → PerfectTree α height → Prop
  | _, .leaf _ => True
  | _, .node v left right =>
    v = op.combine left.value right.value ∧ left.Combined op ∧ right.Combined op

theorem value_replicate (v : α) (height : Nat) : (replicate v height).value = v := by
  cases height <;> rfl

theorem combined_replicate {v : α} (neutral : op.combine v v = v) (height : Nat) :
    (replicate v height).Combined op := by
  induction height with
  | zero => trivial
  | succ height ih =>
    refine ⟨?_, ih, ih⟩
    rw [value_replicate, neutral]

theorem Combined.modify {tree : PerfectTree α height} (combined : tree.Combined op)
    (change : α → α) (i : Nat) : (tree.modify op change i).Combined op := by
  induction tree generalizing i with
  | leaf v => trivial
  | node v left right ihl ihr =>
    obtain ⟨_, onLeft, onRight⟩ := combined
    unfold PerfectTree.modify
    split
    · exact ⟨rfl, ihl onLeft i, onRight⟩
    · exact ⟨rfl, onLeft, ihr onRight _⟩

theorem get_node_left (v : α) (left right : PerfectTree α height) {i : Nat} (h : i < 2 ^ height) :
    (node v left right).get i = left.get i :=
  if_pos h

theorem get_node_right (v : α) (left right : PerfectTree α height) (i : Nat) :
    (node v left right).get (2 ^ height + i) = right.get i := by
  rw [get, if_neg (by omega), Nat.add_sub_cancel_left]

theorem get_replicate (v : α) (height i : Nat) : (replicate v height).get i = v := by
  induction height generalizing i with
  | zero => rfl
  | succ height ih =>
    unfold replicate get
    split
    · exact ih i
    · exact ih _

theorem get_modify (change : α → α) {i j : Nat} (tree : PerfectTree α height)
    (hi : i < 2 ^ height) (hj : j < 2 ^ height) :
    (tree.modify op change i).get j = if i = j then change (tree.get i) else tree.get j := by
  have changed := getElem?_leaves (tree.modify op change i) hj
  rw [leaves_modify op change tree hi, List.getElem?_modify, getElem?_leaves tree hj] at changed
  split
  next equal =>
    subst equal
    simpa [eq_comm] using changed
  next different => simpa [different, eq_comm] using changed

theorem Combined.eq_of_leaves_eq {tree other : PerfectTree α height} (combined : tree.Combined op)
    (combined' : other.Combined op) (same : tree.leaves = other.leaves) : tree = other := by
  induction tree with
  | leaf v =>
    cases other with
    | leaf w => simpa [leaves] using same
  | node v left right ihl ihr =>
    cases other with
    | node w left' right' =>
      obtain ⟨rfl, onLeft, onRight⟩ := combined
      obtain ⟨rfl, onLeft', onRight'⟩ := combined'
      obtain ⟨sameLeft, sameRight⟩ := List.append_inj same (by simp)
      rw [ihl onLeft onLeft' sameLeft, ihr onRight onRight' sameRight]

theorem leaves_eq_of_get_eq {tree other : PerfectTree α height}
    (same : ∀ i < 2 ^ height, tree.get i = other.get i) : tree.leaves = other.leaves := by
  apply List.ext_getElem?
  intro i
  by_cases inside : i < 2 ^ height
  · rw [getElem?_leaves tree inside, getElem?_leaves other inside, same i inside]
  · rw [List.getElem?_eq_none (by simpa using inside), List.getElem?_eq_none (by simpa using inside)]

theorem mem_leaves_iff {tree : PerfectTree α height} {value : α} :
    value ∈ tree.leaves ↔ ∃ i < 2 ^ height, tree.get i = value := by
  rw [List.mem_iff_getElem?]
  constructor
  · rintro ⟨i, found⟩
    have inside : i < 2 ^ height := by simpa using (List.getElem?_eq_some_iff.1 found).1
    rw [getElem?_leaves tree inside] at found
    exact ⟨i, inside, Option.some.inj found⟩
  · rintro ⟨i, inside, rfl⟩
    exact ⟨i, getElem?_leaves tree inside⟩

theorem forall_mem_leaves_modify {Holds : α → Prop} {change : α → α} {tree : PerfectTree α height}
    (leaves : ∀ leaf ∈ tree.leaves, Holds leaf) (changed : ∀ value, Holds (change value)) (i : Nat) :
    ∀ leaf ∈ (tree.modify op change i).leaves, Holds leaf := by
  induction tree generalizing i with
  | leaf v => simpa [modify, PerfectTree.leaves] using changed v
  | node v left right ihl ihr =>
    obtain ⟨onLeft, onRight⟩ := List.forall_mem_append.1 leaves
    unfold PerfectTree.modify
    split
    · exact List.forall_mem_append.2 ⟨ihl onLeft i, onRight⟩
    · exact List.forall_mem_append.2 ⟨onLeft, ihr onRight _⟩

end PerfectTree

theorem le_two_pow_ceilLog2 (n : Nat) : n ≤ 2 ^ ceilLog2 n := by
  unfold ceilLog2
  split
  · simpa
  · have : n - 1 < 2 ^ ((n - 1).log2 + 1) := Nat.lt_log2_self
    omega

theorem ceilLog2_le {n k : Nat} (h : n ≤ 2 ^ k) : ceilLog2 n ≤ k := by
  unfold ceilLog2
  split
  · exact Nat.zero_le k
  · exact (Nat.log2_lt (by omega)).2 (by omega)

namespace SegmentTree

variable {α : Type} {op : Operation α}

def write (tree : SegmentTree op) (i : Nat) (value : α) (mode : WriteMode) : SegmentTree op :=
  { tree with root := tree.root.modify op (written op mode value) i }

theorem update_eq_ok {tree : SegmentTree op} {i : Nat} (inside : i < tree.size) (value : α)
    (mode : WriteMode) : tree.update i value mode = .ok (tree.write i value mode) := by
  unfold update checkIndex
  rw [if_pos inside]
  rfl

theorem leaf_eq_ok {tree : SegmentTree op} {i : Nat} (inside : i < tree.size) :
    tree.leaf i = .ok (tree.root.get i) := by
  unfold leaf checkIndex
  rw [if_pos inside]
  rfl

theorem reduce_zero {tree : SegmentTree op} {limit : Nat} (inside : limit < tree.size) :
    tree.reduce 0 limit = .ok (tree.root.foldRange op 0 (limit + 1)) := by
  unfold reduce checkIndex
  rw [if_pos inside]
  rfl

theorem get_write_replace (tree : SegmentTree op) {i j : Nat} (value : α) (hi : i < tree.size)
    (hj : j < tree.size) :
    (tree.write i value .replace).root.get j = if i = j then value else tree.root.get j :=
  PerfectTree.get_modify _ tree.root hi hj

theorem eq_of_leaves_eq {tree other : SegmentTree op} (combined : tree.root.Combined op)
    (combined' : other.root.Combined op) (same : tree.leaves = other.leaves) : tree = other := by
  obtain ⟨height, root⟩ := tree
  obtain ⟨height', root'⟩ := other
  have lengths : root.leaves.length = root'.leaves.length := congrArg List.length same
  rw [PerfectTree.length_leaves, PerfectTree.length_leaves] at lengths
  obtain rfl : height = height' := Nat.pow_right_inj (by decide) |>.1 lengths
  exact congrArg (mk height) (PerfectTree.Combined.eq_of_leaves_eq combined combined' same)

theorem eq_of_get_eq {tree other : SegmentTree op} (combined : tree.root.Combined op)
    (combined' : other.root.Combined op) (size : tree.size = other.size)
    (same : ∀ i < tree.size, tree.root.get i = other.root.get i) : tree = other := by
  apply eq_of_leaves_eq combined combined'
  obtain ⟨height, root⟩ := tree
  obtain ⟨height', root'⟩ := other
  obtain rfl : height = height' := Nat.pow_right_inj (by decide) |>.1 size
  exact PerfectTree.leaves_eq_of_get_eq same

end SegmentTree

end ExperienceReplay
