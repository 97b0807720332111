/-!
Perfect binary trees with a value at every node. Updating a leaf recomputes the nodes above it and
no others, and the fold of a range of leaves visits only the largest subtrees inside it. Main
statements: what reading and changing a leaf mean for the row of leaves.
-/

namespace ExperienceReplay

/-- A binary operation with the value that stands for an empty fold. -/
structure Operation (α : Type) where
  neutral : α
  combine : α → α → α

/-- A tree with `2 ^ height` leaves. -/
inductive PerfectTree (α : Type) : Nat → Type where
  | leaf (value : α) : PerfectTree α 0
  | node {height : Nat} (value : α) (left right : PerfectTree α height) :
    PerfectTree α (height + 1)

namespace PerfectTree

variable {α : Type}

def value : {height : Nat} → PerfectTree α height → α
  | _, .leaf v => v
  | _, .node v _ _ => v

def replicate (v : α) : (height : Nat) → PerfectTree α height
  | 0 => .leaf v
  | height + 1 => .node v (replicate v height) (replicate v height)

def join (op : Operation α) {height : Nat} (left right : PerfectTree α height) :
    PerfectTree α (height + 1) :=
  .node (op.combine left.value right.value) left right

def leaves : {height : Nat} → PerfectTree α height → List α
  | _, .leaf v => [v]
  | _, .node _ left right => left.leaves ++ right.leaves

/-- The leaf at a position; positions beyond the last leaf count as the last leaf. -/
def get : {height : Nat} → Nat → PerfectTree α height → α
  | _, _, .leaf v => v
  | height + 1, i, .node _ left right =>
    if i < 2 ^ height then left.get i else right.get (i - 2 ^ height)

/-- Changes a leaf and recomputes the nodes above it. -/
def modify (op : Operation α) (change : α → α) :
    {height : Nat} → Nat → PerfectTree α height → PerfectTree α height
  | _, _, .leaf v => .leaf (change v)
  | height + 1, i, .node _ left right =>
    if i < 2 ^ height then join op (left.modify op change i) right
    else join op left (right.modify op change (i - 2 ^ height))

/-- The fold of all leaves but the first `skip`, where `0 < skip`: right children, taken from the
smallest to the largest. -/
def foldFrom (op : Operation α) : {height : Nat} → Nat → PerfectTree α height → α
  | _, _, .leaf _ => op.neutral
  | height + 1, skip, .node _ left right =>
    if skip ≤ 2 ^ height then op.combine (left.foldFrom op skip) right.value
    else right.foldFrom op (skip - 2 ^ height)

/-- The fold of the first `count` leaves, where not all are taken: left children, combined from the
smallest to the largest. -/
def foldUpTo (op : Operation α) : {height : Nat} → Nat → PerfectTree α height → α
  | _, _, .leaf _ => op.neutral
  | height + 1, count, .node _ left right =>
    if count < 2 ^ height then left.foldUpTo op count
    else op.combine left.value (right.foldUpTo op (count - 2 ^ height))

/-- The leaves from `start` up to `stop`, not all of them, as the fold of a run that ends a subtree
and of a run that begins the next one. -/
def foldParts (op : Operation α) : {height : Nat} → Nat → Nat → PerfectTree α height → α × α
  | _, _, _, .leaf _ => (op.neutral, op.neutral)
  | height + 1, start, stop, .node v left right =>
    let half := 2 ^ height
    if start = 0 then (op.neutral, foldUpTo op stop (.node v left right))
    else if stop = 2 ^ (height + 1) then (foldFrom op start (.node v left right), op.neutral)
    else if stop ≤ half then left.foldParts op start stop
    else if half ≤ start then right.foldParts op (start - half) (stop - half)
    else (left.foldFrom op start, right.foldUpTo op (stop - half))

/-- The fold of the leaves from `start` up to, and without, `stop`, where `start < stop`. -/
def foldRange (op : Operation α) {height : Nat} (start stop : Nat) (tree : PerfectTree α height) :
    α :=
  if start = 0 ∧ stop = 2 ^ height then
    op.combine (op.combine op.neutral tree.value) op.neutral
  else
    let (ending, beginning) := tree.foldParts op start stop
    op.combine ending beginning

@[simp] theorem length_leaves {height : Nat} (tree : PerfectTree α height) :
    tree.leaves.length = 2 ^ height := by
  induction tree with
  | leaf v => rfl
  | node v left right ihl ihr => simp [leaves, ihl, ihr, Nat.pow_succ]; omega

@[simp] theorem leaves_replicate (v : α) (height : Nat) :
    (replicate v height).leaves = List.replicate (2 ^ height) v := by
  induction height with
  | zero => rfl
  | succ height ih =>
    rw [replicate, leaves, ih, List.replicate_append_replicate, Nat.pow_succ, Nat.mul_two]

theorem leaves_modify (op : Operation α) (change : α → α) {height i : Nat}
    (tree : PerfectTree α height) (h : i < 2 ^ height) :
    (tree.modify op change i).leaves = tree.leaves.modify i change := by
  induction tree generalizing i with
  | leaf v =>
    obtain rfl : i = 0 := by omega
    rfl
  | @node height v left right ihl ihr =>
    simp only [modify]
    split
    next below =>
      rw [join, leaves, ihl below, leaves]
      ext1 j
      grind [length_leaves]
    next above =>
      rw [join, leaves, ihr (by omega), leaves]
      ext1 j
      grind [length_leaves]

theorem getElem?_leaves {height i : Nat} (tree : PerfectTree α height) (h : i < 2 ^ height) :
    tree.leaves[i]? = some (tree.get i) := by
  induction tree generalizing i with
  | leaf v =>
    obtain rfl : i = 0 := by omega
    rfl
  | @node height v left right ihl ihr =>
    simp only [leaves, get]
    split
    next below => rw [List.getElem?_append_left (by simpa using below), ihl below]
    next above =>
      rw [List.getElem?_append_right (by simp; omega), length_leaves, ihr (by omega)]

end PerfectTree

end ExperienceReplay
