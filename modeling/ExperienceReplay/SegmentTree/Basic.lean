import ExperienceReplay.SegmentTree.Perfect
import ExperienceReplay.Binary32.Arithmetic
import ExperienceReplay.Error

/-!
Segment trees: a row of leaves under an operation, with the combination of every aligned block kept
at hand. A sum tree finds the leaf at which the running sum first exceeds a target.
-/

namespace ExperienceReplay

/-- The least power of two that is at least `n`, as its exponent. -/
def ceilLog2 (n : Nat) : Nat := if n ≤ 1 then 0 else (n - 1).log2 + 1

inductive WriteMode where
  | replace
  | accumulate
deriving DecidableEq

/-- The leaves number a power of two; their positions begin at zero. -/
structure SegmentTree {α : Type} (op : Operation α) where
  height : Nat
  root : PerfectTree α height

namespace SegmentTree

variable {α : Type} {op : Operation α}

def ofCapacity (op : Operation α) (capacity : Nat) : SegmentTree op :=
  ⟨ceilLog2 capacity, .replicate op.neutral _⟩

def size (tree : SegmentTree op) : Nat := 2 ^ tree.height

def leaves (tree : SegmentTree op) : List α := tree.root.leaves

def total (tree : SegmentTree op) : α := tree.root.value

def checkIndex (tree : SegmentTree op) (i : Nat) : Except Error Unit :=
  if i < tree.size then .ok () else .error (.indexOutOfRange i tree.size)

def leaf (tree : SegmentTree op) (i : Nat) : Except Error α := do
  tree.checkIndex i
  return tree.root.get i

def written (op : Operation α) (mode : WriteMode) (value old : α) : α :=
  match mode with
  | .replace => value
  | .accumulate => op.combine old value

def update (tree : SegmentTree op) (i : Nat) (value : α) (mode : WriteMode) :
    Except Error (SegmentTree op) := do
  tree.checkIndex i
  return { tree with root := tree.root.modify op (written op mode value) i }

/-- The combination of the leaves from `start` to `limit`, both included. An empty range gives the
neutral value; only `limit` is checked. -/
def reduce (tree : SegmentTree op) (start limit : Nat) : Except Error α := do
  tree.checkIndex limit
  if limit < start then return op.neutral
  return tree.root.foldRange op start (limit + 1)

end SegmentTree

def Operation.sum : Operation Binary32 := ⟨0, (· + ·)⟩

def Operation.min : Operation Binary32 := ⟨.infinity, Binary32.lesser⟩

abbrev SumTree : Type := SegmentTree Operation.sum

abbrev MinTree : Type := SegmentTree Operation.min

def PerfectTree.descend : {height : Nat} → Binary32 → PerfectTree Binary32 height → Nat
  | _, _, .leaf _ => 0
  | height + 1, target, .node _ left right =>
    if target < left.value then left.descend target
    else 2 ^ height + right.descend (target - left.value)

/-- The leaf at which the running sum of the leaves first exceeds the target. -/
def SegmentTree.indexOfPrefixSum (tree : SumTree) (target : Binary32) : Except Error Nat :=
  if ¬(0 < tree.total ∧ tree.total.isFinite) then .error (.degeneratePriority tree.total)
  else if ¬(0 ≤ target ∧ target < tree.total) then
    .error (.prefixSumOutOfRange target tree.total)
  else .ok (tree.root.descend target)

/-- How leaves are shown: a number has a fraction, if only of zero, or else an exponent, which very
large and very small numbers get. -/
def SegmentTree.leafStyle : Decimal.Style where
  tie := .up
  positionalPoints := some (-4, 16)
  whole := ".0"
  nan := "NaN"
  infinity := "inf"

def SegmentTree.describe {op : Operation Binary32} (tree : SegmentTree op) : String :=
  "SegmentTree \x7b capacity: " ++ tree.size.repr ++ ", leaves: [" ++
    ", ".intercalate (tree.leaves.map leafStyle.write) ++ "] \x7d"

end ExperienceReplay
