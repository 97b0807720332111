import ExperienceReplay.Proofs.SegmentTree.Combined
import Mathlib.Data.List.Induction

/-!
All nodes of a tree in one row: the root is node one, and the children of node `k` are the nodes
`2 * k` and `2 * k + 1`. Main statement: whatever writes were offered to an empty tree, every inner
node combines its two children, so that the leaves decide about all nodes, and a leaf holds what was
written to it since it was last replaced.
-/

namespace ExperienceReplay

namespace PerfectTree

variable {α : Type} {op : Operation α} {height : Nat}

/-- The value `depth` steps below the root, at a position counted from the left. -/
def nodeAt : {height : Nat} → Nat → Nat → PerfectTree α height → α
  | _, 0, _, tree => tree.value
  | _, _ + 1, _, .leaf v => v
  | _, depth + 1, i, .node _ left right =>
    if i < 2 ^ depth then left.nodeAt depth i else right.nodeAt depth (i - 2 ^ depth)

@[simp] theorem nodeAt_zero (tree : PerfectTree α height) (i : Nat) :
    tree.nodeAt 0 i = tree.value := by
  cases tree <;> rfl

theorem nodeAt_eq_get (tree : PerfectTree α height) (i : Nat) :
    tree.nodeAt height i = tree.get i := by
  induction tree generalizing i with
  | leaf v => rfl
  | node v left right ihl ihr => simp only [nodeAt, get, ihl, ihr]

theorem Combined.nodeAt_eq {tree : PerfectTree α height} (combined : tree.Combined op)
    {depth i : Nat} (inner : depth < height) (inside : i < 2 ^ depth) :
    tree.nodeAt depth i =
      op.combine (tree.nodeAt (depth + 1) (2 * i)) (tree.nodeAt (depth + 1) (2 * i + 1)) := by
  induction tree generalizing depth i with
  | leaf v => omega
  | @node height v left right ihl ihr =>
    obtain ⟨value, onLeft, onRight⟩ := combined
    cases depth with
    | zero =>
      obtain rfl : i = 0 := by omega
      simpa [nodeAt, PerfectTree.value] using value
    | succ depth =>
      have double : 2 ^ (depth + 1) = 2 * 2 ^ depth := Nat.pow_succ'
      by_cases inLeft : i < 2 ^ depth
      · have := ihl onLeft (by omega) inLeft
        rw [nodeAt, if_pos inLeft, this, nodeAt, nodeAt, if_pos (by omega), if_pos (by omega)]
      · have := ihr onRight (by omega : depth < height) (by omega : i - 2 ^ depth < 2 ^ depth)
        rw [nodeAt, if_neg inLeft, this, nodeAt, nodeAt, if_neg (by omega), if_neg (by omega)]
        congr 2 <;> omega

def bracket (op : Operation α) : Nat → List α → α
  | 0, values => values.headD op.neutral
  | height + 1, values =>
    op.combine (bracket op height (values.take (2 ^ height)))
      (bracket op height (values.drop (2 ^ height)))

theorem Combined.value_eq_bracket {tree : PerfectTree α height} (combined : tree.Combined op) :
    tree.value = bracket op height tree.leaves := by
  induction tree with
  | leaf v => rfl
  | node v left right ihl ihr =>
    obtain ⟨rfl, onLeft, onRight⟩ := combined
    rw [bracket, leaves, List.take_left' (length_leaves left), List.drop_left' (length_leaves left),
      ← ihl onLeft, ← ihr onRight]
    rfl

end PerfectTree

namespace SegmentTree

variable {α : Type} {op : Operation α}

/-- Node `k`, counted row by row from the root, which is node one. -/
def node (tree : SegmentTree op) (k : Nat) : α := tree.root.nodeAt k.log2 (k - 2 ^ k.log2)

/-- The nodes in one row. No tree uses the place of node zero. -/
def nodes (tree : SegmentTree op) : List α :=
  op.neutral :: (List.range (2 * tree.size - 1)).map fun k => tree.node (k + 1)

theorem log2_two_pow_add {depth i : Nat} (h : i < 2 ^ depth) : (2 ^ depth + i).log2 = depth := by
  rw [Nat.log2_eq_iff (by have := Nat.two_pow_pos depth; omega), Nat.pow_succ]
  omega

theorem node_two_pow_add (tree : SegmentTree op) {depth i : Nat} (h : i < 2 ^ depth) :
    tree.node (2 ^ depth + i) = tree.root.nodeAt depth i := by
  rw [node, log2_two_pow_add h, Nat.add_sub_cancel_left]

theorem node_one (tree : SegmentTree op) : tree.node 1 = tree.total :=
  tree.root.nodeAt_zero 0

theorem node_size_add (tree : SegmentTree op) {i : Nat} (inside : i < tree.size) :
    tree.node (tree.size + i) = tree.root.get i := by
  rw [size, node_two_pow_add tree inside, PerfectTree.nodeAt_eq_get]

theorem node_eq_combine {tree : SegmentTree op} (combined : tree.root.Combined op) {k : Nat}
    (positive : 1 ≤ k) (inner : k < tree.size) :
    tree.node k = op.combine (tree.node (2 * k)) (tree.node (2 * k + 1)) := by
  have lower : 2 ^ k.log2 ≤ k := Nat.log2_self_le (by omega)
  have upper : k < 2 ^ (k.log2 + 1) := Nat.lt_log2_self
  have depth : k.log2 < tree.height := (Nat.log2_lt (by omega)).2 inner
  have double : 2 ^ (k.log2 + 1) = 2 * 2 ^ k.log2 := Nat.pow_succ'
  generalize k.log2 = d at lower upper depth double
  obtain ⟨i, rfl⟩ := Nat.exists_eq_add_of_le lower
  rw [node_two_pow_add tree (by omega), combined.nodeAt_eq depth (by omega),
    ← node_two_pow_add tree (by omega), ← node_two_pow_add tree (by omega)]
  congr 2 <;> omega

theorem length_nodes (tree : SegmentTree op) : tree.nodes.length = 2 * tree.size := by
  have : 0 < tree.size := Nat.two_pow_pos _
  simp [nodes]
  omega

theorem getElem?_nodes (tree : SegmentTree op) {k : Nat} (positive : 1 ≤ k)
    (inside : k < 2 * tree.size) : tree.nodes[k]? = some (tree.node k) := by
  obtain ⟨k, rfl⟩ := Nat.exists_eq_add_of_le' positive
  rw [nodes, List.getElem?_cons_succ, List.getElem?_map, List.getElem?_range (by omega)]
  rfl

theorem drop_nodes (tree : SegmentTree op) : tree.nodes.drop tree.size = tree.leaves := by
  apply List.ext_getElem?
  intro i
  have : 0 < tree.size := Nat.two_pow_pos _
  rw [List.getElem?_drop]
  by_cases inside : i < tree.size
  · rw [getElem?_nodes tree (by omega) (by omega), node_size_add tree inside]
    exact (PerfectTree.getElem?_leaves tree.root inside).symm
  · rw [List.getElem?_eq_none (by rw [length_nodes]; omega)]
    apply (List.getElem?_eq_none _).symm
    rw [leaves, PerfectTree.length_leaves]
    exact Nat.le_of_not_lt inside

structure LeafWrite (α : Type) where
  index : Nat
  value : α
  mode : WriteMode

def offer (tree : SegmentTree op) (write : LeafWrite α) : SegmentTree op :=
  match tree.update write.index write.value write.mode with
  | .ok next => next
  | .error _ => tree

def offerAll (tree : SegmentTree op) (writes : List (LeafWrite α)) : SegmentTree op :=
  writes.foldl offer tree

def writesTo (writes : List (LeafWrite α)) (i : Nat) : List (WriteMode × α) :=
  (writes.filter (·.index = i)).map fun write => (write.mode, write.value)

theorem update_eq_error {tree : SegmentTree op} {i : Nat} (outside : tree.size ≤ i) (value : α)
    (mode : WriteMode) : tree.update i value mode = .error (.indexOutOfRange i tree.size) := by
  unfold update checkIndex
  rw [if_neg (by omega)]
  rfl

theorem offer_of_lt {tree : SegmentTree op} {write : LeafWrite α} (inside : write.index < tree.size) :
    tree.offer write = tree.write write.index write.value write.mode := by
  rw [offer, update_eq_ok inside]

theorem offer_of_le {tree : SegmentTree op} {write : LeafWrite α}
    (outside : tree.size ≤ write.index) : tree.offer write = tree := by
  rw [offer, update_eq_error outside]

@[simp] theorem size_offer (tree : SegmentTree op) (write : LeafWrite α) :
    (tree.offer write).size = tree.size := by
  by_cases inside : write.index < tree.size
  · rw [offer_of_lt inside]
    rfl
  · rw [offer_of_le (by omega)]

@[simp] theorem size_offerAll (tree : SegmentTree op) (writes : List (LeafWrite α)) :
    (tree.offerAll writes).size = tree.size := by
  induction writes generalizing tree with
  | nil => rfl
  | cons write rest ih => exact (ih (tree.offer write)).trans (tree.size_offer write)

theorem combined_offer {tree : SegmentTree op} (combined : tree.root.Combined op)
    (write : LeafWrite α) : (tree.offer write).root.Combined op := by
  by_cases inside : write.index < tree.size
  · rw [offer_of_lt inside]
    exact combined.modify _ write.index
  · rwa [offer_of_le (by omega)]

theorem combined_offerAll {tree : SegmentTree op} (combined : tree.root.Combined op)
    (writes : List (LeafWrite α)) : (tree.offerAll writes).root.Combined op := by
  induction writes generalizing tree with
  | nil => exact combined
  | cons write rest ih => exact ih (combined_offer combined write)

theorem offerAll_filter (tree : SegmentTree op) (writes : List (LeafWrite α)) :
    tree.offerAll (writes.filter (·.index < tree.size)) = tree.offerAll writes := by
  induction writes generalizing tree with
  | nil => rfl
  | cons write rest ih =>
    have rest := ih (tree.offer write)
    rw [size_offer] at rest
    by_cases inside : write.index < tree.size
    · rw [List.filter_cons_of_pos (by simpa using inside)]
      exact rest
    · rw [List.filter_cons_of_neg (by simpa using inside)]
      rw [offer_of_le (by omega)] at rest
      rw [rest, offerAll, offerAll, List.foldl_cons, offer_of_le (by omega)]

theorem get_offer (tree : SegmentTree op) (write : LeafWrite α) {i : Nat} (inside : i < tree.size) :
    (tree.offer write).root.get i =
      if write.index = i then written op write.mode write.value (tree.root.get i)
      else tree.root.get i := by
  by_cases here : write.index < tree.size
  · rw [offer_of_lt here]
    refine (PerfectTree.get_modify (written op write.mode write.value) tree.root here inside).trans ?_
    split
    next same => rw [same]
    next => rfl
  · rw [offer_of_le (by omega), if_neg (by omega)]

theorem get_offerAll (tree : SegmentTree op) (writes : List (LeafWrite α)) {i : Nat}
    (inside : i < tree.size) :
    (tree.offerAll writes).root.get i =
      (writesTo writes i).foldl (fun old write => written op write.1 write.2 old)
        (tree.root.get i) := by
  induction writes generalizing tree with
  | nil => rfl
  | cons write rest ih =>
    have rest := ih (tree.offer write) (by rwa [size_offer])
    rw [get_offer tree write inside] at rest
    rw [offerAll, List.foldl_cons, ← offerAll, rest]
    by_cases same : write.index = i <;> simp [writesTo, same]

end SegmentTree

/-- What writes make of a neutral leaf: the value it was last replaced with, or the neutral one if
it never was, with everything that was accumulated since, in order. -/
def Operation.Settles {α : Type} (op : Operation α) (writes : List (WriteMode × α)) (value : α) :
    Prop :=
  ∃ (base : α) (sums : List α), value = sums.foldl op.combine base ∧
    ((base = op.neutral ∧ writes = sums.map (WriteMode.accumulate, ·)) ∨
      ∃ before, writes = before ++ (WriteMode.replace, base) :: sums.map (WriteMode.accumulate, ·))

theorem Operation.settles_foldl {α : Type} (op : Operation α) (writes : List (WriteMode × α)) :
    op.Settles writes
      (writes.foldl (fun old write => SegmentTree.written op write.1 write.2 old) op.neutral) := by
  induction writes using List.reverseRecOn with
  | nil => exact ⟨op.neutral, [], rfl, Or.inl ⟨rfl, rfl⟩⟩
  | append_singleton writes last ih =>
    rw [List.foldl_append]
    obtain ⟨mode, value⟩ := last
    cases mode with
    | replace => exact ⟨value, [], rfl, Or.inr ⟨writes, rfl⟩⟩
    | accumulate =>
      obtain ⟨base, sums, settled, origin⟩ := ih
      refine ⟨base, sums ++ [value], ?_, ?_⟩
      · rw [List.foldl_append, ← settled]
        rfl
      · rw [List.map_append]
        rcases origin with ⟨neutral, rfl⟩ | ⟨before, rfl⟩
        · exact Or.inl ⟨neutral, rfl⟩
        · exact Or.inr ⟨before, List.append_assoc _ _ _⟩

namespace SegmentTree

variable {α : Type} {op : Operation α}

structure WrittenBy (tree : SegmentTree op) (writes : List (LeafWrite α)) : Prop where
  length : tree.nodes.length = 2 * tree.size
  inner : ∀ k, 1 ≤ k → k < tree.size → ∃ left right, tree.nodes[2 * k]? = some left ∧
    tree.nodes[2 * k + 1]? = some right ∧ tree.nodes[k]? = some (op.combine left right)
  leaves : tree.nodes.drop tree.size = tree.leaves
  untouched : ∀ i < tree.size, (∀ write ∈ writes, write.index ≠ i) → tree.leaf i = .ok op.neutral
  settled : ∀ i < tree.size, ∃ value, tree.leaf i = .ok value ∧
    op.Settles (writesTo writes i) value
  root : tree.nodes[1]? = some tree.total
  bracketed : tree.total = PerfectTree.bracket op tree.height tree.leaves

theorem writtenBy_offerAll {tree : SegmentTree op} (combined : tree.root.Combined op)
    (empty : ∀ i < tree.size, tree.root.get i = op.neutral) (writes : List (LeafWrite α)) :
    (tree.offerAll writes).WrittenBy writes := by
  have combined' := combined_offerAll combined writes
  have leaf : ∀ i < (tree.offerAll writes).size, (tree.offerAll writes).leaf i =
      .ok ((writesTo writes i).foldl (fun old write => written op write.1 write.2 old)
        op.neutral) := by
    intro i inside
    have inside' : i < tree.size := by rwa [← size_offerAll tree writes]
    rw [leaf_eq_ok inside, get_offerAll tree writes inside', empty i inside']
  have positive : 0 < (tree.offerAll writes).size := Nat.two_pow_pos _
  refine ⟨length_nodes _, fun k positive inner => ?_, drop_nodes _, fun i inside untouched => ?_,
    fun i inside => ⟨_, leaf i inside, op.settles_foldl _⟩, ?_, combined'.value_eq_bracket⟩
  · refine ⟨_, _, getElem?_nodes _ (by omega) (by omega), getElem?_nodes _ (by omega) (by omega), ?_⟩
    rw [getElem?_nodes _ positive (by omega), node_eq_combine combined' positive inner]
  · have none : writesTo writes i = [] := by simpa [writesTo] using untouched
    rw [leaf i inside, none]
    rfl
  · rw [getElem?_nodes _ (Nat.le_refl 1) (by omega), node_one]

/-- Whatever writes were offered to an empty tree, its nodes follow from its leaves, and those from
the writes since the last replacement. A write beyond the last leaf is refused and changes nothing,
and writes that end with the same leaves end with the same nodes. -/
theorem writtenBy_offerAll_ofCapacity (neutral : op.combine op.neutral op.neutral = op.neutral)
    (capacity : Nat) (writes : List (LeafWrite α)) :
    let tree := (ofCapacity op capacity).offerAll writes
    tree.WrittenBy writes ∧
    (∀ i value mode, tree.size ≤ i →
      tree.update i value mode = .error (.indexOutOfRange i tree.size)) ∧
    (ofCapacity op capacity).offerAll (writes.filter (·.index < tree.size)) = tree ∧
    ∀ capacity' others,
      ((ofCapacity op capacity').offerAll others).leaves = tree.leaves →
        ((ofCapacity op capacity').offerAll others).nodes = tree.nodes := by
  have combined (capacity : Nat) : (ofCapacity op capacity).root.Combined op :=
    PerfectTree.combined_replicate neutral _
  have empty : ∀ i < (ofCapacity op capacity).size,
      (ofCapacity op capacity).root.get i = op.neutral :=
    fun i _ => PerfectTree.get_replicate op.neutral _ i
  intro tree
  refine ⟨writtenBy_offerAll (combined capacity) empty writes, fun i value mode outside =>
    update_eq_error outside value mode, ?_, fun capacity' others same => ?_⟩
  · have size : tree.size = (ofCapacity op capacity).size := size_offerAll _ writes
    rw [size]
    exact offerAll_filter _ writes
  · rw [eq_of_leaves_eq (combined_offerAll (combined capacity') others)
      (combined_offerAll (combined capacity) writes) same]

/-- A leaf that held not-a-number for a while leaves no trace of it in any node. -/
theorem writtenBy_offerAll_ofCapacity_replaced :
    let writes : List (LeafWrite Binary32) := [⟨0, 1, .accumulate⟩, ⟨4, 1, .replace⟩,
      ⟨1, .nan, .replace⟩, ⟨0, Binary32.belowOne, .replace⟩, ⟨1, 1, .replace⟩, ⟨0, 1, .accumulate⟩]
    let tree := (ofCapacity .sum 3).offerAll writes
    tree.WrittenBy writes ∧ tree.leaf 2 = .ok 0 ∧
      ((ofCapacity .sum 4).offerAll [⟨1, 1, .accumulate⟩,
        ⟨0, Binary32.belowOne + 1, .replace⟩]).nodes = tree.nodes := by
  intro writes tree
  obtain ⟨written, _, _, determined⟩ :=
    writtenBy_offerAll_ofCapacity (rfl : Operation.sum.combine 0 0 = 0) 3 writes
  exact ⟨written, written.untouched 2 (by decide +kernel) (by decide),
    determined 4 _ (by decide +kernel)⟩

end SegmentTree

end ExperienceReplay
