import ExperienceReplay.Proofs.SegmentTree.Crown
import ExperienceReplay.Proofs.SegmentTree.Nodes

/-!
Trees as they lie in memory, in one row of nodes that are found by arithmetic on their places. Every
access is checked here, and a walk that leaves the row has no answer. Main statements: no walk
leaves the row, and each finds what the tree itself says.
-/

namespace ExperienceReplay

namespace NodeRow

variable {α : Type} (op : Operation α)

def recombine? (k : Nat) (nodes : List α) : Option (List α) :=
  if k = 0 then some nodes
  else do
    let left ← nodes[2 * k]?
    let right ← nodes[2 * k + 1]?
    if k < nodes.length then recombine? (k / 2) (nodes.set k (op.combine left right)) else none
termination_by k

def update? (size i : Nat) (value : α) (mode : WriteMode) (nodes : List α) : Option (List α) := do
  let old ← nodes[size + i]?
  recombine? op ((size + i) / 2) (nodes.set (size + i) (SegmentTree.written op mode value old))

/-- Walks up from both ends of a range of nodes of one depth. A node at an end that does not share
its parent with another node of the range is combined on its side, and the parents of the other
nodes are the range of the next round. -/
def gather? (nodes : List α) (low high : Nat) (left right : α) : Option α :=
  if low < high then do
    let left ← if low % 2 = 1 then nodes[low]?.map (op.combine left ·) else some left
    let right ← if high % 2 = 1 then nodes[high - 1]?.map (op.combine · right) else some right
    gather? nodes ((low + 1) / 2) (high / 2) left right
  else some (op.combine left right)
termination_by high

def reduce? (size start limit : Nat) (nodes : List α) : Option α :=
  if limit < start then some op.neutral
  else gather? op nodes (size + start) (size + limit + 1) op.neutral op.neutral

def descend? (size : Nat) (nodes : List Binary32) (k : Nat) (positive : 0 < k)
    (target : Binary32) : Option Nat :=
  if k < size then do
    let left ← nodes[2 * k]?
    if target < left then descend? size nodes (2 * k) (by omega) target
    else descend? size nodes (2 * k + 1) (by omega) (target - left)
  else some (k - size)
termination_by size - k

end NodeRow

namespace PerfectTree

variable {α : Type} {nodes : List α} {height k : Nat}

/-- The root lies at place `k` of a row, and below it the rest of the tree. -/
def LiesAt (nodes : List α) : {height : Nat} → Nat → PerfectTree α height → Prop
  | _, k, .leaf v => nodes[k]? = some v
  | _, k, .node v left right =>
    nodes[k]? = some v ∧ left.LiesAt nodes (2 * k) ∧ right.LiesAt nodes (2 * k + 1)

theorem LiesAt.value {tree : PerfectTree α height} (lies : tree.LiesAt nodes k) :
    nodes[k]? = some tree.value := by
  cases tree with
  | leaf v => exact lies
  | node v left right => exact lies.1

theorem LiesAt.get {tree : PerfectTree α height} (lies : tree.LiesAt nodes k) (i : Nat)
    (inside : i < 2 ^ height) : nodes[k * 2 ^ height + i]? = some (tree.get i) := by
  induction tree generalizing k i with
  | leaf v =>
    obtain rfl : i = 0 := by omega
    rwa [Nat.pow_zero, Nat.mul_one]
  | @node height v left right ihl ihr =>
    obtain ⟨_, onLeft, onRight⟩ := lies
    have place : k * 2 ^ (height + 1) = 2 * k * 2 ^ height := by
      rw [Nat.pow_succ, Nat.mul_comm 2 k, Nat.mul_assoc, Nat.mul_comm 2]
    rw [PerfectTree.get]
    split
    next inLeft => rw [place, ihl onLeft i inLeft]
    next inRight =>
      rw [place, ← ihr onRight _ (by omega), Nat.add_mul, Nat.one_mul]
      congr 1
      omega

theorem liesAt_of_nodeAt {tree : PerfectTree α height}
    (lie : ∀ depth i, depth ≤ height → i < 2 ^ depth →
      nodes[k * 2 ^ depth + i]? = some (tree.nodeAt depth i)) : tree.LiesAt nodes k := by
  induction tree generalizing k with
  | leaf v => simpa [LiesAt, PerfectTree.value] using lie 0 0
  | @node height v left right ihl ihr =>
    have place (depth : Nat) : k * 2 ^ (depth + 1) = 2 * k * 2 ^ depth := by
      rw [Nat.pow_succ, Nat.mul_comm 2 k, Nat.mul_assoc, Nat.mul_comm 2]
    refine ⟨by simpa [PerfectTree.value] using lie 0 0, ihl fun depth i shallow inside => ?_,
      ihr fun depth i shallow inside => ?_⟩
    · rw [← place, lie (depth + 1) i (by omega) (by omega), nodeAt, if_pos inside]
    · rw [Nat.add_mul, Nat.one_mul, ← place, Nat.add_assoc,
        lie (depth + 1) (2 ^ depth + i) (by omega) (by omega), nodeAt, if_neg (by omega),
        Nat.add_sub_cancel_left]

theorem LiesAt.crown {tree : PerfectTree α (height + 1)} (lies : tree.LiesAt nodes k) :
    tree.crown.LiesAt nodes k := by
  induction height generalizing k with
  | zero => cases tree with | node v left right => exact lies.1
  | succ height ih =>
    cases tree with
    | node v left right => exact ⟨lies.1, ih lies.2.1, ih lies.2.2⟩

end PerfectTree

namespace NodeRow

variable {α : Type} {op : Operation α} {nodes : List α}

theorem gather?_empty (low : Nat) (left right : α) :
    gather? op nodes low low left right = some (op.combine left right) := by
  rw [gather?, if_neg (Nat.lt_irrefl low)]

theorem gather?_leaves {height : Nat} {tree : PerfectTree α (height + 1)}
    (lies : tree.LiesAt nodes 1) {start stop : Nat} (nonempty : start < stop)
    (inside : stop ≤ 2 ^ (height + 1)) (left right : α) :
    gather? op nodes (2 ^ (height + 1) + start) (2 ^ (height + 1) + stop) left right =
      gather? op nodes (2 ^ height + (start + 1) / 2) (2 ^ height + stop / 2)
        (tree.fromLeaves op left start) (tree.upToLeaves op right stop) := by
  have low : (2 ^ (height + 1) + start + 1) / 2 = 2 ^ height + (start + 1) / 2 := by omega
  have high : (2 ^ (height + 1) + stop) / 2 = 2 ^ height + stop / 2 := by omega
  have lowParity : (2 ^ (height + 1) + start) % 2 = start % 2 := by omega
  have highParity : (2 ^ (height + 1) + stop) % 2 = stop % 2 := by omega
  have atStart := lies.get start (by omega)
  have atStop := lies.get (stop - 1) (by omega)
  rw [Nat.one_mul] at atStart atStop
  rw [gather?, if_pos (by omega), lowParity, highParity, low, high, atStart,
    Nat.add_sub_assoc (by omega), atStop]
  unfold PerfectTree.fromLeaves PerfectTree.upToLeaves
  split <;> split <;> rfl

theorem gather?_eq {height : Nat} {tree : PerfectTree α height} (lies : tree.LiesAt nodes 1)
    {start stop : Nat} (ordered : start ≤ stop) (inside : stop ≤ 2 ^ height) (left right : α) :
    gather? op nodes (2 ^ height + start) (2 ^ height + stop) left right =
      some (tree.foldBetween op left right start stop) := by
  by_cases empty : start = stop
  · rw [empty, gather?_empty, PerfectTree.foldBetween_empty left right inside]
  have nonempty : start < stop := by omega
  clear empty
  induction height generalizing start stop left right with
  | zero =>
    obtain ⟨rfl, rfl⟩ : start = 0 ∧ stop = 1 := by omega
    cases tree with
    | leaf v =>
      have here : nodes[1]? = some v := lies
      simp [gather?, here, PerfectTree.foldBetween, PerfectTree.value]
  | succ height ih =>
    rw [gather?_leaves lies nonempty inside, PerfectTree.foldBetween_crown _ _ _ nonempty inside]
    by_cases empty : (start + 1) / 2 = stop / 2
    · rw [empty, gather?_empty, PerfectTree.foldBetween_empty _ _ (by omega)]
    · exact ih lies.crown (by omega) (by omega) _ _ (by omega)

theorem reduce?_eq {tree : SegmentTree op} (lies : tree.root.LiesAt nodes 1) {start limit : Nat}
    {value : α} (reduced : tree.reduce start limit = .ok value) :
    reduce? op tree.size start limit nodes = some value := by
  unfold SegmentTree.reduce SegmentTree.checkIndex at reduced
  split at reduced
  next inside =>
    change (if limit < start then Except.ok op.neutral else Except.ok _) = _ at reduced
    rw [reduce?]
    split at reduced
    next empty => rw [if_pos empty, Except.ok.inj reduced]
    next nonempty =>
      rw [if_neg nonempty, ← Except.ok.inj reduced, PerfectTree.foldRange_eq_foldBetween]
      exact gather?_eq lies (Nat.le_succ_of_le (Nat.le_of_not_lt nonempty)) inside _ _
  next => cases reduced

theorem descend?_eq {nodes : List Binary32} {size height k : Nat}
    {tree : PerfectTree Binary32 height} (lies : tree.LiesAt nodes k) (positive : 0 < k)
    (above : size ≤ k * 2 ^ height) (below : (k + 1) * 2 ^ height ≤ 2 * size) (target : Binary32) :
    descend? size nodes k positive target =
      some (k * 2 ^ height + tree.descend target - size) := by
  induction tree generalizing k target with
  | leaf v =>
    rw [descend?, if_neg (by omega), PerfectTree.descend]
    simp
  | @node height v left right ihl ihr =>
    obtain ⟨_, onLeft, onRight⟩ := lies
    have leaves : 0 < 2 ^ height := Nat.two_pow_pos height
    have inner : k ≤ k * 2 ^ height := Nat.le_mul_of_pos_right k leaves
    have place : k * 2 ^ (height + 1) = 2 * (k * 2 ^ height) := by
      rw [Nat.pow_succ, ← Nat.mul_assoc, Nat.mul_comm]
    have placeLeft : 2 * k * 2 ^ height = 2 * (k * 2 ^ height) := Nat.mul_assoc _ _ _
    have placeRight : (2 * k + 1) * 2 ^ height = 2 * (k * 2 ^ height) + 2 ^ height := by
      rw [Nat.add_mul, placeLeft, Nat.one_mul]
    rw [Nat.add_mul, Nat.one_mul] at below
    rw [descend?, if_pos (by omega), onLeft.value, PerfectTree.descend]
    change (if target < left.value then _ else _) = _
    split
    next =>
      rw [ihl onLeft (by omega) (by omega) (by rw [Nat.add_mul]; omega), placeLeft, place]
    next =>
      rw [ihr onRight (by omega) (by omega) (by rw [Nat.add_mul]; omega), placeRight, place,
        Nat.add_assoc]

def Above (k j : Nat) : Prop := ∃ rounds, j = k / 2 ^ rounds

theorem not_above_parent {k j : Nat} (notAbove : ¬Above (k / 2) j) (other : j ≠ k) :
    ¬Above k j := by
  rintro ⟨_ | rounds, rfl⟩
  · exact other (Nat.div_one k)
  · exact notAbove ⟨rounds, by rw [Nat.div_div_eq_div_mul, Nat.pow_succ']⟩

theorem above_self (k : Nat) : Above k k := ⟨0, (Nat.div_one _).symm⟩

def CombinedAt (op : Operation α) (nodes : List α) (k : Nat) : Prop :=
  ∃ left right, nodes[2 * k]? = some left ∧ nodes[2 * k + 1]? = some right ∧
    nodes[k]? = some (op.combine left right)

theorem CombinedAt.set {k j : Nat} (combined : CombinedAt op nodes j) (v : α) (other : k ≠ j)
    (notLeft : k ≠ 2 * j) (notRight : k ≠ 2 * j + 1) : CombinedAt op (nodes.set k v) j := by
  obtain ⟨left, right, atLeft, atRight, here⟩ := combined
  refine ⟨left, right, ?_, ?_, ?_⟩
  · rwa [List.getElem?_set_ne notLeft]
  · rwa [List.getElem?_set_ne notRight]
  · rwa [List.getElem?_set_ne other]

/-- Recombining from a node up to the root combines the row again, if no node but those on the way
was out of order. -/
theorem recombine?_eq {size k : Nat} (inner : k < size) (length : nodes.length = 2 * size)
    (combined : ∀ j, 1 ≤ j → j < size → ¬Above k j → CombinedAt op nodes j) :
    ∃ next, recombine? op k nodes = some next ∧ next.length = 2 * size ∧
      (∀ j, 1 ≤ j → j < size → CombinedAt op next j) ∧
      next[0]? = nodes[0]? ∧ next.drop size = nodes.drop size := by
  induction k using Nat.strongRecOn generalizing nodes with
  | ind k ih =>
    rw [recombine?]
    split
    next root =>
      subst root
      refine ⟨nodes, rfl, length, fun j positive below => combined j positive below ?_, rfl, rfl⟩
      rintro ⟨rounds, rfl⟩
      rw [Nat.zero_div] at positive
      cases positive
    next notRoot =>
      have atLeft : nodes[2 * k]? = some nodes[2 * k] := List.getElem?_eq_getElem (by omega)
      have atRight : nodes[2 * k + 1]? = some nodes[2 * k + 1] :=
        List.getElem?_eq_getElem (by omega)
      generalize nodes[2 * k] = left at atLeft
      generalize nodes[2 * k + 1] = right at atRight
      have combined' : ∀ j, 1 ≤ j → j < size → ¬Above (k / 2) j →
          CombinedAt op (nodes.set k (op.combine left right)) j := by
        intro j positive below notAbove
        by_cases here : j = k
        · subst here
          refine ⟨left, right, ?_, ?_, List.getElem?_set_self (by omega)⟩
          · rwa [List.getElem?_set_ne (by omega)]
          · rwa [List.getElem?_set_ne (by omega)]
        · have notParent : j ≠ k / 2 := fun parent => notAbove (parent ▸ above_self (k / 2))
          exact (combined j positive below (not_above_parent notAbove here)).set _ (Ne.symm here)
            (by omega) (by omega)
      obtain ⟨next, recombined, length', all, first, leaves⟩ :=
        ih (k / 2) (by omega) (by omega) (by rwa [List.length_set]) combined'
      refine ⟨next, ?_, length', all, ?_, ?_⟩
      · rw [atLeft, atRight, ← recombined]
        exact if_pos (by omega)
      · rwa [List.getElem?_set_ne notRoot] at first
      · rwa [List.drop_set_of_lt inner] at leaves

theorem eq_of_combined {size : Nat} {nodes other : List α} (length : nodes.length = 2 * size)
    (length' : other.length = 2 * size) (combined : ∀ j, 1 ≤ j → j < size → CombinedAt op nodes j)
    (combined' : ∀ j, 1 ≤ j → j < size → CombinedAt op other j) (first : nodes[0]? = other[0]?)
    (leaves : nodes.drop size = other.drop size) : nodes = other := by
  have same (below : Nat) : ∀ k, 2 * size ≤ k + below → nodes[k]? = other[k]? := by
    induction below with
    | zero =>
      intro k outside
      rw [List.getElem?_eq_none (by omega), List.getElem?_eq_none (by omega)]
    | succ below ih =>
      intro k inside
      by_cases isLeaf : size ≤ k
      · obtain ⟨i, rfl⟩ := Nat.exists_eq_add_of_le isLeaf
        rw [← List.getElem?_drop, leaves, List.getElem?_drop]
      by_cases root : k = 0
      · rw [root, first]
      obtain ⟨left, right, atLeft, atRight, here⟩ := combined k (by omega) (by omega)
      obtain ⟨left', right', atLeft', atRight', here'⟩ := combined' k (by omega) (by omega)
      rw [ih (2 * k) (by omega), atLeft'] at atLeft
      rw [ih (2 * k + 1) (by omega), atRight'] at atRight
      rw [here, here', Option.some.inj atLeft, Option.some.inj atRight]
  exact List.ext_getElem? fun k => same (2 * size) k (by omega)

end NodeRow

namespace SegmentTree

open NodeRow

variable {α : Type} {op : Operation α}

theorem liesAt_nodes (tree : SegmentTree op) : tree.root.LiesAt tree.nodes 1 := by
  refine PerfectTree.liesAt_of_nodeAt fun depth i shallow inside => ?_
  have deeper : 2 ^ depth ≤ tree.size := Nat.pow_le_pow_right (by decide) shallow
  rw [Nat.one_mul, getElem?_nodes tree (by omega) (by omega), node_two_pow_add tree inside]

theorem combinedAt_nodes {tree : SegmentTree op} (combined : tree.root.Combined op) {k : Nat}
    (positive : 1 ≤ k) (inner : k < tree.size) : CombinedAt op tree.nodes k := by
  refine ⟨_, _, getElem?_nodes tree (by omega) (by omega),
    getElem?_nodes tree (by omega) (by omega), ?_⟩
  rw [getElem?_nodes tree positive (by omega), node_eq_combine combined positive inner]

theorem leaves_write (tree : SegmentTree op) {i : Nat} (inside : i < tree.size) (value : α)
    (mode : WriteMode) : (tree.write i value mode).leaves =
      tree.leaves.set i (written op mode value (tree.root.get i)) := by
  have old : tree.leaves[i]? = some (tree.root.get i) := PerfectTree.getElem?_leaves _ inside
  have below : i < tree.leaves.length := by rwa [leaves, PerfectTree.length_leaves]
  apply List.ext_getElem?
  intro j
  refine (congrArg (·[j]?) (PerfectTree.leaves_modify _ _ tree.root inside)).trans ?_
  rw [List.getElem?_modify, List.getElem?_set]
  split
  next same => exact same ▸ congrArg (Option.map _) old
  next => exact congrFun Option.map_id _

theorem update?_nodes {tree next : SegmentTree op} (combined : tree.root.Combined op) {i : Nat}
    {value : α} {mode : WriteMode} (updated : tree.update i value mode = .ok next) :
    update? op tree.size i value mode tree.nodes = some next.nodes := by
  by_cases inside : i < tree.size
  swap
  · rw [update_eq_error (by omega)] at updated
    cases updated
  rw [update_eq_ok inside] at updated
  obtain rfl := Except.ok.inj updated
  have size : (tree.write i value mode).size = tree.size := rfl
  have combined' : (tree.write i value mode).root.Combined op := combined.modify _ i
  rw [update?, getElem?_nodes tree (by omega) (by omega), node_size_add tree inside]
  have others : ∀ j, 1 ≤ j → j < tree.size → ¬Above ((tree.size + i) / 2) j →
      CombinedAt op (tree.nodes.set (tree.size + i) (written op mode value (tree.root.get i)))
        j := by
    intro j positive inner notAbove
    have notParent : j ≠ (tree.size + i) / 2 := fun parent => notAbove (parent ▸ above_self _)
    exact (combinedAt_nodes combined positive inner).set _ (by omega) (by omega) (by omega)
  obtain ⟨next, recombined, length, all, first, leaves⟩ :=
    recombine?_eq (by omega) (by rw [List.length_set, length_nodes]) others
  refine recombined.trans (congrArg some ?_)
  refine eq_of_combined length (length_nodes _) all
    (fun j positive inner => combinedAt_nodes combined' positive inner) ?_ ?_
  · have someLeaf : 0 < tree.size := Nat.two_pow_pos tree.height
    rw [first, List.getElem?_set_ne (by omega)]
    rfl
  · rw [leaves, List.drop_set, if_neg (by omega), Nat.add_sub_cancel_left, drop_nodes, ← size,
      drop_nodes, leaves_write tree inside]

/-- What a tree answers is found in its row of nodes by arithmetic on their places, and no step
leaves the row. -/
structure Walked (tree : SegmentTree op) : Prop where
  length : tree.nodes.length = 2 * tree.size
  leaf : ∀ i value, tree.leaf i = .ok value → tree.nodes[tree.size + i]? = some value
  update : ∀ i value mode next, tree.update i value mode = .ok next →
    update? op tree.size i value mode tree.nodes = some next.nodes
  reduce : ∀ start limit value, tree.reduce start limit = .ok value →
    reduce? op tree.size start limit tree.nodes = some value

theorem walked {tree : SegmentTree op} (combined : tree.root.Combined op) : tree.Walked where
  length := tree.length_nodes
  leaf i value read := by
    by_cases inside : i < tree.size
    · rw [leaf_eq_ok inside] at read
      rw [getElem?_nodes tree (by omega) (by omega), node_size_add tree inside,
        Except.ok.inj read]
    · unfold leaf checkIndex at read
      rw [if_neg inside] at read
      cases read
  update _ _ _ _ updated := update?_nodes combined updated
  reduce _ _ _ reduced := reduce?_eq tree.liesAt_nodes reduced

theorem descend?_nodes {tree : SumTree} {target : Binary32} {i : Nat}
    (found : tree.indexOfPrefixSum target = .ok i) :
    descend? tree.size tree.nodes 1 Nat.one_pos target = some i := by
  have size : 1 * 2 ^ tree.height = tree.size := Nat.one_mul _
  unfold indexOfPrefixSum at found
  split at found
  · cases found
  split at found
  · cases found
  rw [← Except.ok.inj found, descend?_eq tree.liesAt_nodes Nat.one_pos (Nat.le_of_eq size.symm)
    (by rw [Nat.add_mul]; omega), size, Nat.add_sub_cancel_left]

end SegmentTree

end ExperienceReplay
