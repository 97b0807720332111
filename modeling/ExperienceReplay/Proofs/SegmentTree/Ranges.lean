import ExperienceReplay.Proofs.SegmentTree.Minima
import ExperienceReplay.Proofs.SegmentTree.Nodes

/-!
Folds of ranges. A fold knows nothing of the values that it combines, so that it can be carried out
on names of leaves instead: what comes out is the way in which it brackets them. Main statement: the
fold of a range uses each leaf of the range once and in order, and no other leaf, whatever the
operation is.
-/

namespace ExperienceReplay

/-- Brackets and neutral values make no difference under the operation. Its order may. -/
structure Operation.Lawful {α : Type} (op : Operation α) : Prop where
  assoc : ∀ a b c, op.combine (op.combine a b) c = op.combine a (op.combine b c)
  neutral_combine : ∀ a, op.combine op.neutral a = a
  combine_neutral : ∀ a, op.combine a op.neutral = a

theorem Operation.Lawful.foldl_eq {α : Type} {op : Operation α} (lawful : op.Lawful)
    (first : α) (values : List α) :
    values.foldl op.combine first = op.combine first (values.foldl op.combine op.neutral) := by
  induction values generalizing first with
  | nil => exact (lawful.combine_neutral first).symm
  | cons value rest ih =>
    rw [List.foldl_cons, List.foldl_cons, ih, ih (op.combine op.neutral value),
      lawful.neutral_combine, lawful.assoc]

/-- Leaves of a row, named by their positions, and neutral values, combined with each other. -/
inductive Bracketing where
  | neutral
  | leaf (i : Nat)
  | combine (first second : Bracketing)

namespace Bracketing

variable {α : Type} {op : Operation α}

def eval (op : Operation α) (leafAt : Nat → α) : Bracketing → α
  | neutral => op.neutral
  | leaf i => leafAt i
  | combine first second => op.combine (first.eval op leafAt) (second.eval op leafAt)

def positions : Bracketing → List Nat
  | neutral => []
  | leaf i => [i]
  | combine first second => first.positions ++ second.positions

/-- Combining without computing anything. -/
def operation : Operation Bracketing := ⟨neutral, combine⟩

theorem eval_eq_foldl (lawful : op.Lawful) (leafAt : Nat → α) (bracketing : Bracketing) :
    bracketing.eval op leafAt =
      (bracketing.positions.map leafAt).foldl op.combine op.neutral := by
  induction bracketing with
  | neutral => rfl
  | leaf i => exact (lawful.neutral_combine _).symm
  | combine first second ih ih' =>
    rw [eval, positions, List.map_append, List.foldl_append, lawful.foldl_eq, ih, ih']

theorem eval_min {leafAt : Nat → Binary32} {bracketing : Bracketing}
    (numbers : ∀ i ∈ bracketing.positions, leafAt i ≠ .nan) :
    (bracketing.eval .min leafAt = .infinity ∨
      ∃ i ∈ bracketing.positions, bracketing.eval .min leafAt = leafAt i) ∧
    bracketing.eval .min leafAt ≠ .nan ∧
    ∀ i ∈ bracketing.positions, bracketing.eval .min leafAt ≤ leafAt i := by
  induction bracketing with
  | neutral => exact ⟨Or.inl rfl, Binary32.noConfusion, fun _ mem => absurd mem List.not_mem_nil⟩
  | leaf i =>
    have number := numbers i List.mem_cons_self
    refine ⟨Or.inr ⟨i, List.mem_cons_self, rfl⟩, number, fun j mem => ?_⟩
    obtain rfl := List.mem_singleton.1 mem
    exact Binary32.le_refl number
  | combine first second ih ih' =>
    obtain ⟨onFirst, onSecond⟩ := List.forall_mem_append.1 numbers
    obtain ⟨found, number, least⟩ := ih onFirst
    obtain ⟨found', number', least'⟩ := ih' onSecond
    have below : (combine first second).eval .min leafAt ≤ first.eval .min leafAt :=
      Binary32.lesser_le_left number
    have below' : (combine first second).eval .min leafAt ≤ second.eval .min leafAt :=
      Binary32.lesser_le_right number'
    have one : (combine first second).eval .min leafAt = first.eval .min leafAt ∨
        (combine first second).eval .min leafAt = second.eval .min leafAt :=
      Binary32.lesser_eq_or _ _
    refine ⟨?_, ?_, List.forall_mem_append.2 ⟨fun i mem => Binary32.le_trans below (least i mem),
      fun i mem => Binary32.le_trans below' (least' i mem)⟩⟩
    · rcases one with same | same
      · rw [same]
        exact found.imp_right fun ⟨i, mem, here⟩ => ⟨i, List.mem_append_left _ mem, here⟩
      · rw [same]
        exact found'.imp_right fun ⟨i, mem, here⟩ => ⟨i, List.mem_append_right _ mem, here⟩
    · rcases one with same | same
      · rwa [same]
      · rwa [same]

end Bracketing

namespace PerfectTree

variable {α β : Type} {op : Operation α} {op' : Operation β} {height : Nat}

/-! ## Folds and what is combined -/

def map (f : α → β) : {height : Nat} → PerfectTree α height → PerfectTree β height
  | _, .leaf v => .leaf (f v)
  | _, .node v left right => .node (f v) (left.map f) (right.map f)

structure Carries (f : α → β) (op : Operation α) (op' : Operation β) : Prop where
  neutral : f op.neutral = op'.neutral
  combine : ∀ a b, f (op.combine a b) = op'.combine (f a) (f b)

variable {f : α → β} (carries : Carries f op op')

theorem value_map (f : α → β) (tree : PerfectTree α height) :
    (tree.map f).value = f tree.value := by
  cases tree <;> rfl

include carries

theorem foldFrom_map (tree : PerfectTree α height) (skip : Nat) :
    (tree.map f).foldFrom op' skip = f (tree.foldFrom op skip) := by
  induction tree generalizing skip with
  | leaf v => exact carries.neutral.symm
  | node v left right ihl ihr =>
    unfold map foldFrom
    split
    · rw [ihl, value_map, carries.combine]
    · exact ihr _

theorem foldUpTo_map (tree : PerfectTree α height) (count : Nat) :
    (tree.map f).foldUpTo op' count = f (tree.foldUpTo op count) := by
  induction tree generalizing count with
  | leaf v => exact carries.neutral.symm
  | node v left right ihl ihr =>
    unfold map foldUpTo
    split
    · exact ihl _
    · rw [ihr, value_map, carries.combine]

theorem foldParts_map (tree : PerfectTree α height) (start stop : Nat) :
    (tree.map f).foldParts op' start stop =
      (f (tree.foldParts op start stop).1, f (tree.foldParts op start stop).2) := by
  induction tree generalizing start stop with
  | leaf v => exact Prod.ext carries.neutral.symm carries.neutral.symm
  | node v left right ihl ihr =>
    have from_map := foldFrom_map carries (node v left right) start
    have upTo_map := foldUpTo_map carries (node v left right) stop
    unfold map at from_map upTo_map
    unfold map foldParts
    simp only
    split
    · rw [upTo_map, carries.neutral]
    · split
      · rw [from_map, carries.neutral]
      · split
        · exact ihl _ _
        · split
          · exact ihr _ _
          · rw [foldFrom_map carries, foldUpTo_map carries]

theorem foldRange_map (tree : PerfectTree α height) (start stop : Nat) :
    (tree.map f).foldRange op' start stop = f (tree.foldRange op start stop) := by
  unfold foldRange
  split
  · rw [value_map, carries.combine, carries.combine, carries.neutral]
  · rw [foldParts_map carries, carries.combine]

omit carries

/-! ## Folds and what is changed -/

section

variable {change : α → α} {i : Nat}

theorem foldFrom_modify (tree : PerfectTree α height) {skip : Nat} (before : i < skip) :
    (tree.modify op change i).foldFrom op skip = tree.foldFrom op skip := by
  induction tree generalizing i skip with
  | leaf v => rfl
  | @node height v left right ihl ihr =>
    unfold modify
    split
    next inLeft =>
      unfold join foldFrom
      rw [ihl before]
    next inRight =>
      unfold join foldFrom
      rw [if_neg (by omega), if_neg (by omega), ihr (by omega)]

theorem foldUpTo_modify (tree : PerfectTree α height) {count : Nat} (behind : count ≤ i) :
    (tree.modify op change i).foldUpTo op count = tree.foldUpTo op count := by
  induction tree generalizing i count with
  | leaf v => rfl
  | @node height v left right ihl ihr =>
    unfold modify
    split
    next inLeft =>
      unfold join foldUpTo
      rw [if_pos (by omega), if_pos (by omega), ihl behind]
    next inRight =>
      unfold join foldUpTo
      split
      · rfl
      · rw [ihr (by omega)]

theorem foldParts_modify (tree : PerfectTree α height) {start stop : Nat} (inside : i < 2 ^ height)
    (elsewhere : i < start ∨ stop ≤ i) :
    (tree.modify op change i).foldParts op start stop = tree.foldParts op start stop := by
  induction tree generalizing i start stop with
  | leaf v => rfl
  | @node height v left right ihl ihr =>
    have suffix : i < start → _ := @foldFrom_modify _ op _ change i (node v left right) start
    have initial : stop ≤ i → _ := @foldUpTo_modify _ op _ change i (node v left right) stop
    rw [modify] at suffix initial ⊢
    by_cases inLeft : i < 2 ^ height
    · rw [if_pos inLeft, join] at suffix initial ⊢
      rw [foldParts, foldParts]
      split
      next => rw [initial (by omega)]
      next =>
        split
        next => rw [suffix (by omega)]
        next =>
          split
          next => exact ihl inLeft elsewhere
          next =>
            split
            next => rfl
            next => rw [foldFrom_modify left (by omega)]
    · rw [if_neg inLeft, join] at suffix initial ⊢
      rw [foldParts, foldParts]
      split
      next => rw [initial (by omega)]
      next =>
        split
        next => rw [suffix (by omega)]
        next =>
          split
          next => rfl
          next =>
            split
            next => exact ihr (by omega) (by omega)
            next => rw [foldUpTo_modify right (by omega)]

theorem foldRange_modify (tree : PerfectTree α height) {start stop : Nat} (inside : i < 2 ^ height)
    (elsewhere : i < start ∨ stop ≤ i) :
    (tree.modify op change i).foldRange op start stop = tree.foldRange op start stop := by
  have part : ¬(start = 0 ∧ stop = 2 ^ height) := by omega
  rw [foldRange, foldRange, if_neg part, if_neg part, foldParts_modify tree inside elsewhere]

end

/-! ## Names instead of values -/

def named : (height first : Nat) → PerfectTree Bracketing height
  | 0, first => .leaf (.leaf first)
  | height + 1, first =>
    join Bracketing.operation (named height first) (named height (first + 2 ^ height))

theorem Combined.eq_map_named {tree : PerfectTree α height} (combined : tree.Combined op)
    {leafAt : Nat → α} {first : Nat} (same : ∀ i < 2 ^ height, leafAt (first + i) = tree.get i) :
    tree = (named height first).map (Bracketing.eval op leafAt) := by
  induction tree generalizing first with
  | leaf v => exact congrArg leaf (same 0 (by decide)).symm
  | @node height v left right ihl ihr =>
    obtain ⟨rfl, onLeft, onRight⟩ := combined
    have left_eq : left = (named height first).map _ := ihl onLeft fun i hi => by
      rw [same i (by omega), get_node_left _ left right hi]
    have right_eq : right = (named height (first + 2 ^ height)).map _ := ihr onRight fun i hi => by
      rw [Nat.add_assoc, same _ (by omega), get_node_right]
    change _ = node (op.combine _ _) ((named height first).map _) ((named height _).map _)
    rw [← value_map (Bracketing.eval op leafAt), ← value_map (Bracketing.eval op leafAt),
      ← left_eq, ← right_eq]

theorem range'_append_range' {first second m n total : Nat} (next : second = first + m)
    (sum : m + n = total) :
    List.range' first m ++ List.range' second n = List.range' first total := by
  rw [next, List.range'_append_1, sum]

theorem positions_value_named (height first : Nat) :
    (named height first).value.positions = List.range' first (2 ^ height) := by
  induction height generalizing first with
  | zero => rfl
  | succ height ih =>
    change (named height first).value.positions ++ _ = _
    rw [ih, ih]
    exact range'_append_range' rfl (by omega)

theorem positions_foldFrom_named {height skip : Nat} (first : Nat) (positive : 0 < skip)
    (inside : skip ≤ 2 ^ height) :
    ((named height first).foldFrom Bracketing.operation skip).positions =
      List.range' (first + skip) (2 ^ height - skip) := by
  induction height generalizing first skip with
  | zero =>
    obtain rfl : skip = 1 := by omega
    rfl
  | succ height ih =>
    rw [named, join, foldFrom]
    split
    next inLeft =>
      change Bracketing.positions _ ++ Bracketing.positions _ = _
      rw [ih first positive inLeft, positions_value_named]
      exact range'_append_range' (by omega) (by omega)
    next beyond =>
      rw [ih _ (by omega) (by omega)]
      congr 1 <;> omega

theorem positions_foldUpTo_named {height count : Nat} (first : Nat) (some : count < 2 ^ height) :
    ((named height first).foldUpTo Bracketing.operation count).positions =
      List.range' first count := by
  induction height generalizing first count with
  | zero =>
    obtain rfl : count = 0 := by omega
    rfl
  | succ height ih =>
    rw [named, join, foldUpTo]
    split
    next inLeft => exact ih first inLeft
    next beyond =>
      change Bracketing.positions _ ++ Bracketing.positions _ = _
      rw [ih _ (by omega), positions_value_named]
      exact range'_append_range' rfl (by omega)

theorem positions_foldParts_named {height start stop : Nat} (first : Nat) (nonempty : start < stop)
    (inside : stop ≤ 2 ^ height) (part : ¬(start = 0 ∧ stop = 2 ^ height)) :
    let parts := (named height first).foldParts Bracketing.operation start stop
    parts.1.positions ++ parts.2.positions = List.range' (first + start) (stop - start) := by
  induction height generalizing first start stop with
  | zero => omega
  | succ height ih =>
    have suffix := @positions_foldFrom_named (height + 1) start first
    have initial := @positions_foldUpTo_named (height + 1) stop first
    rw [named, join] at suffix initial ⊢
    rw [foldParts]
    split
    next all =>
      subst all
      exact initial (by omega)
    next later =>
      split
      next last =>
        subst last
        exact (List.append_nil _).trans (suffix (by omega) (by omega))
      next =>
        split
        next inLeft => exact ih first nonempty inLeft (by omega)
        next =>
          split
          next inRight =>
            refine (ih _ (by omega) (by omega) (by omega)).trans ?_
            congr 1 <;> omega
          next =>
            change Bracketing.positions _ ++ Bracketing.positions _ = _
            rw [positions_foldFrom_named first (by omega) (by omega),
              positions_foldUpTo_named _ (by omega)]
            exact range'_append_range' (by omega) (by omega)

theorem positions_foldRange_named {height start stop : Nat} (nonempty : start < stop)
    (inside : stop ≤ 2 ^ height) :
    ((named height 0).foldRange Bracketing.operation start stop).positions =
      List.range' start (stop - start) := by
  rw [foldRange]
  split
  next all =>
    obtain ⟨rfl, rfl⟩ := all
    change ([] ++ (named height 0).value.positions) ++ [] = _
    rw [List.nil_append, List.append_nil, positions_value_named, Nat.sub_zero]
  next part =>
    refine (positions_foldParts_named 0 nonempty inside part).trans ?_
    rw [Nat.zero_add]

end PerfectTree

/-- How a row of `size` leaves is combined from `start` to `limit`, both included. -/
def Bracketing.ofRange (size start limit : Nat) : Bracketing :=
  (PerfectTree.named size.log2 0).foldRange operation start (limit + 1)

namespace SegmentTree

variable {α : Type} {op : Operation α}

theorem log2_size (tree : SegmentTree op) : tree.size.log2 = tree.height := Nat.log2_two_pow

theorem positions_ofRange (tree : SegmentTree op) {start limit : Nat} (nonempty : start ≤ limit)
    (inside : limit < tree.size) :
    (Bracketing.ofRange tree.size start limit).positions =
      List.range' start (limit + 1 - start) := by
  rw [Bracketing.ofRange, log2_size]
  exact PerfectTree.positions_foldRange_named (Nat.lt_succ_of_le nonempty) inside

theorem reduce_eq_error {tree : SegmentTree op} {limit : Nat} (outside : tree.size ≤ limit)
    (start : Nat) : tree.reduce start limit = .error (.indexOutOfRange limit tree.size) := by
  unfold reduce checkIndex
  rw [if_neg (by omega)]
  rfl

theorem reduce_eq_neutral {tree : SegmentTree op} {start limit : Nat} (inside : limit < tree.size)
    (empty : limit < start) : tree.reduce start limit = .ok op.neutral := by
  unfold reduce checkIndex
  rw [if_pos inside]
  change (if limit < start then _ else _) = _
  rw [if_pos empty]
  rfl

theorem reduce_eq_fold {tree : SegmentTree op} {start limit : Nat} (inside : limit < tree.size)
    (nonempty : start ≤ limit) :
    tree.reduce start limit = .ok (tree.root.foldRange op start (limit + 1)) := by
  unfold reduce checkIndex
  rw [if_pos inside]
  change (if limit < start then _ else _) = _
  rw [if_neg (by omega)]
  rfl

theorem reduce_eq_eval {tree : SegmentTree op} (combined : tree.root.Combined op)
    {start limit : Nat} (inside : limit < tree.size) (nonempty : start ≤ limit) :
    tree.reduce start limit =
      .ok ((Bracketing.ofRange tree.size start limit).eval op (tree.root.get ·)) := by
  have carries : PerfectTree.Carries (Bracketing.eval op (tree.root.get ·))
      Bracketing.operation op := ⟨rfl, fun _ _ => rfl⟩
  have spelled : tree.root = (PerfectTree.named tree.height 0).map
      (Bracketing.eval op (tree.root.get ·)) :=
    combined.eq_map_named fun i _ => by rw [Nat.zero_add]
  rw [reduce_eq_fold inside nonempty, Bracketing.ofRange, log2_size,
    ← PerfectTree.foldRange_map carries, ← spelled]

theorem map_get_range' (tree : SegmentTree op) {start count : Nat}
    (inside : start + count ≤ tree.size) :
    (List.range' start count).map (tree.root.get ·) = (tree.leaves.drop start).take count := by
  apply List.ext_getElem?
  intro i
  by_cases below : i < count
  · rw [List.getElem?_map, List.getElem?_range' below, List.getElem?_take_of_lt below,
      List.getElem?_drop, Nat.one_mul]
    have inside' : start + i < tree.size := by omega
    exact (PerfectTree.getElem?_leaves tree.root inside').symm
  · rw [List.getElem?_eq_none (by simpa using below), List.getElem?_eq_none (by simp; omega)]

structure KeepsToRanges (tree : SegmentTree op) : Prop where
  elsewhere : ∀ start limit i value mode next, i < start ∨ limit < i →
    tree.update i value mode = .ok next → next.reduce start limit = tree.reduce start limit
  refused_iff : ∀ start limit error, tree.reduce start limit = .error error ↔
    tree.size ≤ limit ∧ error = .indexOutOfRange limit tree.size
  empty : ∀ start limit, limit < tree.size → limit < start →
    tree.reduce start limit = .ok op.neutral

structure FoldsRanges (tree : SegmentTree op) : Prop where
  /-- The brackets do not depend on what the leaves hold. -/
  bracketed : ∀ start limit, start ≤ limit → limit < tree.size →
    (Bracketing.ofRange tree.size start limit).positions = List.range' start (limit + 1 - start) ∧
    tree.reduce start limit =
      .ok ((Bracketing.ofRange tree.size start limit).eval op (tree.root.get ·))
  folded : op.Lawful → ∀ start limit, start ≤ limit → limit < tree.size →
    tree.reduce start limit =
      .ok (((tree.leaves.drop start).take (limit + 1 - start)).foldl op.combine op.neutral)

/-- The fold of a range of numbers is the least of them. Which zero stands for both is left open. -/
def LeastOfRanges (tree : MinTree) : Prop :=
  ∀ start limit, start ≤ limit → limit < tree.size →
    (∀ i, start ≤ i → i ≤ limit → tree.leaf i ≠ .ok .nan) →
    ∃ least, tree.reduce start limit = .ok least ∧
      (∃ i leaf, start ≤ i ∧ i ≤ limit ∧ tree.leaf i = .ok leaf ∧ leaf.same least = true) ∧
      ∀ i leaf, start ≤ i → i ≤ limit → tree.leaf i = .ok leaf → least ≤ leaf

theorem reduce_write_of_elsewhere (tree : SegmentTree op) {start limit i : Nat} (value : α)
    (mode : WriteMode) (elsewhere : i < start ∨ limit < i) (inside : i < tree.size) :
    (tree.write i value mode).reduce start limit = tree.reduce start limit := by
  have size : (tree.write i value mode).size = tree.size := rfl
  by_cases refused : tree.size ≤ limit
  · rw [reduce_eq_error refused, reduce_eq_error (size ▸ refused), size]
  by_cases empty : limit < start
  · rw [reduce_eq_neutral (by omega) empty, reduce_eq_neutral (by omega) empty]
  rw [reduce_eq_fold (by omega) (by omega), reduce_eq_fold (by omega) (by omega)]
  exact congrArg Except.ok
    (PerfectTree.foldRange_modify tree.root inside (by omega))

theorem keepsToRanges (tree : SegmentTree op) : tree.KeepsToRanges where
  elsewhere start limit i value mode next elsewhere updated := by
    by_cases inside : i < tree.size
    · rw [update_eq_ok inside] at updated
      obtain rfl := Except.ok.inj updated
      exact reduce_write_of_elsewhere tree value mode elsewhere inside
    · rw [update_eq_error (by omega)] at updated
      cases updated
  refused_iff start limit error := by
    by_cases refused : tree.size ≤ limit
    · rw [reduce_eq_error refused]
      simp [refused, eq_comm]
    · refine iff_of_false (fun failed => ?_) (fun failed => refused failed.1)
      by_cases empty : limit < start
      · rw [reduce_eq_neutral (by omega) empty] at failed
        cases failed
      · rw [reduce_eq_fold (by omega) (by omega)] at failed
        cases failed
  empty start limit inside empty := reduce_eq_neutral inside empty

theorem foldsRanges {tree : SegmentTree op} (combined : tree.root.Combined op) :
    tree.FoldsRanges where
  bracketed start limit nonempty inside :=
    ⟨positions_ofRange tree nonempty inside, reduce_eq_eval combined inside nonempty⟩
  folded lawful start limit nonempty inside := by
    rw [reduce_eq_eval combined inside nonempty, Bracketing.eval_eq_foldl lawful,
      positions_ofRange tree nonempty inside, map_get_range' tree (by omega)]

theorem leastOfRanges {tree : MinTree} (combined : tree.root.Combined .min) :
    tree.LeastOfRanges := by
  intro start limit nonempty inside numbers
  have positions := positions_ofRange tree nonempty inside
  have mem_iff (i : Nat) : i ∈ (Bracketing.ofRange tree.size start limit).positions ↔
      start ≤ i ∧ i ≤ limit := by
    rw [positions, List.mem_range'_1]
    omega
  have leaf (i : Nat) (below : i ≤ limit) : tree.leaf i = .ok (tree.root.get i) :=
    leaf_eq_ok (by omega)
  have inRange : ∀ i ∈ (Bracketing.ofRange tree.size start limit).positions,
      tree.root.get i ≠ .nan := by
    intro i mem isNan
    obtain ⟨above, below⟩ := (mem_iff i).1 mem
    exact numbers i above below (by rw [leaf i below, isNan])
  obtain ⟨found, number, least⟩ := Bracketing.eval_min inRange
  refine ⟨_, reduce_eq_eval combined inside nonempty, ?_, fun i value above below here => ?_⟩
  · rcases found with none | ⟨i, mem, here⟩
    · have start_le := least start ((mem_iff start).2 ⟨Nat.le_refl start, nonempty⟩)
      have isNumber : tree.root.get start ≠ .nan := fun isNan =>
        numbers start (Nat.le_refl start) nonempty (by rw [leaf start nonempty, isNan])
      rw [none] at start_le ⊢
      exact ⟨start, _, Nat.le_refl start, nonempty, leaf start nonempty,
        Binary32.same_of_le_of_le (Binary32.le_infinity isNumber) start_le⟩
    · obtain ⟨above, below⟩ := (mem_iff i).1 mem
      exact ⟨i, _, above, below, leaf i below, here ▸
        Binary32.same_of_le_of_le (Binary32.le_refl number) (Binary32.le_refl number)⟩
  · rw [leaf i below] at here
    exact Except.ok.inj here ▸ least i ((mem_iff i).2 ⟨above, below⟩)

/-- Whatever writes were offered to an empty tree, the fold of a range combines the leaves of that
range in one way, which the number of leaves and the two ends fix, each leaf once and in order, and
leaves elsewhere make no difference. For the brackets the operation has to do what an empty tree
takes for granted: to combine neutral values to a neutral value. -/
theorem foldsRanges_offerAll_ofCapacity :
    (∀ {α : Type} (op : Operation α) capacity writes,
      let tree := (ofCapacity op capacity).offerAll writes
      tree.KeepsToRanges ∧
        (op.combine op.neutral op.neutral = op.neutral → tree.FoldsRanges)) ∧
    ∀ capacity writes, LeastOfRanges ((ofCapacity .min capacity).offerAll writes) := by
  constructor
  · intro α op capacity writes tree
    refine ⟨tree.keepsToRanges, fun neutral => ?_⟩
    exact foldsRanges (combined_offerAll (PerfectTree.combined_replicate neutral _) writes)
  · intro capacity writes
    refine leastOfRanges (combined_offerAll (PerfectTree.combined_replicate ?_ _) writes)
    exact Operation.min_self _

/-- Appending lists is folded in the order of the leaves. Not-a-number outside of the range does not
disturb its minimum. -/
theorem foldsRanges_offerAll_ofCapacity_append :
    let letters : Operation (List Nat) := ⟨[], (· ++ ·)⟩
    let tree := (ofCapacity letters 7).offerAll [⟨5, [5], .replace⟩, ⟨1, [1], .accumulate⟩,
      ⟨4, [4], .replace⟩, ⟨1, [0], .accumulate⟩, ⟨6, [6], .replace⟩, ⟨9, [9], .replace⟩]
    let numbers := (ofCapacity .min 3).offerAll [⟨0, .nan, .replace⟩, ⟨1, 1, .replace⟩,
      ⟨2, Binary32.belowOne, .replace⟩]
    tree.reduce 1 5 = .ok [1, 0, 4, 5] ∧ tree.reduce (2 ^ 64) 7 = .ok [] ∧
      tree.reduce 1 8 = .error (.indexOutOfRange 8 8) ∧
      ∃ least, numbers.reduce 1 3 = .ok least ∧ least ≤ Binary32.belowOne := by
  intro letters tree numbers
  obtain ⟨keeps, folds⟩ : tree.KeepsToRanges ∧ (_ → tree.FoldsRanges) :=
    foldsRanges_offerAll_ofCapacity.1 letters 7 _
  have least : LeastOfRanges numbers := foldsRanges_offerAll_ofCapacity.2 3 _
  have lawful : letters.Lawful := ⟨List.append_assoc, List.nil_append, List.append_nil⟩
  have inRange : ∀ i < 4, 1 ≤ i → numbers.leaf i ≠ .ok .nan := by decide +kernel
  obtain ⟨found, reduced, _, below⟩ :=
    least 1 3 (by decide) (by decide) fun i above below => inRange i (by omega) above
  refine ⟨((folds rfl).folded lawful 1 5 (by decide) (by decide)).trans (by decide +kernel),
    keeps.empty (2 ^ 64) 7 (by decide) (by decide),
    (keeps.refused_iff 1 8 _).2 ⟨by decide, rfl⟩,
    found, reduced, below 2 _ (by decide) (by decide) (by decide +kernel)⟩

/-- Counts combinations, up to three. Its neutral value is not neutral. -/
def counting : Operation Binary32 :=
  ⟨0, fun a b => Binary32.lesser (a + b + 1) (Binary32.ofNat 3)⟩

theorem exists_eval_counting {leafAt : Nat → Binary32} (zero : ∀ i, leafAt i = 0)
    (bracketing : Bracketing) :
    ∃ n ≤ 3, bracketing.eval counting leafAt = Binary32.ofNat n ∧
      min bracketing.positions.length 4 ≤ n + 1 := by
  -- each leaf after the first takes one more combination; neutral values can only add to them
  induction bracketing with
  | neutral => exact ⟨0, by decide, rfl, by decide⟩
  | leaf i => exact ⟨0, by decide, zero i, Nat.le_refl 1⟩
  | combine first second ih ih' =>
    obtain ⟨n, few, value, enough⟩ := ih
    obtain ⟨n', few', value', enough'⟩ := ih'
    have table : ∀ i ≤ 3, ∀ j ≤ 3, counting.combine (Binary32.ofNat i) (Binary32.ofNat j) =
        Binary32.ofNat (min (i + j + 1) 3) := by decide +kernel
    refine ⟨min (n + n' + 1) 3, Nat.min_le_right _ _, ?_, ?_⟩
    · rw [Bracketing.eval, value, value', table n few n' few']
    · rw [Bracketing.positions, List.length_append]
      omega

/-- An operation that does not combine neutral values to a neutral value. Four leaves need three
combinations at least, but an empty tree has a neutral value over all of them and is folded with
two. -/
theorem foldsRanges_counting :
    let tree := (ofCapacity counting 4).offerAll []
    tree.reduce 0 3 = .ok (Binary32.ofNat 2) ∧
      (∀ bracketing : Bracketing, bracketing.positions = List.range' 0 4 →
        bracketing.eval counting (tree.root.get ·) = Binary32.ofNat 3) ∧
      ¬tree.FoldsRanges := by
  intro tree
  have folded : tree.reduce 0 3 = .ok (Binary32.ofNat 2) := by decide +kernel
  have brackets (bracketing : Bracketing) (positions : bracketing.positions = List.range' 0 4) :
      bracketing.eval counting (tree.root.get ·) = Binary32.ofNat 3 := by
    have zero (i : Nat) : tree.root.get i = 0 := PerfectTree.get_replicate (0 : Binary32) 2 i
    obtain ⟨n, few, value, enough⟩ := exists_eval_counting zero bracketing
    have length : bracketing.positions.length = 4 := congrArg List.length positions
    obtain rfl : n = 3 := by omega
    exact value
  refine ⟨folded, brackets, fun folds => ?_⟩
  obtain ⟨positions, bracketed⟩ := folds.bracketed 0 3 (by decide) (by decide)
  rw [folded, brackets _ positions] at bracketed
  exact absurd bracketed (by decide +kernel)

end SegmentTree

end ExperienceReplay
