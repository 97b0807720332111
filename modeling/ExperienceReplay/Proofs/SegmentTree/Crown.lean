import ExperienceReplay.Proofs.SegmentTree.Combined

/-!
Folds of a range of leaves, one row of nodes at a time. Main statement: the fold of a range is the
fold of the parents of its leaves, where a leaf whose sibling is outside of the range is combined
with the value at its end of the range instead.
-/

namespace ExperienceReplay

namespace PerfectTree

variable {α : Type} {op : Operation α} {height : Nat}

def crown : {height : Nat} → PerfectTree α (height + 1) → PerfectTree α height
  | 0, .node v _ _ => .leaf v
  | _ + 1, .node v left right => .node v left.crown right.crown

theorem value_crown (tree : PerfectTree α (height + 1)) : tree.crown.value = tree.value := by
  cases height with
  | zero => cases tree with | node v left right => rfl
  | succ height => cases tree with | node v left right => rfl

def startingFrom (op : Operation α) (first : α) : Operation α := ⟨first, op.combine⟩

theorem foldFrom_all (op : Operation α) (tree : PerfectTree α height) :
    tree.foldFrom op (2 ^ height) = op.neutral := by
  induction tree with
  | leaf v => rfl
  | @node height v left right ihl ihr =>
    have := Nat.two_pow_pos height
    rw [foldFrom, if_neg (by omega), Nat.pow_succ, Nat.mul_two, Nat.add_sub_cancel, ihr]

theorem foldUpTo_zero (op : Operation α) (tree : PerfectTree α height) :
    tree.foldUpTo op 0 = op.neutral := by
  induction tree with
  | leaf v => rfl
  | node v left right ihl ihr => rw [foldUpTo, if_pos (Nat.two_pow_pos _), ihl]

/-- The two runs of `foldParts`, each combined with a value at its outer end. -/
def foldEnds (op : Operation α) (first last : α) :
    {height : Nat} → Nat → Nat → PerfectTree α height → α × α
  | _, _, _, .leaf _ => (first, last)
  | height + 1, start, stop, .node v left right =>
    if start = 0 then (first, foldUpTo (startingFrom op last) stop (.node v left right))
    else if stop = 2 ^ (height + 1) then
      (foldFrom (startingFrom op first) start (.node v left right), last)
    else if stop ≤ 2 ^ height then left.foldEnds op first last start stop
    else if 2 ^ height ≤ start then
      right.foldEnds op first last (start - 2 ^ height) (stop - 2 ^ height)
    else (left.foldFrom (startingFrom op first) start,
      right.foldUpTo (startingFrom op last) (stop - 2 ^ height))

theorem foldParts_eq_foldEnds (op : Operation α) (start stop : Nat) (tree : PerfectTree α height) :
    tree.foldParts op start stop = tree.foldEnds op op.neutral op.neutral start stop := by
  induction tree generalizing start stop with
  | leaf v => rfl
  | node v left right ihl ihr =>
    rw [foldParts, foldEnds, ihl, ihr]
    rfl

theorem foldEnds_empty (first last : α) {start : Nat} (inside : start ≤ 2 ^ height)
    (tree : PerfectTree α height) : tree.foldEnds op first last start start = (first, last) := by
  induction tree generalizing start with
  | leaf v => rfl
  | @node height v left right ihl ihr =>
    rw [foldEnds]
    split
    next none =>
      rw [none, foldUpTo_zero]
      rfl
    next =>
      split
      next all =>
        rw [all, foldFrom_all]
        rfl
      next =>
        split
        next inLeft => exact ihl inLeft
        next => rw [if_pos (by omega), ihr (by omega)]

theorem foldEnds_node (first last : α) {start stop : Nat} (v : α)
    (left right : PerfectTree α height) (some : 0 < start) (inLeft : start ≤ 2 ^ height)
    (beyond : 2 ^ height ≤ stop) (part : stop < 2 ^ (height + 1)) :
    (node v left right).foldEnds op first last start stop =
      (left.foldFrom (startingFrom op first) start,
        right.foldUpTo (startingFrom op last) (stop - 2 ^ height)) := by
  rw [foldEnds, if_neg (by omega), if_neg (by omega)]
  split
  next =>
    obtain rfl : stop = 2 ^ height := by omega
    rw [Nat.sub_self, foldUpTo_zero]
    cases left with
    | leaf w => rfl
    | node w left right => rw [foldEnds, if_neg (by omega), if_pos rfl]; rfl
  next =>
    split
    next =>
      obtain rfl : start = 2 ^ height := by omega
      rw [Nat.sub_self, foldFrom_all]
      cases right with
      | leaf w => omega
      | node w left right => rw [foldEnds, if_pos rfl]; rfl
    next => rfl

/-- What a run at the left end of a range begins with once the leaves are gone: a leaf without its
sibling has been combined. -/
def fromLeaves (op : Operation α) (first : α) (start : Nat) (tree : PerfectTree α height) : α :=
  if start % 2 = 1 then op.combine first (tree.get start) else first

def upToLeaves (op : Operation α) (last : α) (stop : Nat) (tree : PerfectTree α height) : α :=
  if stop % 2 = 1 then op.combine (tree.get (stop - 1)) last else last

theorem fromLeaves_left (first v : α) (left right : PerfectTree α (height + 1)) {start : Nat}
    (inside : start ≤ 2 ^ (height + 1)) :
    fromLeaves op first start (node v left right) = fromLeaves op first start left := by
  unfold fromLeaves
  split
  next odd => rw [get_node_left _ _ _ (by omega)]
  next => rfl

theorem fromLeaves_right (first v : α) (left right : PerfectTree α (height + 1)) (i : Nat) :
    fromLeaves op first (2 ^ (height + 1) + i) (node v left right) =
      fromLeaves op first i right := by
  have parity : (2 ^ (height + 1) + i) % 2 = i % 2 := by omega
  rw [fromLeaves, fromLeaves, get_node_right, parity]

theorem upToLeaves_left (last v : α) (left right : PerfectTree α (height + 1)) {stop : Nat}
    (inside : stop ≤ 2 ^ (height + 1)) :
    upToLeaves op last stop (node v left right) = upToLeaves op last stop left := by
  unfold upToLeaves
  split
  next odd => rw [get_node_left _ _ _ (by omega)]
  next => rfl

theorem upToLeaves_right (last v : α) (left right : PerfectTree α (height + 1)) (i : Nat) :
    upToLeaves op last (2 ^ (height + 1) + i) (node v left right) = upToLeaves op last i right := by
  have parity : (2 ^ (height + 1) + i) % 2 = i % 2 := by omega
  rw [upToLeaves, upToLeaves, parity]
  split
  next odd =>
    obtain ⟨j, rfl⟩ : ∃ j, i = j + 1 := ⟨i - 1, by omega⟩
    rw [← Nat.add_assoc, Nat.add_sub_cancel, Nat.add_sub_cancel, get_node_right]
  next => rfl

theorem foldFrom_left (v : α) (left right : PerfectTree α height) {start : Nat}
    (inside : start ≤ 2 ^ height) : (node v left right).foldFrom op start =
      op.combine (left.foldFrom op start) right.value :=
  if_pos inside

theorem foldFrom_right (v : α) (left right : PerfectTree α height) {i : Nat} (positive : 0 < i) :
    (node v left right).foldFrom op (2 ^ height + i) = right.foldFrom op i := by
  rw [foldFrom, if_neg (by omega), Nat.add_sub_cancel_left]

theorem foldUpTo_left (v : α) (left right : PerfectTree α height) {stop : Nat}
    (inside : stop < 2 ^ height) : (node v left right).foldUpTo op stop = left.foldUpTo op stop :=
  if_pos inside

theorem foldUpTo_right (v : α) (left right : PerfectTree α height) (i : Nat) :
    (node v left right).foldUpTo op (2 ^ height + i) =
      op.combine left.value (right.foldUpTo op i) := by
  rw [foldUpTo, if_neg (by omega), Nat.add_sub_cancel_left]

theorem foldFrom_crown (first : α) {start : Nat} (positive : 0 < start)
    (tree : PerfectTree α (height + 1)) (inside : start ≤ 2 ^ (height + 1)) :
    tree.foldFrom (startingFrom op first) start =
      tree.crown.foldFrom (startingFrom op (fromLeaves op first start tree)) ((start + 1) / 2) := by
  induction height generalizing start with
  | zero =>
    cases tree with
    | node v left right =>
      cases left; cases right
      obtain rfl | rfl : start = 1 ∨ start = 2 := by omega
      · rfl
      · rfl
  | succ height ih =>
    cases tree with
    | node v left right =>
      rw [crown]
      by_cases inLeft : start ≤ 2 ^ (height + 1)
      · rw [foldFrom_left _ _ _ inLeft, foldFrom_left _ _ _ (by omega),
          fromLeaves_left _ _ _ _ inLeft, ih positive left inLeft, value_crown]
        rfl
      · obtain ⟨i, rfl⟩ := Nat.exists_eq_add_of_lt (Nat.lt_of_not_le inLeft)
        have half : (2 ^ (height + 1) + (i + 1) + 1) / 2 = 2 ^ height + (i + 1 + 1) / 2 := by omega
        rw [Nat.add_assoc _ i 1, half, foldFrom_right _ _ _ (Nat.succ_pos i),
          foldFrom_right _ _ _ (by omega), fromLeaves_right,
          ih (Nat.succ_pos i) right (by omega)]

theorem foldUpTo_crown (last : α) {stop : Nat} (tree : PerfectTree α (height + 1))
    (part : stop < 2 ^ (height + 1)) :
    tree.foldUpTo (startingFrom op last) stop =
      tree.crown.foldUpTo (startingFrom op (upToLeaves op last stop tree)) (stop / 2) := by
  induction height generalizing stop with
  | zero =>
    cases tree with
    | node v left right =>
      cases left; cases right
      obtain rfl | rfl : stop = 0 ∨ stop = 1 := by omega
      · rfl
      · rfl
  | succ height ih =>
    cases tree with
    | node v left right =>
      rw [crown]
      by_cases inLeft : stop < 2 ^ (height + 1)
      · rw [foldUpTo_left _ _ _ inLeft, foldUpTo_left _ _ _ (by omega),
          upToLeaves_left _ _ _ _ (by omega), ih left inLeft]
      · obtain ⟨i, rfl⟩ := Nat.exists_eq_add_of_le (Nat.le_of_not_lt inLeft)
        have half : (2 ^ (height + 1) + i) / 2 = 2 ^ height + i / 2 := by omega
        rw [half, foldUpTo_right, foldUpTo_right, upToLeaves_right, ih right (by omega),
          value_crown]
        rfl

theorem foldEnds_left (first last v : α) (left right : PerfectTree α height) {start stop : Nat}
    (some : 0 < start) (inside : stop ≤ 2 ^ height) :
    (node v left right).foldEnds op first last start stop =
      left.foldEnds op first last start stop := by
  have := Nat.two_pow_pos height
  rw [foldEnds, if_neg (by omega), if_neg (by omega), if_pos inside]

theorem foldEnds_right (first last v : α) (left right : PerfectTree α height) {i j : Nat}
    (ordered : i ≤ j) (part : j < 2 ^ height) :
    (node v left right).foldEnds op first last (2 ^ height + i) (2 ^ height + j) =
      right.foldEnds op first last i j := by
  by_cases empty : i = j
  · subst empty
    rw [foldEnds_empty first last (by omega), foldEnds_empty first last (by omega)]
  · rw [foldEnds, if_neg (by omega), if_neg (by omega), if_neg (by omega), if_pos (by omega),
      Nat.add_sub_cancel_left, Nat.add_sub_cancel_left]

theorem foldEnds_crown (first last : α) {start stop : Nat} (tree : PerfectTree α (height + 1))
    (nonempty : start < stop) (inside : stop ≤ 2 ^ (height + 1))
    (part : ¬(start = 0 ∧ stop = 2 ^ (height + 1))) :
    tree.foldEnds op first last start stop =
      tree.crown.foldEnds op (fromLeaves op first start tree) (upToLeaves op last stop tree)
        ((start + 1) / 2) (stop / 2) := by
  induction height generalizing start stop with
  | zero =>
    cases tree with
    | node v left right =>
      cases left; cases right
      have : start = 0 ∧ stop = 1 ∨ start = 1 ∧ stop = 2 := by omega
      obtain ⟨rfl, rfl⟩ | ⟨rfl, rfl⟩ := this
      · rfl
      · rfl
  | succ height ih =>
    cases tree with
    | node v left right =>
      by_cases initial : start = 0
      · subst initial
        rw [foldEnds, if_pos rfl, foldUpTo_crown last _ (by omega), crown, foldEnds, if_pos rfl]
        rfl
      by_cases final : stop = 2 ^ (height + 1 + 1)
      · subst final
        have even : upToLeaves op last (2 ^ (height + 1 + 1)) (node v left right) = last :=
          if_neg (by omega)
        rw [foldEnds, if_neg initial, if_pos rfl,
          foldFrom_crown first (Nat.pos_of_ne_zero initial) _ (by omega), crown, even, foldEnds,
          if_neg (by omega), if_pos (by omega)]
      rw [crown]
      by_cases inLeft : stop ≤ 2 ^ (height + 1)
      · rw [foldEnds_left _ _ _ _ _ (by omega) inLeft,
          foldEnds_left _ _ _ _ _ (by omega) (by omega),
          fromLeaves_left _ _ _ _ (by omega), upToLeaves_left _ _ _ _ inLeft,
          ih left nonempty inLeft (by omega)]
      obtain ⟨j, rfl⟩ := Nat.exists_eq_add_of_le (Nat.le_of_not_le inLeft)
      have halfStop : (2 ^ (height + 1) + j) / 2 = 2 ^ height + j / 2 := by omega
      by_cases inRight : 2 ^ (height + 1) ≤ start
      · obtain ⟨i, rfl⟩ := Nat.exists_eq_add_of_le inRight
        have halfStart : (2 ^ (height + 1) + i + 1) / 2 = 2 ^ height + (i + 1) / 2 := by omega
        rw [halfStart, halfStop, foldEnds_right _ _ _ _ _ (by omega) (by omega),
          foldEnds_right _ _ _ _ _ (by omega) (by omega), fromLeaves_right, upToLeaves_right,
          ih right (by omega) (by omega) (by omega)]
      · rw [halfStop, foldEnds_node _ _ _ _ _ (by omega) (by omega) (by omega) (by omega),
          foldEnds_node _ _ _ _ _ (by omega) (by omega) (by omega) (by omega),
          Nat.add_sub_cancel_left, Nat.add_sub_cancel_left, fromLeaves_left _ _ _ _ (by omega),
          upToLeaves_right, foldFrom_crown _ (by omega) left (by omega),
          foldUpTo_crown _ right (by omega)]

def foldBetween (op : Operation α) (first last : α) (start stop : Nat)
    (tree : PerfectTree α height) : α :=
  if start = 0 ∧ stop = 2 ^ height then op.combine (op.combine first tree.value) last
  else op.combine (tree.foldEnds op first last start stop).1
    (tree.foldEnds op first last start stop).2

theorem foldRange_eq_foldBetween (op : Operation α) (start stop : Nat)
    (tree : PerfectTree α height) :
    tree.foldRange op start stop = tree.foldBetween op op.neutral op.neutral start stop := by
  rw [foldRange, foldBetween, foldParts_eq_foldEnds]

theorem foldBetween_empty (first last : α) {start : Nat} (inside : start ≤ 2 ^ height)
    (tree : PerfectTree α height) :
    tree.foldBetween op first last start start = op.combine first last := by
  have := Nat.two_pow_pos height
  rw [foldBetween, if_neg (by omega), foldEnds_empty first last inside]

theorem foldBetween_crown (first last : α) {start stop : Nat} (tree : PerfectTree α (height + 1))
    (nonempty : start < stop) (inside : stop ≤ 2 ^ (height + 1)) :
    tree.foldBetween op first last start stop =
      tree.crown.foldBetween op (fromLeaves op first start tree) (upToLeaves op last stop tree)
        ((start + 1) / 2) (stop / 2) := by
  rw [foldBetween, foldBetween]
  split
  next all =>
    obtain ⟨rfl, rfl⟩ := all
    have even : upToLeaves op last (2 ^ (height + 1)) tree = last := if_neg (by omega)
    rw [if_pos (by omega), value_crown, even]
    rfl
  next part => rw [if_neg (by omega), foldEnds_crown first last tree nonempty inside part]

end PerfectTree

end ExperienceReplay
