import ExperienceReplay.Proofs.Binary32.RelativeError
import ExperienceReplay.Proofs.SegmentTree.Ranges
import ExperienceReplay.Proofs.SegmentTree.Sums
import Mathlib.Algebra.Order.BigOperators.Group.List

/-!
How far the sums of a tree are from exact ones. Each leaf goes through no more additions than the
brackets around it are deep, whatever was written before. Main statement: the total is rounded as
often as the tree is high, and the sum of a range at most twice more.
-/

namespace ExperienceReplay

namespace Bracketing

def depth : Bracketing → Nat
  | neutral => 0
  | leaf _ => 0
  | combine first second => max first.depth second.depth + 1

def exactSum (leafAt : Nat → Binary32) (bracketing : Bracketing) : ℚ :=
  (bracketing.positions.map fun i => (leafAt i).toRat).sum

variable {leafAt : Nat → Binary32} {bracketing : Bracketing}

@[simp] theorem exactSum_neutral : neutral.exactSum leafAt = 0 := by
  simp [exactSum, positions]

@[simp] theorem exactSum_leaf (i : Nat) : (leaf i).exactSum leafAt = (leafAt i).toRat := by
  simp [exactSum, positions]

@[simp] theorem exactSum_combine (first second : Bracketing) :
    (combine first second).exactSum leafAt = first.exactSum leafAt + second.exactSum leafAt := by
  simp [exactSum, positions]

theorem exactSum_nonneg (nonneg : ∀ i ∈ bracketing.positions, 0 ≤ leafAt i) :
    0 ≤ bracketing.exactSum leafAt := by
  apply List.sum_nonneg
  exact List.forall_mem_map.2 fun i mem => Binary32.toRat_nonneg (nonneg i mem)

/-- A finite sum in brackets is rounded as often as the brackets are deep. -/
theorem eval_sum_within (nonneg : ∀ i ∈ bracketing.positions, 0 ≤ leafAt i)
    (finite : (bracketing.eval .sum leafAt).isFinite) :
    0 ≤ bracketing.eval .sum leafAt ∧ WithinRoundings bracketing.depth
      (bracketing.exactSum leafAt) (bracketing.eval .sum leafAt).toRat := by
  induction bracketing with
  | neutral =>
    have zero : neutral.eval .sum leafAt = 0 := rfl
    rw [zero, exactSum_neutral, Binary32.toRat_zero]
    exact ⟨by decide, .refl 0⟩
  | leaf i =>
    rw [exactSum_leaf]
    exact ⟨nonneg i List.mem_cons_self, .refl _⟩
  | combine first second ih ih' =>
    obtain ⟨onFirst, onSecond⟩ := List.forall_mem_append.1 nonneg
    have sum : (combine first second).eval .sum leafAt =
        first.eval .sum leafAt + second.eval .sum leafAt := rfl
    rw [sum] at finite ⊢
    obtain ⟨finite₁, finite₂⟩ := Binary32.isFinite_of_add finite
    obtain ⟨nonneg₁, within₁⟩ := ih onFirst finite₁
    obtain ⟨nonneg₂, within₂⟩ := ih' onSecond finite₂
    obtain ⟨m, units₁⟩ := Binary32.exists_hasUnits_of_isFinite nonneg₁ finite₁
    obtain ⟨n, units₂⟩ := Binary32.exists_hasUnits_of_isFinite nonneg₂ finite₂
    obtain ⟨nonneg, rounded⟩ := Binary32.withinRoundings_add units₁ units₂ finite
    have terms := (within₁.mono (exactSum_nonneg onFirst) (Nat.le_max_left _ second.depth)).add
      (within₂.mono (exactSum_nonneg onSecond) (Nat.le_max_right first.depth _))
    rw [exactSum_combine]
    exact ⟨nonneg, terms.trans rounded⟩

theorem eval_sum_isFinite (nonneg : ∀ i ∈ bracketing.positions, 0 ≤ leafAt i)
    (finite : ∀ i ∈ bracketing.positions, (leafAt i).isFinite)
    (bounded : bracketing.exactSum leafAt * (1 + 1 / 2 ^ 24) ^ bracketing.depth ≤
      Binary32.greatest.toRat) : (bracketing.eval .sum leafAt).isFinite := by
  induction bracketing with
  | neutral => rfl
  | leaf i => exact finite i List.mem_cons_self
  | combine first second ih ih' =>
    obtain ⟨onFirst, onSecond⟩ := List.forall_mem_append.1 nonneg
    obtain ⟨leaves₁, leaves₂⟩ := List.forall_mem_append.1 finite
    have exact₁ := exactSum_nonneg onFirst
    have exact₂ := exactSum_nonneg onSecond
    rw [exactSum_combine, add_mul] at bounded
    have deeper (b : Bracketing) (le : b.depth ≤ (combine first second).depth)
        (exact : 0 ≤ b.exactSum leafAt) : b.exactSum leafAt * (1 + 1 / 2 ^ 24) ^ b.depth ≤
          b.exactSum leafAt * (1 + 1 / 2 ^ 24) ^ (combine first second).depth :=
      mul_le_mul_of_nonneg_left (pow_le_pow_right₀ (by norm_num) le) exact
    have deeper₁ := deeper first (Nat.le_succ_of_le (Nat.le_max_left _ _)) exact₁
    have deeper₂ := deeper second (Nat.le_succ_of_le (Nat.le_max_right _ _)) exact₂
    have room₁ : 0 ≤ first.exactSum leafAt * (1 + 1 / 2 ^ 24) ^ (combine first second).depth := by
      positivity
    have room₂ : 0 ≤ second.exactSum leafAt * (1 + 1 / 2 ^ 24) ^ (combine first second).depth := by
      positivity
    have finite₁ := ih onFirst leaves₁ (by linarith)
    have finite₂ := ih' onSecond leaves₂ (by linarith)
    obtain ⟨nonneg₁, within₁⟩ := eval_sum_within onFirst finite₁
    obtain ⟨nonneg₂, within₂⟩ := eval_sum_within onSecond finite₂
    obtain ⟨m, units₁⟩ := Binary32.exists_hasUnits_of_isFinite nonneg₁ finite₁
    obtain ⟨n, units₂⟩ := Binary32.exists_hasUnits_of_isFinite nonneg₂ finite₂
    apply Binary32.isFinite_add units₁ units₂
    linarith [within₁.upper, within₂.upper]

end Bracketing

namespace PerfectTree

theorem depth_value_named (height first : Nat) : (named height first).value.depth = height := by
  induction height generalizing first with
  | zero => rfl
  | succ height ih =>
    change max (named height first).value.depth _ + 1 = _
    rw [ih, ih, Nat.max_self]

theorem depth_foldFrom_named (height first skip : Nat) :
    ((named height first).foldFrom Bracketing.operation skip).depth ≤ height := by
  induction height generalizing first skip with
  | zero => exact Nat.le_refl 0
  | succ height ih =>
    rw [named, join, foldFrom]
    split
    · change max (Bracketing.depth _) (Bracketing.depth _) + 1 ≤ _
      rw [depth_value_named]
      exact Nat.succ_le_succ (Nat.max_le.2 ⟨ih first skip, Nat.le_refl height⟩)
    · exact Nat.le_succ_of_le (ih _ _)

theorem depth_foldUpTo_named (height first count : Nat) :
    ((named height first).foldUpTo Bracketing.operation count).depth ≤ height := by
  induction height generalizing first count with
  | zero => exact Nat.le_refl 0
  | succ height ih =>
    rw [named, join, foldUpTo]
    split
    · exact Nat.le_succ_of_le (ih _ _)
    · change max (Bracketing.depth _) (Bracketing.depth _) + 1 ≤ _
      rw [depth_value_named]
      exact Nat.succ_le_succ (Nat.max_le.2 ⟨Nat.le_refl height, ih _ _⟩)

theorem depth_foldParts_named (height first start stop : Nat) :
    let parts := (named height first).foldParts Bracketing.operation start stop
    parts.1.depth ≤ height ∧ parts.2.depth ≤ height := by
  induction height generalizing first start stop with
  | zero => exact ⟨Nat.le_refl 0, Nat.le_refl 0⟩
  | succ height ih =>
    have suffix := depth_foldFrom_named (height + 1) first start
    have initial := depth_foldUpTo_named (height + 1) first stop
    have below (first start stop : Nat) := (ih first start stop).imp Nat.le_succ_of_le
      Nat.le_succ_of_le
    rw [named, join] at suffix initial ⊢
    rw [foldParts]
    split
    · exact ⟨Nat.zero_le _, initial⟩
    · split
      · exact ⟨suffix, Nat.zero_le _⟩
      · split
        · exact below _ _ _
        · split
          · exact below _ _ _
          · exact ⟨Nat.le_succ_of_le (depth_foldFrom_named _ _ _),
              Nat.le_succ_of_le (depth_foldUpTo_named _ _ _)⟩

theorem depth_foldRange_named (height start stop : Nat) :
    ((named height 0).foldRange Bracketing.operation start stop).depth ≤ height + 2 := by
  rw [foldRange]
  split
  · change max (max 0 (named height 0).value.depth + 1) 0 + 1 ≤ _
    rw [depth_value_named]
    omega
  · obtain ⟨ending, beginning⟩ := depth_foldParts_named height 0 start stop
    change max (Bracketing.depth _) (Bracketing.depth _) + 1 ≤ _
    omega

end PerfectTree

namespace SegmentTree

theorem depth_ofRange {α : Type} {op : Operation α} (tree : SegmentTree op) (start limit : Nat) :
    (Bracketing.ofRange tree.size start limit).depth ≤ tree.height + 2 := by
  rw [Bracketing.ofRange, log2_size]
  exact PerfectTree.depth_foldRange_named _ _ _

def leavesBetween (tree : SumTree) (start limit : Nat) : List Binary32 :=
  (tree.leaves.drop start).take (limit + 1 - start)

/-- How near the sums over a tree are to exact ones, as long as they are finite and over leaves that
are not below zero. -/
structure NearlyExact (tree : SumTree) : Prop where
  total : (∀ leaf ∈ tree.leaves, 0 ≤ leaf) → tree.total.isFinite →
    WithinRoundings tree.height (tree.leaves.map Binary32.toRat).sum tree.total.toRat
  range : ∀ start limit, start ≤ limit → limit < tree.size →
    ∃ sum, tree.reduce start limit = .ok sum ∧
      ((∀ leaf ∈ tree.leavesBetween start limit, 0 ≤ leaf) → sum.isFinite →
        WithinRoundings (tree.height + 2)
          ((tree.leavesBetween start limit).map Binary32.toRat).sum sum.toRat)

structure FiniteSums (tree : SumTree) : Prop where
  nonneg : ∀ leaf ∈ tree.leaves, 0 ≤ leaf
  nodes : ∀ node ∈ tree.nodes, node.isFinite
  range : ∀ start limit sum, tree.reduce start limit = .ok sum → sum.isFinite

variable {tree : SumTree} {bracketing : Bracketing} {start count : Nat}

theorem total_eq_eval (combined : tree.root.Combined .sum) :
    tree.total = (PerfectTree.named tree.height 0).value.eval .sum (tree.root.get ·) := by
  have spelled : tree.root = (PerfectTree.named tree.height 0).map
      (Bracketing.eval .sum (tree.root.get ·)) :=
    combined.eq_map_named fun i _ => by rw [Nat.zero_add]
  rw [total, ← PerfectTree.value_map (Bracketing.eval .sum (tree.root.get ·)), ← spelled]

theorem eval_within_of_positions (positions : bracketing.positions = List.range' start count)
    (inside : start + count ≤ tree.size)
    (nonneg : ∀ leaf ∈ (tree.leaves.drop start).take count, 0 ≤ leaf)
    (finite : (bracketing.eval .sum (tree.root.get ·)).isFinite) :
    WithinRoundings bracketing.depth (((tree.leaves.drop start).take count).map Binary32.toRat).sum
      (bracketing.eval .sum (tree.root.get ·)).toRat := by
  rw [← map_get_range' tree inside, ← positions] at nonneg ⊢
  rw [List.map_map]
  exact (Bracketing.eval_sum_within (List.forall_mem_map.1 nonneg) finite).2

theorem sum_toRat_nonneg {leaves : List Binary32} (nonneg : ∀ leaf ∈ leaves, 0 ≤ leaf) :
    0 ≤ (leaves.map Binary32.toRat).sum :=
  List.sum_nonneg (List.forall_mem_map.2 fun leaf mem => Binary32.toRat_nonneg (nonneg leaf mem))

theorem nearlyExact (combined : tree.root.Combined .sum) : tree.NearlyExact where
  total nonneg finite := by
    have all : (tree.leaves.drop 0).take tree.size = tree.leaves := by
      rw [List.drop_zero, List.take_of_length_le]
      exact (PerfectTree.length_leaves tree.root).le
    rw [total_eq_eval combined] at finite ⊢
    have within := eval_within_of_positions (PerfectTree.positions_value_named tree.height 0)
      (Nat.zero_add tree.size).le (all.symm ▸ nonneg) finite
    rw [PerfectTree.depth_value_named] at within
    exact all ▸ within
  range start limit nonempty inside := by
    refine ⟨_, reduce_eq_eval combined inside nonempty, fun nonneg finite => ?_⟩
    have within := eval_within_of_positions (positions_ofRange tree nonempty inside) (by omega)
      nonneg finite
    exact within.mono (sum_toRat_nonneg nonneg) (depth_ofRange tree start limit)

theorem isFinite_nodeAt {height : Nat} {root : PerfectTree Binary32 height}
    (combined : root.Combined .sum) (finite : root.value.isFinite) (depth i : Nat) :
    (root.nodeAt depth i).isFinite := by
  induction root generalizing depth i with
  | leaf v => cases depth <;> exact finite
  | node v left right ihl ihr =>
    obtain ⟨rfl, onLeft, onRight⟩ := combined
    obtain ⟨finite₁, finite₂⟩ := Binary32.isFinite_of_add finite
    cases depth with
    | zero => exact finite
    | succ depth =>
      unfold PerfectTree.nodeAt
      split
      · exact ihl onLeft finite₁ depth i
      · exact ihr onRight finite₂ depth _

/-- As many roundings upwards as a tree of `2 ^ 126` leaves can take do not double a sum. -/
theorem roundings_le_two {depth : Nat} (le : depth ≤ 128) : (1 + 1 / 2 ^ 24 : ℚ) ^ depth ≤ 2 :=
  le_trans (pow_le_pow_right₀ (by norm_num) le) (by norm_num)

theorem eval_isFinite_of_amounts {bound : Nat} (amounts : tree.root.Amounts bound)
    (small : 2 * (tree.size * bound) ≤ Binary32.greatestUnits)
    (positions : bracketing.positions = List.range' start count)
    (inside : start + count ≤ tree.size) (depth : bracketing.depth ≤ 128) :
    (bracketing.eval .sum (tree.root.get ·)).isFinite := by
  have amount : ∀ i ∈ bracketing.positions, (tree.root.get i).IsAmount bound := by
    intro i mem
    rw [positions, List.mem_range'_1] at mem
    exact amounts i (show i < tree.size by omega)
  have nonneg : ∀ i ∈ bracketing.positions, 0 ≤ tree.root.get i := by
    intro i mem
    obtain ⟨m, equal, _⟩ := amount i mem
    rw [equal]
    exact Binary32.zero_le_finite m
  apply Bracketing.eval_sum_isFinite nonneg
  · intro i mem
    obtain ⟨m, equal, _⟩ := amount i mem
    rw [equal]
    rfl
  · have each : ∀ x ∈ bracketing.positions.map fun i => (tree.root.get i).toRat,
        x ≤ (bound : ℚ) / 2 ^ 149 := by
      refine List.forall_mem_map.2 fun i mem => ?_
      obtain ⟨m, equal, below⟩ := amount i mem
      rw [equal, (Binary32.hasUnits_finite m).toRat_eq]
      gcongr
    have length : bracketing.positions.length ≤ tree.size := by
      rw [positions, List.length_range']
      omega
    have sum : bracketing.exactSum (tree.root.get ·) ≤ tree.size * ((bound : ℚ) / 2 ^ 149) := by
      refine le_trans (List.sum_le_card_nsmul _ _ each) ?_
      rw [List.length_map, nsmul_eq_mul]
      gcongr
    calc bracketing.exactSum (tree.root.get ·) * (1 + 1 / 2 ^ 24) ^ bracketing.depth
        ≤ tree.size * ((bound : ℚ) / 2 ^ 149) * 2 := by
          gcongr
          exact roundings_le_two depth
      _ = ((2 * (tree.size * bound) : Nat) : ℚ) / 2 ^ 149 := by
          push_cast
          ring
      _ ≤ Binary32.greatest.toRat := by
          rw [Binary32.greatest, (Binary32.hasUnits_finite _).toRat_eq]
          gcongr

theorem finiteSums_of_amounts {bound : Nat} (combined : tree.root.Combined .sum)
    (amounts : tree.root.Amounts bound) (small : 2 * (tree.size * bound) ≤ Binary32.greatestUnits)
    (height : tree.height ≤ 126) : tree.FiniteSums where
  nonneg leaf mem := by
    obtain ⟨i, inside, rfl⟩ := PerfectTree.mem_leaves_iff.1 mem
    obtain ⟨m, equal, _⟩ := amounts i inside
    rw [equal]
    exact Binary32.zero_le_finite m
  nodes := by
    have finite : tree.total.isFinite := by
      rw [total_eq_eval combined]
      apply eval_isFinite_of_amounts amounts small
        (PerfectTree.positions_value_named tree.height 0) (Nat.zero_add tree.size).le
      rw [PerfectTree.depth_value_named]
      omega
    unfold nodes
    refine List.forall_mem_cons.2 ⟨rfl, List.forall_mem_map.2 fun k _ => ?_⟩
    exact isFinite_nodeAt combined finite _ _
  range start limit sum reduced := by
    by_cases inside : limit < tree.size
    · by_cases nonempty : start ≤ limit
      · rw [reduce_eq_eval combined inside nonempty] at reduced
        obtain rfl := Except.ok.inj reduced
        apply eval_isFinite_of_amounts amounts small (positions_ofRange tree nonempty inside)
        · omega
        · have := depth_ofRange tree start limit
          omega
      · rw [reduce_eq_neutral inside (by omega)] at reduced
        obtain rfl := Except.ok.inj reduced
        rfl
    · rw [reduce_eq_error (by omega)] at reduced
      cases reduced

end SegmentTree

end ExperienceReplay
