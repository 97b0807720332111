import ExperienceReplay.Proofs.Binary32.Exact

/-!
Rounded arithmetic keeps the order of exact results. Main statements: sums, products and quotients
of finite numbers are ordered as the exact ones are, even where they are rounded to infinities, and
an exact result that the format has a number for is that number.
-/

namespace ExperienceReplay.Binary32

def quotientRank (num den : Nat) : Int :=
  if Rounding.toBits precision num den ≤ greatestUnits then Rounding.toBits precision num den
  else 2 ^ 277

theorem rank?_ofQuotient (negative : Bool) (num den : Nat) :
    (ofQuotient negative num den).rank? =
      some (if negative then -quotientRank num den else quotientRank num den) := by
  unfold ofQuotient quotientRank
  split
  next => rfl
  next => rfl

theorem quotientRank_mono {num den num' den' : Nat} (positive : 0 < den) (positive' : 0 < den')
    (h : num * den' ≤ num' * den) : quotientRank num den ≤ quotientRank num' den' := by
  have bits : Rounding.toBits precision num den ≤ Rounding.toBits precision num' den' :=
    Rounding.toBits_mono (by decide) positive positive' h
  have greatest : (greatestUnits : Int) < 2 ^ 277 :=
    units_lt_infinity ⟨greatestUnits, by decide, by decide⟩
  unfold quotientRank
  split <;> split <;> omega

theorem quotientRank_nonneg (num den : Nat) : 0 ≤ quotientRank num den := by
  unfold quotientRank
  split <;> omega

def nearest (num : Int) (den : Nat) : Binary32 := ofQuotient (decide (num < 0)) num.natAbs den

theorem rank?_nearest (num : Int) (den : Nat) :
    (nearest num den).rank? =
      some (if num < 0 then -quotientRank num.natAbs den else quotientRank num.natAbs den) := by
  rw [nearest, rank?_ofQuotient]
  simp only [decide_eq_true_eq]

theorem nearest_le_nearest {num num' : Int} {den den' : Nat} (positive : 0 < den)
    (positive' : 0 < den') (h : num * den' ≤ num' * den) : nearest num den ≤ nearest num' den' := by
  refine le_iff_rank.2 ⟨_, _, rank?_nearest num den, rank?_nearest num' den', ?_⟩
  have nonneg := quotientRank_nonneg num.natAbs den
  have nonneg' := quotientRank_nonneg num'.natAbs den'
  split
  next minus =>
    split
    next minus' =>
      apply Int.neg_le_neg
      apply quotientRank_mono positive' positive
      zify
      rw [abs_of_neg minus, abs_of_neg minus']
      linarith
    next => omega
  next plus =>
    split
    next minus' =>
      -- the exact quotients would be on different sides of zero
      have : 0 ≤ num * den' := Int.mul_nonneg (Int.not_lt.1 plus) (Int.natCast_nonneg den')
      have : num' * den < 0 := Int.mul_neg_of_neg_of_pos minus' (Int.natCast_pos.2 positive)
      omega
    next plus' =>
      apply quotientRank_mono positive positive'
      zify
      rw [abs_of_nonneg (Int.not_lt.1 plus), abs_of_nonneg (Int.not_lt.1 plus')]
      exact h

theorem quotientRank_zero {den : Nat} (positive : 0 < den) : quotientRank 0 den = 0 := by
  have zero := congrArg rank? (ofQuotient_eq false .zero positive (Nat.zero_mul den).symm)
  rw [rank?_ofQuotient] at zero
  exact Option.some.inj zero

theorem rank?_ofQuotient_eq_nearest (negative : Bool) (num : Nat) {den : Nat} (positive : 0 < den) :
    (ofQuotient negative num den).rank? =
      (nearest (if negative then -(num : Int) else num) den).rank? := by
  rw [rank?_ofQuotient, rank?_nearest]
  cases negative with
  | false => simp
  | true =>
    rcases Nat.eq_zero_or_pos num with rfl | nonzero
    · simp [quotientRank_zero positive]
    · simp [nonzero]

/-- The number is `num / den` units, rounded. Nothing is said about the sign of a zero. -/
def IsRounded (x : Binary32) (num : Int) (den : Nat) : Prop := x.rank? = (nearest num den).rank?

variable {x y z w : Binary32} {a b c d num num' : Int} {den den' : Nat}

theorem IsRounded.le (hx : x.IsRounded num den) (hy : y.IsRounded num' den') (positive : 0 < den)
    (positive' : 0 < den') (h : num * den' ≤ num' * den) : x ≤ y := by
  rw [le_iff_rank, hx, hy]
  exact le_iff_rank.1 (nearest_le_nearest positive positive' h)

theorem isRounded_of_units? (hx : x.units? = some a) (positive : 0 < den) :
    x.IsRounded (a * den) den := by
  obtain ⟨negative, m, rfl, rfl⟩ := exists_finite_of_units? hx
  have exact := rank?_ofQuotient_eq_nearest negative (m.units * den) positive
  rw [ofQuotient_eq negative m positive rfl] at exact
  rw [IsRounded, exact]
  cases negative <;> simp

theorem IsRounded.le_units (hx : x.units? = some a) (hy : y.IsRounded num den) (positive : 0 < den)
    (h : a * den ≤ num) : x ≤ y :=
  (isRounded_of_units? hx positive).le hy positive positive
    (Int.mul_le_mul_of_nonneg_right h (Int.natCast_nonneg den))

theorem IsRounded.units_le (hx : x.units? = some a) (hy : y.IsRounded num den) (positive : 0 < den)
    (h : num ≤ a * den) : y ≤ x :=
  hy.le (isRounded_of_units? hx positive) positive positive
    (Int.mul_le_mul_of_nonneg_right h (Int.natCast_nonneg den))

theorem IsRounded.natAbs_units (hx : x.IsRounded num den) (units : x.units? = some a) :
    a.natAbs = Rounding.toBits precision num.natAbs den := by
  have rank := Option.some.inj
    ((rank?_of_units? units).symm.trans (hx.trans (rank?_nearest num den)))
  have small := natAbs_units_lt_infinity units
  unfold quotientRank at rank
  split at rank <;> split at rank <;> omega

theorem IsRounded.exists_units (hy : y.IsRounded num den) (positive : 0 < den)
    (hx : x.units? = some a) (hz : z.units? = some c) (below : a * den ≤ num)
    (above : num ≤ c * den) : ∃ b, y.units? = some b ∧ a ≤ b ∧ b ≤ c :=
  exists_units_of_between hx hz (hy.le_units hx positive below)
    (hy.le (isRounded_of_units? hz positive) positive positive
      (Int.mul_le_mul_of_nonneg_right above (Int.natCast_nonneg den)))

theorem isRounded_ofNat (n : Nat) : (ofNat n).IsRounded (n * unitsPerOne : Nat) 1 :=
  rank?_ofQuotient_eq_nearest false (n * unitsPerOne) Nat.one_pos

theorem isRounded_add (hx : x.units? = some a) (hy : y.units? = some b) :
    (x + y).IsRounded (a + b) 1 := by
  obtain ⟨s, m, rfl, rfl⟩ := exists_finite_of_units? hx
  obtain ⟨t, n, rfl, rfl⟩ := exists_finite_of_units? hy
  rw [IsRounded, add_eq]
  generalize (if s then -(m.units : Int) else m.units) + _ = sum
  split
  next zero =>
    rw [zero]
    cases s && t <;> rfl
  next => rfl

theorem isRounded_sub (hx : x.units? = some a) (hy : y.units? = some b) :
    (x - y).IsRounded (a - b) 1 :=
  isRounded_add hx (units?_neg hy)

theorem isRounded_mul (hx : x.units? = some a) (hy : y.units? = some b) :
    (x * y).IsRounded (a * b) unitsPerOne := by
  obtain ⟨s, m, rfl, rfl⟩ := exists_finite_of_units? hx
  obtain ⟨t, n, rfl, rfl⟩ := exists_finite_of_units? hy
  change (ofQuotient (s ^^ t) (m.units * n.units) unitsPerOne).rank? = _
  rw [rank?_ofQuotient_eq_nearest _ _ (by decide)]
  cases s <;> cases t <;> simp

theorem isRounded_div (hx : x.units? = some a) {n : Nat} (hy : y.HasUnits n) (positive : 0 < n) :
    (x / y).IsRounded (a * unitsPerOne) n := by
  obtain ⟨s, m, rfl, rfl⟩ := exists_finite_of_units? hx
  obtain ⟨d, rfl, rfl⟩ := hy.exists_finite positive
  change (if d.units = 0 then _ else ofQuotient (s ^^ false) _ _).rank? = _
  rw [if_neg (by omega), Bool.xor_false, rank?_ofQuotient_eq_nearest _ _ positive]
  cases s <;> simp

theorem sub_le_sub (hx : x.units? = some a) (hy : y.units? = some b) (hz : z.units? = some c)
    (hw : w.units? = some d) (h : a - b ≤ c - d) : x - y ≤ z - w :=
  (isRounded_sub hx hy).le (isRounded_sub hz hw) Nat.one_pos Nat.one_pos (by omega)

theorem mul_le_mul (hx : x.units? = some a) (hy : y.units? = some b) (hz : z.units? = some c)
    (hw : w.units? = some d) (h : a * b ≤ c * d) : x * y ≤ z * w :=
  (isRounded_mul hx hy).le (isRounded_mul hz hw) (by decide) (by decide)
    (Int.mul_le_mul_of_nonneg_right h (by decide))

theorem div_le_div (hx : x.units? = some a) (hy : y.units? = some b) {m n : Nat}
    (hz : z.HasUnits m) (hw : w.HasUnits n) (positive : 0 < m) (positive' : 0 < n)
    (h : a * n ≤ b * m) : x / z ≤ y / w := by
  refine (isRounded_div hx hz positive).le (isRounded_div hy hw positive') positive positive' ?_
  rw [Int.mul_right_comm, Int.mul_right_comm b]
  exact Int.mul_le_mul_of_nonneg_right h (by decide)

theorem exists_hasUnits_div {m n : Nat} (hx : x.HasUnits m) (hy : y.HasUnits n) (positive : 0 < n)
    (le : m ≤ n) : ∃ share ≤ unitsPerOne, (x / y).HasUnits share := by
  have nonneg : ((0 : Nat) : Int) * n ≤ m * unitsPerOne := by
    rw [Int.ofNat_zero, Int.zero_mul]
    positivity
  have atMost : (m * unitsPerOne : Int) ≤ unitsPerOne * n := by
    rw [Int.mul_comm]
    exact_mod_cast Nat.mul_le_mul_left unitsPerOne le
  obtain ⟨share, units, zero_le, le_one⟩ := (isRounded_div hx hy positive).exists_units positive
    hasUnits_zero hasUnits_one nonneg atMost
  obtain ⟨share, rfl⟩ := Int.eq_ofNat_of_zero_le zero_le
  exact ⟨share, Int.ofNat_le.1 le_one, units⟩

/-- A remainder that is less than infinity is one of finite numbers, unless it is below zero. -/
theorem exists_units_of_sub_lt {b c : Binary32} (reached : ¬b < c) (rest : b - c < infinity) :
    (∃ y, b.units? = some y) ∧ ∃ z, c.units? = some z := by
  have notNumber : ¬nan < infinity := by decide
  have notLess := lt_irrefl infinity
  have ends : infinite true < infinity := lt_of_lt_of_le (negInfinity_lt_finite (x := 0) rfl)
    (le_infinity nofun)
  cases b with
  | nan => exact absurd rest notNumber
  | infinite s =>
    cases c with
    | nan => exact absurd rest notNumber
    | infinite t =>
      match s, t with
      | false, false => exact absurd rest notNumber
      | false, true => exact absurd rest notLess
      | true, false => exact absurd ends reached
      | true, true => exact absurd rest notNumber
    | finite t n =>
      cases s with
      | false => exact absurd rest notLess
      | true => exact absurd (negInfinity_lt_finite rfl) reached
  | finite s m =>
    cases c with
    | nan => exact absurd rest notNumber
    | infinite t =>
      cases t with
      | false => exact absurd (finite_lt_infinity rfl) reached
      | true => exact absurd rest notLess
    | finite t n => exact ⟨⟨_, rfl⟩, _, rfl⟩

/-- What is not less than a number stays ordered when the number is taken from it. Nothing is
claimed of a remainder that is infinite or no number: it is less than nothing. -/
theorem sub_le_sub_of_reached {a b c : Binary32} (ordered : b < infinity → a ≤ b)
    (reached : ¬a < c) (reached' : ¬b < c) (rest : b - c < infinity) : a - c ≤ b - c := by
  obtain ⟨⟨y, hb⟩, z, hc⟩ := exists_units_of_sub_lt reached' rest
  have below := ordered (finite_lt_infinity hb)
  have above : c ≤ a := le_of_not_lt (ne_nan_of_units? hc) (ne_nan_of_le below).1 reached
  obtain ⟨x, ha, _, _⟩ := exists_units_of_between hc hb above below
  exact sub_le_sub ha hc hb hc (by omega)

end ExperienceReplay.Binary32
