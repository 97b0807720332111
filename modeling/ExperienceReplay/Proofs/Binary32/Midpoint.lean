import ExperienceReplay.Proofs.Binary32.Rounding

/-!
Where rounding changes its result. Main statement: a quotient is rounded to at most a number of the
format exactly if it lies below the middle between that number and the next one; the middle itself
goes to the even one.
-/

namespace ExperienceReplay.Rounding

def spacing (bits n : Nat) : Nat := 2 ^ (n.log2 + 1 - bits)

theorem two_pow_le_count {bits count n : Nat} (bits_pos : 0 < bits)
    (coarse : 0 < n.log2 + 1 - bits) (h : n = count * 2 ^ (n.log2 + 1 - bits)) :
    2 ^ (bits - 1) ≤ count := by
  have nonzero : n ≠ 0 := by
    rintro rfl
    rw [Nat.log2_zero] at coarse
    omega
  have below := Nat.log2_self_le nonzero
  have log : n.log2 = bits - 1 + (n.log2 + 1 - bits) := by omega
  generalize n.log2 + 1 - bits = g at h log
  rw [log, Nat.pow_add] at below
  exact Nat.le_of_mul_le_mul_right (h ▸ below) (Nat.two_pow_pos g)

theorem div_lt_two_pow_grid (bits num den : Nat) :
    num / den < 2 ^ (bits + gridExponent bits num den) :=
  Nat.lt_of_lt_of_le Nat.lt_log2_self
    (Nat.pow_le_pow_right (by decide) (by unfold gridExponent; omega))

theorem two_pow_grid_le_div {bits num den : Nat} (bits_pos : 0 < bits)
    (coarse : 0 < gridExponent bits num den) :
    2 ^ (bits + gridExponent bits num den) ≤ 2 * (num / den) := by
  have log : bits + gridExponent bits num den = (num / den).log2 + 1 := by
    unfold gridExponent at coarse ⊢
    omega
  have nonzero : num / den ≠ 0 := by
    intro zero
    rw [gridExponent, zero, Nat.log2_zero] at coarse
    omega
  rw [log, Nat.pow_succ, Nat.mul_comm]
  exact Nat.mul_le_mul_left 2 (Nat.log2_self_le nonzero)

theorem two_mul_add_two_pow (count g : Nat) :
    2 * (count * 2 ^ g) + 2 ^ g = (2 * count + 1) * 2 ^ g := by
  ring

theorem toBits_le_iff {bits num den n : Nat} (bits_pos : 0 < bits) (positive : 0 < den)
    (fits : Fits bits n) :
    toBits bits num den ≤ n ↔
      2 * num < (2 * n + spacing bits n) * den ∨
        2 * num = (2 * n + spacing bits n) * den ∧ n / spacing bits n % 2 = 0 := by
  obtain ⟨count, small, h⟩ := fits.exists_count
  have leading := fun coarse => two_pow_le_count bits_pos coarse h
  have quotient := div_lt_two_pow_grid bits num den
  have quotient' : 0 < gridExponent bits num den → _ := two_pow_grid_le_div bits_pos
  have lower := nearestQuotient_grid_le bits num den
  have upper : 0 < gridExponent bits num den → _ := two_pow_le_nearestQuotient_grid bits_pos
  unfold spacing toBits
  dsimp only
  generalize n.log2 + 1 - bits = g at h leading ⊢
  generalize gridExponent bits num den = G at quotient quotient' lower upper ⊢
  subst h
  have power : 0 < 2 ^ g := Nat.two_pow_pos g
  rcases Nat.lt_trichotomy G g with finer | rfl | coarser
  · -- the whole finer grid lies below `n`
    have leading := leading (Nat.zero_lt_of_lt finer)
    have reach : 2 ^ (bits + G) ≤ count * 2 ^ g :=
      calc 2 ^ (bits + G) ≤ 2 ^ (bits - 1 + g) := Nat.pow_le_pow_right (by decide) (by omega)
        _ = 2 ^ (bits - 1) * 2 ^ g := Nat.pow_add 2 (bits - 1) g
        _ ≤ count * 2 ^ g := Nat.mul_le_mul_right _ leading
    have less : num < count * 2 ^ g * den :=
      (Nat.div_lt_iff_lt_mul positive).1 (Nat.lt_of_lt_of_le quotient reach)
    constructor
    · intro _
      left
      rw [Nat.add_mul, Nat.mul_assoc 2]
      omega
    · intro _
      exact Nat.le_trans (Nat.pow_add 2 bits G ▸ Nat.mul_le_mul_right _ lower) reach
  · have middle : (2 * (count * 2 ^ G) + 2 ^ G) * den = (2 * count + 1) * (den * 2 ^ G) := by ring
    rw [middle, Nat.mul_div_cancel _ power, Nat.mul_le_mul_right_iff power,
      nearestQuotient_le_iff (Nat.mul_pos positive power)]
  · -- the coarser grid begins above `n`
    have coarse := Nat.zero_lt_of_lt coarser
    have reach : 2 * (count * 2 ^ g) + 2 ^ g < 2 ^ (bits + G) :=
      calc 2 * (count * 2 ^ g) + 2 ^ g = (2 * count + 1) * 2 ^ g := two_mul_add_two_pow count g
        _ < 2 * 2 ^ bits * 2 ^ g := Nat.mul_lt_mul_of_pos_right (by omega) power
        _ = 2 ^ (bits + (g + 1)) := by rw [Nat.pow_add, Nat.pow_succ]; ring
        _ ≤ 2 ^ (bits + G) := Nat.pow_le_pow_right (by decide) (by omega)
    have more : (2 * (count * 2 ^ g) + 2 ^ g) * den < 2 * num :=
      calc (2 * (count * 2 ^ g) + 2 ^ g) * den < 2 ^ (bits + G) * den :=
            Nat.mul_lt_mul_of_pos_right reach positive
        _ ≤ 2 * (num / den) * den := Nat.mul_le_mul_right _ (quotient' coarse)
        _ ≤ 2 * num := by
            rw [Nat.mul_assoc]
            exact Nat.mul_le_mul_left 2 (Nat.div_mul_le_self num den)
    have above : count * 2 ^ g < nearestQuotient num (den * 2 ^ G) * 2 ^ G := by
      have : 2 * 2 ^ (bits - 1) = 2 ^ bits := by rw [← Nat.pow_succ']; congr 1; omega
      have half := Nat.mul_le_mul_right (2 ^ G) (upper coarse)
      rw [Nat.pow_add, ← this, Nat.mul_assoc] at reach
      omega
    constructor <;> omega

/-- The distance from a number of the format to the one before it, which is halved at the powers of
two. -/
def spacingBelow (bits n : Nat) : Nat :=
  if 0 < n.log2 + 1 - bits ∧ n = 2 ^ n.log2 then 2 ^ (n.log2 + 1 - bits - 1) else spacing bits n

theorem log2_count {bits count : Nat} (bits_pos : 0 < bits) (g : Nat)
    (leading : 2 ^ (bits - 1) ≤ count) (small : count < 2 ^ bits) :
    (count * 2 ^ g).log2 = bits - 1 + g := by
  have power : 0 < 2 ^ (bits - 1) := Nat.two_pow_pos _
  rw [Nat.log2_eq_iff (Nat.mul_ne_zero (by omega) (Nat.two_pow_pos g).ne'), Nat.pow_add,
    show bits - 1 + g + 1 = bits + g by omega, Nat.pow_add]
  exact ⟨Nat.mul_le_mul_right _ leading, Nat.mul_lt_mul_of_pos_right small (Nat.two_pow_pos g)⟩

structure Below (bits n count : Nat) (g : Nat) : Prop where
  eq : n = (count + 1) * 2 ^ g
  below : spacingBelow bits n = 2 ^ g
  spaced : spacing bits (count * 2 ^ g) = 2 ^ g
  small : count < 2 ^ bits
  above : spacing bits n = 2 ^ g ∨
    count + 1 = 2 ^ bits ∧ spacing bits n = 2 ^ (g + 1)

theorem Fits.exists_below {bits n : Nat} (bits_pos : 0 < bits) (fits : Fits bits n)
    (nonzero : n ≠ 0) : ∃ count g, Below bits n count g := by
  obtain ⟨count, small, h⟩ := fits.exists_count
  have leading := fun coarse => two_pow_le_count bits_pos coarse h
  by_cases halved : 0 < n.log2 + 1 - bits ∧ n = 2 ^ n.log2
  · -- the number before a power of two has all digits one, on the finer grid
    obtain ⟨coarse, power⟩ := halved
    have log : n.log2 = bits - 1 + 1 + (n.log2 + 1 - bits - 1) := by omega
    have bound : 2 ^ (bits - 1) ≤ 2 ^ bits - 1 := by
      have : 2 * 2 ^ (bits - 1) = 2 ^ bits := by rw [← Nat.pow_succ']; congr 1; omega
      have := Nat.two_pow_pos (bits - 1)
      omega
    have grid := log2_count bits_pos (n.log2 + 1 - bits - 1) bound
      (Nat.sub_lt (Nat.two_pow_pos bits) Nat.one_pos)
    have ones : 2 ^ bits - 1 + 1 = 2 ^ bits := Nat.sub_add_cancel (Nat.two_pow_pos bits)
    refine ⟨2 ^ bits - 1, n.log2 + 1 - bits - 1, ?_, ?_, ?_, ?_, Or.inr ⟨ones, ?_⟩⟩
    · rw [ones, ← Nat.pow_add, show bits + (n.log2 + 1 - bits - 1) = n.log2 by omega]
      exact power
    · rw [spacingBelow, if_pos ⟨coarse, power⟩]
    · rw [spacing, grid]
      congr 1
      omega
    · omega
    · rw [spacing]
      congr 1
      omega
  · have positive : 0 < count := by
      refine Nat.pos_of_ne_zero ?_
      rintro rfl
      exact nonzero (by rw [h, Nat.zero_mul])
    refine ⟨count - 1, n.log2 + 1 - bits, ?_, ?_, ?_, ?_, Or.inl rfl⟩
    · rwa [Nat.sub_add_cancel positive]
    · rw [spacingBelow, if_neg halved, spacing]
    · rcases Nat.eq_zero_or_pos (n.log2 + 1 - bits) with finest | coarse
      · rw [finest, Nat.pow_zero, Nat.mul_one] at h
        have smaller := log2_mono (h ▸ Nat.sub_le count 1 : count - 1 ≤ n)
        rw [spacing, finest, Nat.pow_zero, Nat.mul_one,
          show (count - 1).log2 + 1 - bits = 0 by omega, Nat.pow_zero]
      · have more : 2 ^ (bits - 1) ≠ count := by
          rintro rfl
          refine halved ⟨coarse, ?_⟩
          rwa [← Nat.pow_add, show bits - 1 + (n.log2 + 1 - bits) = n.log2 by omega] at h
        have := leading coarse
        rw [spacing, log2_count bits_pos _ (by omega) (by omega)]
        congr 1
        omega
    · omega

theorem Fits.add_spacing_le {bits m n : Nat} (fits : Fits bits n) (fits' : Fits bits m)
    (less : n < m) : n + spacing bits n ≤ m := by
  have finer : spacing bits n ∣ m :=
    Nat.dvd_trans (Nat.pow_dvd_pow 2 (by have := log2_mono less.le; omega)) fits'
  have multiple : spacing bits n ∣ m - n := Nat.dvd_sub finer fits
  have := Nat.le_of_dvd (Nat.sub_pos_of_lt less) multiple
  omega

namespace Below

variable {bits n count g : Nat}

theorem eq_add (below : Below bits n count g) : n = count * 2 ^ g + 2 ^ g := by
  rw [below.eq, Nat.succ_mul]

theorem toBits_eq_iff (below : Below bits n count g) (bits_pos : 0 < bits) (num den : Nat) :
    toBits bits num den = n ↔ toBits bits num den ≤ n ∧ ¬ toBits bits num den ≤ count * 2 ^ g := by
  have before := below.eq_add
  have fitsBefore : Fits bits (count * 2 ^ g) := fits_mul_two_pow bits_pos below.small.le
  have power := Nat.two_pow_pos g
  constructor
  · intro same
    omega
  · rintro ⟨atMost, more⟩
    have least := fitsBefore.add_spacing_le (fits_toBits bits_pos num den) (Nat.lt_of_not_le more)
    rw [below.spaced] at least
    omega

/-- Of a number and the one before it, exactly one is even in its own spacing. -/
theorem parity (below : Below bits n count g) (bits_gt : 1 < bits) :
    count * 2 ^ g / 2 ^ g % 2 = 0 ↔ n / spacing bits n % 2 = 1 := by
  have power := Nat.two_pow_pos g
  rw [Nat.mul_div_cancel _ power]
  rcases below.above with same | ⟨ones, doubled⟩
  · rw [same, below.eq, Nat.mul_div_cancel _ power]
    omega
  · have even : 2 ^ bits = 2 * 2 ^ (bits - 1) := by rw [← Nat.pow_succ']; congr 1; omega
    have even' : 2 ^ (bits - 1) = 2 * 2 ^ (bits - 2) := by rw [← Nat.pow_succ']; congr 1; omega
    have : n / spacing bits n = 2 ^ (bits - 1) := by
      rw [doubled, below.eq, ones, even, Nat.mul_comm 2, Nat.mul_assoc, ← Nat.pow_succ',
        Nat.mul_div_cancel _ (Nat.two_pow_pos _)]
    omega

end Below

/-- A quotient is rounded to a number exactly if it lies between the middles to the number's
neighbours; the middles themselves belong to it if it is even. -/
theorem toBits_eq_iff {bits num den n : Nat} (bits_gt : 1 < bits) (positive : 0 < den)
    (fits : Fits bits n) (nonzero : n ≠ 0) :
    toBits bits num den = n ↔
      if n / spacing bits n % 2 = 0 then
        (2 * n - spacingBelow bits n) * den ≤ 2 * num ∧ 2 * num ≤ (2 * n + spacing bits n) * den
      else
        (2 * n - spacingBelow bits n) * den < 2 * num ∧
          2 * num < (2 * n + spacing bits n) * den := by
  have bits_pos : 0 < bits := Nat.zero_lt_of_lt bits_gt
  obtain ⟨count, g, below⟩ := fits.exists_below bits_pos nonzero
  have fitsBefore : Fits bits (count * 2 ^ g) := fits_mul_two_pow bits_pos below.small.le
  have middle : 2 * n - spacingBelow bits n = 2 * (count * 2 ^ g) + 2 ^ g := by
    have before := below.eq_add
    rw [below.below]
    omega
  have parity := below.parity bits_gt
  rw [below.toBits_eq_iff bits_pos, toBits_le_iff bits_pos positive fits,
    toBits_le_iff bits_pos positive fitsBefore, middle, below.spaced]
  generalize (2 * n + spacing bits n) * den = upper
  generalize (2 * (count * 2 ^ g) + 2 ^ g) * den = lower
  split <;> omega

theorem exists_count_of_not_fits {bits n : Nat} (bits_pos : 0 < bits) (fits : ¬Fits bits n) :
    ∃ count g, 2 ^ (bits - 1) ≤ count ∧ count < 2 ^ bits ∧ count * 2 ^ g ≤ n ∧
      n ≤ (count + 1) * 2 ^ g := by
  have coarse : 0 < n.log2 + 1 - bits := by
    refine Nat.pos_of_ne_zero fun finest => fits ?_
    rw [Fits, finest]
    exact Nat.one_dvd n
  have nonzero : n ≠ 0 := by
    rintro rfl
    exact fits (Nat.dvd_zero _)
  have lower := Nat.log2_self_le nonzero
  have upper : n < 2 ^ (n.log2 + 1) := Nat.lt_log2_self
  have whole := Nat.div_add_mod n (2 ^ (n.log2 + 1 - bits))
  have rest := Nat.mod_lt n (Nat.two_pow_pos (n.log2 + 1 - bits))
  refine ⟨n / 2 ^ (n.log2 + 1 - bits), n.log2 + 1 - bits, ?_, ?_, Nat.div_mul_le_self _ _, ?_⟩
  · rw [Nat.le_div_iff_mul_le (Nat.two_pow_pos _), ← Nat.pow_add]
    exact Nat.le_trans (Nat.pow_le_pow_right (by decide) (by omega)) lower
  · rw [Nat.div_lt_iff_lt_mul (Nat.two_pow_pos _), ← Nat.pow_add]
    exact Nat.lt_of_lt_of_le upper (Nat.pow_le_pow_right (by decide) (by omega))
  · have next : (n / 2 ^ (n.log2 + 1 - bits) + 1) * 2 ^ (n.log2 + 1 - bits) =
        2 ^ (n.log2 + 1 - bits) * (n / 2 ^ (n.log2 + 1 - bits)) + 2 ^ (n.log2 + 1 - bits) := by
      ring
    omega

@[simp]
theorem toBits_zero (bits den : Nat) : toBits bits 0 den = 0 := by
  simp [toBits, nearestQuotient]

/-- A number of the format falls short of a greater one by a part in `2 ^ bits`. -/
theorem Fits.mul_two_pow_le {bits m n : Nat} (fits : Fits bits n) (fits' : Fits bits m)
    (less : n < m) : n * 2 ^ bits ≤ (2 ^ bits - 1) * m := by
  obtain ⟨count, small, h⟩ := fits.exists_count
  have next : n + spacing bits n ≤ m := fits.add_spacing_le fits' less
  have atMost : n ≤ (2 ^ bits - 1) * spacing bits n :=
    calc n = count * spacing bits n := h
      _ ≤ (2 ^ bits - 1) * spacing bits n := Nat.mul_le_mul_right _ (by omega)
  calc n * 2 ^ bits = n * (2 ^ bits - 1 + 1) := by rw [Nat.sub_add_cancel (Nat.two_pow_pos bits)]
    _ = (2 ^ bits - 1) * n + n := by ring
    _ ≤ (2 ^ bits - 1) * n + (2 ^ bits - 1) * spacing bits n := Nat.add_le_add_left atMost _
    _ = (2 ^ bits - 1) * (n + spacing bits n) := by ring
    _ ≤ (2 ^ bits - 1) * m := Nat.mul_le_mul_left _ next

/-- A share short of one by a part in `2 ^ bits` takes back what rounding added to a number. -/
theorem toBits_share_le {bits n num den : Nat} (bits_pos : 0 < bits) (positive : 0 < den)
    (share : num * 2 ^ bits ≤ (2 ^ bits - 1) * den) :
    toBits bits (toBits bits n 1 * num) den ≤ n := by
  by_cases fits : Fits bits n
  · rw [toBits_of_fits fits]
    apply toBits_le bits_pos positive fits
    have whole : num * 2 ^ bits ≤ den * 2 ^ bits := by
      rw [Nat.mul_comm den]
      exact share.trans (Nat.mul_le_mul_right den (Nat.sub_le _ 1))
    exact Nat.mul_le_mul_left n (Nat.le_of_mul_le_mul_right whole (Nat.two_pow_pos bits))
  · obtain ⟨count, g, leading, small, below, above⟩ := exists_count_of_not_fits bits_pos fits
    have power := Nat.two_pow_pos g
    have even : 2 ^ bits = 2 * 2 ^ (bits - 1) := by rw [← Nat.pow_succ']; congr 1; omega
    have spaced : spacing bits (count * 2 ^ g) = 2 ^ g := by
      rw [spacing, log2_count bits_pos g leading small]
      congr 1
      omega
    have rounded : toBits bits n 1 ≤ (count + 1) * 2 ^ g :=
      toBits_le bits_pos Nat.one_pos (fits_mul_two_pow bits_pos small) (by rwa [Nat.mul_one])
    -- even of the number above, the share lies below the middle between both
    have middle : 2 * ((count + 1) * (2 ^ bits - 1)) < (2 * count + 1) * 2 ^ bits := by
      obtain ⟨ones, h⟩ := Nat.exists_eq_add_of_lt (Nat.two_pow_pos bits)
      rw [Nat.zero_add] at h
      rw [h] at even ⊢
      have left : 2 * ((count + 1) * ones) = 2 * (count * ones) + 2 * ones := by ring
      have right : (2 * count + 1) * (ones + 1) = 2 * (count * ones) + 2 * count + ones + 1 := by
        ring
      rw [Nat.add_sub_cancel]
      omega
    refine Nat.le_trans ((toBits_le_iff bits_pos positive
      (fits_mul_two_pow bits_pos small.le)).2 (Or.inl ?_)) below
    rw [spaced, two_mul_add_two_pow]
    apply Nat.lt_of_mul_lt_mul_right (a := 2 ^ bits)
    calc 2 * (toBits bits n 1 * num) * 2 ^ bits
        = 2 * (toBits bits n 1 * (num * 2 ^ bits)) := by ring
      _ ≤ 2 * ((count + 1) * 2 ^ g * ((2 ^ bits - 1) * den)) :=
        Nat.mul_le_mul_left 2 (Nat.mul_le_mul rounded share)
      _ = 2 * ((count + 1) * (2 ^ bits - 1)) * (2 ^ g * den) := by ring
      _ < (2 * count + 1) * 2 ^ bits * (2 ^ g * den) :=
        Nat.mul_lt_mul_of_pos_right middle (Nat.mul_pos power positive)
      _ = (2 * count + 1) * 2 ^ g * den * 2 ^ bits := by ring

end ExperienceReplay.Rounding
