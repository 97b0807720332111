import ExperienceReplay.Annealing
import ExperienceReplay.Proofs.Binary32.Monotone
import ExperienceReplay.Proofs.Config.Acceptance

/-!
The exponent of importance weights while it is annealed. Main statement: between ends that are not
below zero it is not below zero either, although each step from one end to the other is rounded.
-/

namespace ExperienceReplay

open Binary32 (finite unitsPerOne)

theorem Binary32.ofNat_le_ofNat {m n : Nat} (h : m ≤ n) : ofNat m ≤ ofNat n := by
  refine (isRounded_ofNat m).le (isRounded_ofNat n) Nat.one_pos Nat.one_pos ?_
  have := Nat.mul_le_mul_right unitsPerOne h
  omega

theorem Binary32.exists_hasUnits_ofNat {n : Nat} (word : n < 2 ^ 64) :
    ∃ count, (ofNat n).HasUnits count ∧ (0 < n → unitsPerOne ≤ count) := by
  have top : (finite false ⟨2 ^ 64 * unitsPerOne, by decide, by decide⟩).HasUnits
    (2 ^ 64 * unitsPerOne) := rfl
  have below : n * unitsPerOne ≤ 2 ^ 64 * unitsPerOne :=
    Nat.mul_le_mul_right unitsPerOne (Nat.le_of_lt word)
  obtain ⟨count, units, nonneg, _⟩ := (isRounded_ofNat n).exists_units Nat.one_pos hasUnits_zero top
    (by omega) (by omega)
  obtain ⟨count, rfl⟩ := Int.eq_ofNat_of_zero_le nonneg
  refine ⟨count, units, fun positive => ?_⟩
  have one_le : unitsPerOne ≤ n * unitsPerOne := Nat.le_mul_of_pos_left unitsPerOne positive
  have le : 1 ≤ ofNat n := (isRounded_ofNat n).le_units hasUnits_one Nat.one_pos (by omega)
  exact (hasUnits_one.le_iff units).1 le

namespace Annealing

structure Sound (annealing : Annealing) : Prop where
  initial : 0 ≤ annealing.initial ∧ annealing.initial.isFinite
  final : 0 ≤ annealing.final ∧ annealing.final.isFinite
  word : annealing.updatesFinal < 2 ^ 64

/-- The part of an annealing that counting updates does not change. -/
def settings (annealing : Annealing) : Annealing := { annealing with updates := 0 }

theorem updates_ofSchedule (beta : Binary32) (schedule : Option BetaSchedule) :
    (ofSchedule beta schedule).updates = 0 := by
  cases schedule with
  | none => rfl
  | some schedule => rfl

variable {annealing : Annealing} {k a b r p q : Nat} {d : Int}

def share (annealing : Annealing) (updates : Nat) : Binary32 :=
  Binary32.ofNat updates / Binary32.ofNat annealing.updatesFinal

theorem betaAt_of_le (done : annealing.updatesFinal ≤ k) : annealing.betaAt k = annealing.final :=
  if_pos done

theorem betaAt_of_lt (before : k < annealing.updatesFinal) :
    annealing.betaAt k =
      annealing.initial + (annealing.final - annealing.initial) * annealing.share k :=
  if_neg (Nat.not_le_of_lt before)

/-- The ends and the rounded way from one to the other. -/
structure Way (annealing : Annealing) (p q : Nat) (d : Int) : Prop where
  initial : annealing.initial.HasUnits p
  final : annealing.final.HasUnits q
  way : (annealing.final - annealing.initial).units? = some d
  down : -(p : Int) ≤ d
  up : d ≤ q

structure Counts (annealing : Annealing) (k a b r : Nat) : Prop where
  before : k < annealing.updatesFinal
  done : (Binary32.ofNat k).HasUnits a
  all : (Binary32.ofNat annealing.updatesFinal).HasUnits b
  le : a ≤ b
  positive : 0 < b
  share : (annealing.share k).HasUnits r
  le_one : r ≤ unitsPerOne

theorem Sound.exists_way (sound : annealing.Sound) : ∃ p q d, annealing.Way p q d := by
  obtain ⟨p, hp⟩ := Binary32.exists_hasUnits_of_isFinite sound.initial.1 sound.initial.2
  obtain ⟨q, hq⟩ := Binary32.exists_hasUnits_of_isFinite sound.final.1 sound.final.2
  obtain ⟨d, hd, down, up⟩ := (Binary32.isRounded_sub hq hp).exists_units Nat.one_pos
    (Binary32.units?_neg hp) hq (by omega) (by omega)
  exact ⟨p, q, d, hp, hq, hd, down, up⟩

theorem Sound.exists_counts (sound : annealing.Sound) (before : k < annealing.updatesFinal) :
    ∃ a b r, annealing.Counts k a b r := by
  obtain ⟨a, ha, _⟩ := Binary32.exists_hasUnits_ofNat (before.trans sound.word)
  obtain ⟨b, hb, large⟩ := Binary32.exists_hasUnits_ofNat sound.word
  have positive : 0 < b := Nat.lt_of_lt_of_le (by decide) (large (Nat.zero_lt_of_lt before))
  have le := (ha.le_iff hb).1 (Binary32.ofNat_le_ofNat (Nat.le_of_lt before))
  obtain ⟨r, le_one, hr⟩ := Binary32.exists_hasUnits_div ha hb positive le
  exact ⟨a, b, r, before, ha, hb, le, positive, hr, le_one⟩

/-- The step along the way that is rounded twice is finite, and no step down is greater than the
initial exponent. -/
theorem Way.exists_step (way : annealing.Way p q d) (counts : annealing.Counts k a b r) :
    ∃ s, ((annealing.final - annealing.initial) * annealing.share k).units? = some s ∧
      -(p : Int) ≤ s := by
  have down : -(p : Int) * unitsPerOne ≤ d * r :=
    calc -(p : Int) * unitsPerOne ≤ -(p : Int) * r := by
          rw [Int.neg_mul, Int.neg_mul]
          exact Int.neg_le_neg (by exact_mod_cast Nat.mul_le_mul_left p counts.le_one)
      _ ≤ d * r := Int.mul_le_mul_of_nonneg_right way.down (Int.natCast_nonneg r)
  have up : d * r ≤ q * unitsPerOne :=
    calc d * r ≤ q * r := Int.mul_le_mul_of_nonneg_right way.up (Int.natCast_nonneg r)
      _ ≤ q * unitsPerOne := by exact_mod_cast Nat.mul_le_mul_left q counts.le_one
  obtain ⟨s, hs, down, _⟩ := (Binary32.isRounded_mul way.way counts.share).exists_units (by decide)
    (Binary32.units?_neg way.initial) way.final down up
  exact ⟨s, hs, down⟩

theorem Sound.zero_le_betaAt (sound : annealing.Sound) (updates : Nat) :
    0 ≤ annealing.betaAt updates := by
  rcases Nat.lt_or_ge updates annealing.updatesFinal with before | done
  · obtain ⟨p, q, d, way⟩ := sound.exists_way
    obtain ⟨a, b, r, counts⟩ := sound.exists_counts before
    obtain ⟨s, hs, down⟩ := way.exists_step counts
    rw [betaAt_of_lt before]
    exact (Binary32.isRounded_add way.initial hs).le_units Binary32.hasUnits_zero Nat.one_pos
      (by omega)
  · rw [betaAt_of_le done]
    exact sound.final.1

theorem sound_ofSchedule {config : Config} (valid : config.validate = .ok ())
    (word : ∀ schedule ∈ config.betaSchedule, schedule.updatesFinal < 2 ^ 64) :
    (ofSchedule config.beta config.betaSchedule).Sound := by
  have betas := (Config.validate_eq_ok_iff.1 valid).2.1
  unfold Config.betas at betas
  obtain ⟨initial, final⟩ := List.forall_mem_cons.1 betas
  cases scheduled : config.betaSchedule with
  | none => exact ⟨initial, initial, Nat.two_pow_pos 64⟩
  | some schedule =>
    rw [scheduled] at final word
    exact ⟨initial, final _ (List.mem_singleton.2 rfl), word schedule rfl⟩

end Annealing

end ExperienceReplay
