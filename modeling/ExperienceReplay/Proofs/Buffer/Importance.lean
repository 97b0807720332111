import ExperienceReplay.Proofs.Buffer.Annealing
import ExperienceReplay.Proofs.Buffer.Unwritten

/-!
Importance weights. They are relative to the least weight in the tree of minima, which is the least
weight of a written slot as long as only written slots get new priorities. Main statement: then the
slot that weighs least gets the importance weight one, and slots that weigh more get no more.
-/

namespace ExperienceReplay

open Binary32 (Magnitude finite unitsPerOne)

/-- A power function that is ordered between zero and one, where it is raised to no negative
power. -/
structure Power.OrderedOnShares [Power] : Prop extends Power.OnePow where
  pow_zero : ∀ base exponent, exponent.same 0 → Power.pow base exponent = 1
  pow_le_pow : ∀ {x y exponent : Binary32}, 0 ≤ exponent → 0 ≤ x → x ≤ y → y ≤ 1 →
    Power.pow x exponent ≤ Power.pow y exponent

@[reducible] def Power.zeroOrOne : Power where
  pow base exponent := if exponent.same 0 then 1 else base

theorem Power.zeroOrOne_orderedOnShares : letI := Power.zeroOrOne; Power.OrderedOnShares := by
  let _ := Power.zeroOrOne
  refine ⟨⟨fun _ => ite_self _⟩, fun _ _ zero => if_pos zero, ?_⟩
  intro x y exponent _ _ le _
  change (if exponent.same 0 then 1 else x) ≤ if exponent.same 0 then 1 else y
  split
  next => decide
  next => exact le

theorem Binary32.div_mem_share {l m : Magnitude} (positive : 0 < m.units) (le : l.units ≤ m.units) :
    0 ≤ finite false l / finite false m ∧ finite false l / finite false m ≤ 1 := by
  obtain ⟨share, le_one, units⟩ :=
    exists_hasUnits_div (hasUnits_finite l) (hasUnits_finite m) positive le
  exact ⟨(hasUnits_zero.le_iff units).2 (Nat.zero_le share), (units.le_iff hasUnits_one).2 le_one⟩

theorem Binary32.div_le_div_right {l m n : Magnitude} (positive : 0 < m.units)
    (le : m.units ≤ n.units) :
    finite false l / finite false n ≤ finite false l / finite false m :=
  div_le_div (hasUnits_finite l) (hasUnits_finite l) (hasUnits_finite n) (hasUnits_finite m)
    (Nat.lt_of_lt_of_le positive le) positive (by exact_mod_cast Nat.mul_le_mul_left l.units le)

namespace Buffer

structure Normalises (buffer : Buffer) (batch : SampledBatch) : Prop where
  length : batch.weights.length = batch.indices.length
  leaves : ∀ slot ∈ batch.indices, ∃ leaf, buffer.sums.leaf slot = .ok leaf
  least : ∀ item ∈ batch.indices.zip batch.weights, ∀ leaf, buffer.sums.leaf item.1 = .ok leaf →
    (∀ slot < buffer.size, ∃ other, buffer.sums.leaf slot = .ok other ∧ leaf ≤ other) → item.2 = 1
  reversing : ∀ first ∈ batch.indices.zip batch.weights,
    ∀ second ∈ batch.indices.zip batch.weights, ∀ leaf other,
    buffer.sums.leaf first.1 = .ok leaf → buffer.sums.leaf second.1 = .ok other → leaf ≤ other →
    second.2 ≤ first.2
  uncorrected : buffer.beta.same 0 → ∀ weight ∈ batch.weights, weight = 1

variable [Power] {buffer : Buffer} {layout : RecordRing.Layout} {named : List Nat}

theorem importanceOf_of_beta_zero (ordered : Power.OrderedOnShares) (zero : buffer.beta.same 0)
    (leaf : Binary32) : buffer.importanceOf leaf = 1 := by
  rw [importanceOf, ordered.pow_zero _ _ zero]
  decide

theorem importanceOf_least (ordered : Power.OrderedOnShares) {least : Magnitude}
    (total : buffer.mins.total = finite false least) (positive : 0 < least.units) :
    buffer.importanceOf (finite false least) = 1 := by
  rw [importanceOf, total, Binary32.div_self_finite positive, ordered.one_pow]
  decide

theorem importanceOf_le_importanceOf (ordered : Power.OrderedOnShares) (nonneg : 0 ≤ buffer.beta)
    {least m n : Magnitude} (total : buffer.mins.total = finite false least)
    (positive : 0 < m.units) (least_le : least.units ≤ m.units) (le : m.units ≤ n.units) :
    buffer.importanceOf (finite false n) ≤ buffer.importanceOf (finite false m) := by
  have here := Binary32.div_mem_share positive least_le
  have there := Binary32.div_mem_share (Nat.lt_of_lt_of_le positive le) (least_le.trans le)
  have powers := ordered.pow_le_pow nonneg there.1 (Binary32.div_le_div_right positive le) here.2
  unfold importanceOf
  rw [total]
  exact Binary32.lesser_le_lesser (Binary32.greater_le_greater powers _) 1

theorem Sound.exists_least (sound : buffer.Sound layout named) (neutral : buffer.NeutralUnwritten)
    (holdsRecords : 0 < buffer.size) :
    ∃ least : Magnitude, buffer.mins.total = finite false least ∧ 0 < least.units ∧
      (∃ slot < buffer.size, buffer.sums.leaf slot = .ok (finite false least)) ∧
      ∀ slot < buffer.size, ∃ m : Magnitude, buffer.sums.leaf slot = .ok (finite false m) ∧
        least.units ≤ m.units := by
  obtain ⟨slot, written, total⟩ := neutral.least_written holdsRecords
  obtain ⟨least, leaf, same, positive⟩ := sound.exists_magnitude written
  have total : buffer.mins.total = finite false least := Except.ok.inj (total.symm.trans same)
  refine ⟨least, total, positive, ⟨slot, written, leaf⟩, fun other written' => ?_⟩
  obtain ⟨m, leaf', same', _⟩ := sound.exists_magnitude written'
  obtain ⟨weight, held, le⟩ := neutral.least_le other written'
  obtain rfl : weight = finite false m := Except.ok.inj (held.symm.trans same')
  rw [total] at le
  exact ⟨m, leaf', Binary32.finite_le_finite.1 le⟩

theorem Sound.normalises (sound : buffer.Sound layout named) (neutral : buffer.NeutralUnwritten)
    (ordered : Power.OrderedOnShares) (nonneg : 0 ≤ buffer.beta) {draws : List Binary32}
    {batch : SampledBatch} (sampled : buffer.sampleWith draws = .ok batch) :
    buffer.Normalises batch := by
  obtain ⟨mass, massed, _, _, weighed, _⟩ := sampleWith_eq_ok_iff.1 sampled
  have drawn := sound.drawnFrom sampled
  have weighed := forall₂_of_mapM_eq_ok weighed
  obtain ⟨least, total, positive, ⟨lightest, written, lightest_leaf⟩, least_le⟩ :=
    sound.exists_least neutral (size_pos_of_totalMass massed)
  -- every item of the batch is a written slot with the importance weight of its leaf
  have item_cases : ∀ item ∈ batch.indices.zip batch.weights, ∃ m : Magnitude,
      buffer.sums.leaf item.1 = .ok (finite false m) ∧ least.units ≤ m.units ∧
        item.2 = buffer.importanceOf (finite false m) := by
    intro item mem
    obtain ⟨m, leaf, le⟩ := least_le item.1 (drawn.indices _ (List.of_mem_zip mem).1).1
    obtain ⟨leaf', held, weight⟩ := importanceWeight_eq_ok_iff.1 (List.forall₂_zip weighed mem)
    obtain rfl : leaf' = finite false m := Except.ok.inj (held.symm.trans leaf)
    exact ⟨m, leaf, le, weight.symm⟩
  refine ⟨weighed.length_eq.symm, fun slot mem => ?_, ?_, ?_, fun zero => ?_⟩
  · obtain ⟨_, leaf, held, _⟩ := drawn.indices slot mem
    exact ⟨leaf, held⟩
  · intro item mem leaf held lightest_of
    obtain ⟨m, held', le, weight⟩ := item_cases item mem
    obtain rfl : leaf = finite false m := Except.ok.inj (held.symm.trans held')
    obtain ⟨other, there, le'⟩ := lightest_of lightest written
    obtain rfl : other = finite false least := Except.ok.inj (there.symm.trans lightest_leaf)
    obtain rfl : m = least :=
      Magnitude.ext (Nat.le_antisymm (Binary32.finite_le_finite.1 le') le)
    rw [weight, importanceOf_least ordered total positive]
  · intro first mem second mem' leaf other held held' le
    obtain ⟨m, here, least_le, weight⟩ := item_cases first mem
    obtain ⟨n, there, _, weight'⟩ := item_cases second mem'
    obtain rfl : leaf = finite false m := Except.ok.inj (held.symm.trans here)
    obtain rfl : other = finite false n := Except.ok.inj (held'.symm.trans there)
    rw [weight, weight']
    exact importanceOf_le_importanceOf ordered nonneg total (Nat.lt_of_lt_of_le positive least_le)
      least_le (Binary32.finite_le_finite.1 le)
  · refine forall_mem_of_forall₂ (weighed.imp fun slot weight held => ?_)
    obtain ⟨leaf, _, rfl⟩ := importanceWeight_eq_ok_iff.1 held
    exact importanceOf_of_beta_zero ordered zero leaf

def RescoresWritten (start : Buffer) (run : List Request) : Prop :=
  ∀ before indices priorities, before ++ [.update indices priorities] <+: run →
    ∀ slot ∈ indices, slot < (start.after before).size

theorem rescoresWritten_nil (start : Buffer) : start.RescoresWritten [] :=
  fun _ _ _ inRun => absurd (List.prefix_nil.1 inRun) (List.append_ne_nil_of_right_ne_nil _ nofun)

theorem rescoresWritten_cons_iff {start : Buffer} {request : Request} {rest : List Request} :
    start.RescoresWritten (request :: rest) ↔
      (∀ slot ∈ request.rescored, slot < start.size) ∧
        (start.ask request).2.RescoresWritten rest := by
  constructor
  · intro rescores
    refine ⟨?_, fun before indices priorities inRun => ?_⟩
    · cases request with
      | update indices priorities =>
        exact rescores [] indices priorities (List.cons_prefix_cons.2 ⟨rfl, List.nil_prefix⟩)
      | _ => exact nofun
    · exact rescores (request :: before) indices priorities
        (List.cons_prefix_cons.2 ⟨rfl, inRun⟩)
  · rintro ⟨here, later⟩ before indices priorities inRun
    cases before with
    | nil =>
      obtain ⟨rfl, _⟩ := List.cons_prefix_cons.1 inRun
      exact here
    | cons first before =>
      obtain ⟨rfl, inRest⟩ := List.cons_prefix_cons.1 inRun
      exact later before indices priorities inRest

theorem Formed.size_le_ask (formed : buffer.Formed layout) (request : Request) :
    buffer.size ≤ (buffer.ask request).2.size := by
  cases request with
  | insert batch =>
    rw [ask_insert]
    rcases formed.perform_insert_cases batch with
      ⟨slots, ring, history, newer, holds, holds', performed⟩ | ⟨cause, refused⟩
    · rw [performed]
      have size : buffer.size = min history.length layout.capacity := holds.size_eq
      have size' : ring.size = min (history ++ newer).length layout.capacity := holds'.size_eq
      change buffer.size ≤ ring.size
      rw [size, size', List.length_append]
      omega
    · rw [refused]
  | sample n =>
    have kept : (Buffer.sample n).Keeps size := keeps_sample (fun _ _ => rfl) n
    rw [ask_sample, kept]
  | draw draws => rw [ask_draw]
  | update indices priorities =>
    have kept : (Buffer.update indices priorities).Keeps size :=
      keeps_update (fun _ _ _ _ => rfl) (fun _ => rfl) indices priorities
    rw [ask_update, kept]
  | length => exact Nat.le_refl _

theorem RescoresWritten.mono {start : Buffer} {before run : List Request}
    (rescores : start.RescoresWritten run) (earlier : before <+: run) :
    start.RescoresWritten before :=
  fun _ _ _ inRun => rescores _ _ _ (inRun.trans earlier)

theorem RescoresWritten.rescored_written {start : Buffer} (formed : start.Formed layout)
    {run : List Request} (rescores : start.RescoresWritten run) :
    ∀ slot ∈ start.rescoredSlots run, slot < (start.after run).size := by
  induction run using List.reverseRecOn with
  | nil => exact fun slot mem => absurd mem List.not_mem_nil
  | append_singleton run request ih =>
    rw [rescoredSlots_append, after_append]
    intro slot mem
    refine Nat.lt_of_lt_of_le ?_ ((formed.after run).size_le_ask request)
    rcases List.mem_append.1 mem with old | new
    · exact ih (rescores.mono (List.prefix_append _ _)) slot old
    · obtain ⟨indices, priorities, rfl, named⟩ := mem_rescoredSlots_singleton new
      exact rescores run indices priorities (List.prefix_refl _) slot named

/-- As long as only written slots get new priorities, all batches are weighed against the least
weight of a written slot. -/
theorem normalises_after_build {config : Config} (word : config.capacity < 2 ^ 64)
    (word' : ∀ schedule ∈ config.betaSchedule, schedule.updatesFinal < 2 ^ 64)
    (ordered : Power.OrderedOnShares) {start : Buffer} (built : build config = .ok start)
    {run : List Request} (rescores : start.RescoresWritten run) {before : List Request}
    {request : Request} (inRun : before ++ [request] <+: run) {batch : SampledBatch}
    (answered : ((start.after before).ask request).1 = .ok (.silent (.batch batch))) :
    (start.after before).Normalises batch := by
  obtain ⟨layout, _, sound⟩ := exists_sound_of_build word (ordered.one_pow _) built
  obtain ⟨layout', _, _, formed⟩ := exists_formed_of_build built
  have rescores := rescores.mono ((List.prefix_append before _).trans inRun)
  have sound := sound.after before
  have neutral := sound.neutralUnwritten (rescores.rescored_written formed)
  obtain ⟨draws, sampled⟩ := exists_draws_of_batch answered
  exact sound.normalises neutral ordered (zero_le_beta_after built word' before) sampled

omit [Power] in
/-- A record of twice the weight of the other gets half of its importance weight, and no less than
the other where the first update ends the annealing at an exponent of zero. -/
theorem normalises_after_build_annealed :
    letI := Power.zeroOrOne
    let filling := Request.insert (.ofList [("states", [0, 1]), ("terminals", [0, 1])])
    let rescoring := Request.update [1] [Binary32.ofNat 2]
    let draws := [0, Binary32.belowOne]
    let annealed := { Config.linear 3 with betaSchedule := some ⟨0, 1⟩ }
    ∃ start start', build (.linear 3) = .ok start ∧ build annealed = .ok start' ∧
      let buffer := start.after [filling, rescoring]
      let buffer' := start'.after [filling, rescoring]
      ∃ batch batch', buffer.sampleWith draws = .ok batch ∧
        buffer'.sampleWith draws = .ok batch' ∧
        batch.indices = [0, 1] ∧ batch.weights = [1, 1 / Binary32.ofNat 2] ∧
        buffer.Normalises batch ∧
        batch'.indices = [0, 1] ∧ batch'.weights = [1, 1] ∧ buffer'.Normalises batch' := by
  let _ := Power.zeroOrOne
  intro filling rescoring draws annealed
  have built : build (.linear 3) = .ok _ := rfl
  have built' : build annealed = .ok _ := rfl
  have ordered := Power.zeroOrOne_orderedOnShares
  have word : ∀ schedule ∈ annealed.betaSchedule, schedule.updatesFinal < 2 ^ 64 := by
    rintro schedule ⟨⟩
    decide
  refine ⟨_, _, built, built', ?_⟩
  intro buffer buffer'
  have normalises := @normalises_after_build _ (.linear 3) (by decide) nofun ordered _ built
    [filling, rescoring, .draw draws] (by
      simp only [rescoresWritten_cons_iff]
      exact ⟨nofun, by decide +kernel, nofun, rescoresWritten_nil _⟩)
  have normalises' := @normalises_after_build _ annealed (by decide) word ordered _ built'
    [filling, rescoring, .draw draws] (by
      simp only [rescoresWritten_cons_iff]
      exact ⟨nofun, by decide +kernel, nofun, rescoresWritten_nil _⟩)
  have shares : ∀ draw ∈ draws, 0 ≤ draw ∧ draw < 1 := by decide
  obtain ⟨layout, _, sound⟩ := exists_sound_of_build (by decide) (ordered.one_pow _) built
  obtain ⟨layout', _, sound'⟩ := exists_sound_of_build (by decide) (ordered.one_pow _) built'
  obtain ⟨batch, sampled, _⟩ :=
    (sound.after [filling, rescoring]).exists_sampleWith (by decide +kernel) shares
  obtain ⟨batch', sampled', _⟩ :=
    (sound'.after [filling, rescoring]).exists_sampleWith (by decide +kernel) shares
  have answered : (buffer.ask (.draw draws)).1 = .ok (.silent (.batch batch)) := by
    rw [ask_draw, sampled]
    rfl
  have answered' : (buffer'.ask (.draw draws)).1 = .ok (.silent (.batch batch')) := by
    rw [ask_draw, sampled']
    rfl
  have shown : (buffer.sampleWith draws).map (fun batch => (batch.indices, batch.weights)) =
      .ok ([0, 1], [1, 1 / Binary32.ofNat 2]) := by decide +kernel
  have shown' : (buffer'.sampleWith draws).map (fun batch => (batch.indices, batch.weights)) =
      .ok ([0, 1], [1, 1]) := by decide +kernel
  rw [sampled] at shown
  rw [sampled'] at shown'
  obtain ⟨indices, weights⟩ := Prod.mk.inj (Except.ok.inj shown)
  obtain ⟨indices', weights'⟩ := Prod.mk.inj (Except.ok.inj shown')
  exact ⟨batch, batch', sampled, sampled', indices, weights,
    normalises (List.prefix_refl _) answered, indices', weights',
    normalises' (List.prefix_refl _) answered'⟩

end Buffer

end ExperienceReplay
