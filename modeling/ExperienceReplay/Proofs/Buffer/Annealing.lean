import ExperienceReplay.Proofs.Annealing.Approach
import ExperienceReplay.Proofs.Buffer.Formed
import ExperienceReplay.Proofs.Buffer.Leaves
import ExperienceReplay.Proofs.Buffer.Parts

/-!
The exponent of importance weights over a run. Main statement: it depends only on the number of
updates that were taken, and it approaches the end of its schedule, unless the schedule is longer
than `2 ^ 24` updates and two roundings meet shortly before its end.
-/

namespace ExperienceReplay

def Request.isUpdate : Request → Bool
  | .update _ _ => true
  | .insert _ | .sample _ | .draw _ | .length => false

def Exchange.updated (exchange : Exchange) : Bool :=
  exchange.request.isUpdate && exchange.succeeded

theorem Exchange.updated_eq_false {exchange : Exchange}
    (other : exchange.request.isUpdate = false) : exchange.updated = false := by
  simp [updated, other]

namespace Buffer

variable [Power] {buffer : Buffer} {layout : RecordRing.Layout}

def updatesTaken (buffer : Buffer) (requests : List Request) : Nat :=
  (buffer.transcript requests).countP Exchange.updated

theorem updatesTaken_cons (request : Request) (rest : List Request) :
    buffer.updatesTaken (request :: rest) =
      (buffer.ask request).2.updatesTaken rest +
        if (buffer.exchange request).updated then 1 else 0 :=
  List.countP_cons

theorem Formed.updates_ask (formed : buffer.Formed layout) (request : Request) :
    (buffer.ask request).2.annealing.updates =
      buffer.annealing.updates + if (buffer.exchange request).updated then 1 else 0 := by
  have uncounted (other : request.isUpdate = false)
      (same : (buffer.ask request).2.annealing.updates = buffer.annealing.updates) :
      (buffer.ask request).2.annealing.updates =
        buffer.annealing.updates + if (buffer.exchange request).updated then 1 else 0 := by
    rw [same, Exchange.updated_eq_false other]
    rfl
  cases request with
  | insert batch =>
    have kept : (Buffer.insert batch).Keeps fun buffer => buffer.annealing.updates :=
      keeps_insert (fun _ _ _ _ => rfl) batch
    apply uncounted rfl
    rw [ask_insert]
    exact kept buffer
  | sample n =>
    have kept : (Buffer.sample n).Keeps fun buffer => buffer.annealing.updates :=
      keeps_sample (fun _ _ => rfl) n
    apply uncounted rfl
    rw [ask_sample]
    exact kept buffer
  | draw draws =>
    apply uncounted rfl
    rw [ask_draw]
  | update indices priorities =>
    unfold exchange Exchange.updated Exchange.succeeded
    rw [ask_update]
    rcases formed.perform_update_cases indices priorities with ⟨_, _, performed⟩ | ⟨_, refused⟩
    · rw [performed]
      rfl
    · rw [refused]
      rfl
  | length => exact uncounted rfl rfl

theorem Formed.updates_after (formed : buffer.Formed layout) (requests : List Request) :
    (buffer.after requests).annealing.updates =
      buffer.annealing.updates + buffer.updatesTaken requests := by
  induction requests generalizing buffer with
  | nil => rfl
  | cons request rest ih =>
    have later := ih (formed.ask request)
    have here := formed.updates_ask request
    rw [updatesTaken_cons]
    change ((buffer.ask request).2.after rest).annealing.updates = _
    omega

theorem settings_after (buffer : Buffer) (requests : List Request) :
    (buffer.after requests).annealing.settings = buffer.annealing.settings :=
  part_after (fun buffer => buffer.annealing.settings) (fun _ _ _ _ _ _ => rfl) (fun _ => rfl)
    buffer requests

omit [Power] in
theorem validate_of_build {config : Config} (built : build config = .ok buffer) :
    config.validate = .ok () := by
  obtain ⟨_, valid, _⟩ := bind_eq_ok_iff.1 built
  exact mapError_eq_ok_iff.1 valid

theorem beta_after_build {config : Config} {start : Buffer} (built : build config = .ok start)
    (requests : List Request) :
    (start.after requests).beta =
      (Annealing.ofSchedule config.beta config.betaSchedule).betaAt
        (start.updatesTaken requests) := by
  obtain ⟨layout, _, _, formed⟩ := exists_formed_of_build built
  obtain ⟨ring, _, same⟩ := exists_ring_of_build built
  have annealing : start.annealing = .ofSchedule config.beta config.betaSchedule := by rw [same]
  have counted := formed.updates_after requests
  rw [annealing, Annealing.updates_ofSchedule, Nat.zero_add] at counted
  change (start.after requests).annealing.settings.betaAt _ = _
  rw [settings_after, counted, annealing]
  rfl

theorem zero_le_beta_after {config : Config} {start : Buffer} (built : build config = .ok start)
    (word : ∀ schedule ∈ config.betaSchedule, schedule.updatesFinal < 2 ^ 64)
    (requests : List Request) : 0 ≤ (start.after requests).beta := by
  rw [beta_after_build built]
  exact (Annealing.sound_ofSchedule (validate_of_build built) word).zero_le_betaAt _

theorem Formed.updatesTaken_replicate (formed : buffer.Formed layout) (k : Nat) :
    buffer.updatesTaken (List.replicate k (.update [] [])) = k := by
  induction k generalizing buffer with
  | zero => rfl
  | succ k ih =>
    have taken : (Buffer.update [] []).perform buffer = (.ok (), buffer.updated []) :=
      formed.perform_update_of_checked rfl rfl
    rw [List.replicate_succ, updatesTaken_cons, ih (formed.ask _)]
    unfold exchange Exchange.updated Exchange.succeeded
    rw [ask_update, taken]
    rfl

/-- The exponent of a buffer follows an annealing over all of its runs. -/
structure Anneals (start : Buffer) (annealing : Annealing) : Prop where
  counted : ∀ requests, (start.after requests).beta = annealing.betaAt (start.updatesTaken requests)
  reached : ∀ k, ∃ requests, start.updatesTaken requests = k
  ends : ∀ k, annealing.updatesFinal ≤ k → annealing.betaAt k = annealing.final

theorem anneals_of_build {config : Config} {start : Buffer} (built : build config = .ok start) :
    start.Anneals (.ofSchedule config.beta config.betaSchedule) where
  counted requests := beta_after_build built requests
  reached k := by
    obtain ⟨layout, _, _, formed⟩ := exists_formed_of_build built
    exact ⟨_, formed.updatesTaken_replicate k⟩
  ends _ done := Annealing.betaAt_of_le done

/-- The exponent depends only on the number of updates taken and ends as scheduled. On the way it
approaches the scheduled end, unless the last count before it is rounded to the same number as the
count of all and the way from one end to the other is rounded beyond the end. -/
theorem approaches_after_build_iff {config : Config} {schedule : BetaSchedule}
    (scheduled : config.betaSchedule = some schedule) (word : schedule.updatesFinal < 2 ^ 64)
    {start : Buffer} (built : build config = .ok start) :
    let annealing := Annealing.ofSchedule config.beta (some schedule)
    start.Anneals annealing ∧ (schedule.updatesFinal ≤ 2 ^ 24 → annealing.Approaches) ∧
      (annealing.Approaches ↔
        (0 < schedule.updatesFinal →
          Binary32.ofNat (schedule.updatesFinal - 1) = Binary32.ofNat schedule.updatesFinal →
          annealing.NotPassed (config.beta + (schedule.betaFinal - config.beta)))) := by
  have words : ∀ schedule ∈ config.betaSchedule, schedule.updatesFinal < 2 ^ 64 := by
    rw [scheduled]
    rintro _ ⟨⟩
    exact word
  have sound := Annealing.sound_ofSchedule (validate_of_build built) words
  have anneals := anneals_of_build built
  rw [scheduled] at sound anneals
  exact ⟨anneals, sound.approaches_of_small, sound.approaches_iff⟩

omit [Power] in
/-- Halfway from one to zero, with an update that was refused in between. -/
theorem approaches_after_build_halfway :
    letI := Power.linear
    let config := { Config.linear 3 with betaSchedule := some ⟨0, 2⟩ }
    ∃ start, build config = .ok start ∧
      let halfway := start.after [.update [] [], .update [3] [1], .length]
      halfway.beta = 1 / Binary32.ofNat 2 ∧
        ∃ annealing : Annealing, start.Anneals annealing ∧ annealing.Approaches := by
  let _ := Power.linear
  intro config
  have built : build config = .ok _ := rfl
  refine ⟨_, built, ?_⟩
  intro halfway
  obtain ⟨anneals, small, _⟩ := approaches_after_build_iff rfl (by decide) built
  refine ⟨?_, _, anneals, small (by decide)⟩
  rw [anneals.counted]
  decide +kernel

omit [Power] in
/-- From one to `0.4` in `2 ^ 24 + 1` updates the exponent falls below its end with the last update
before, and rises to it with the last one. -/
theorem passes_end_after_build :
    letI := Power.linear
    let config := { Config.linear 3 with
      betaSchedule := some ⟨Config.default.beta, 2 ^ 24 + 1⟩ }
    ∃ start, build config = .ok start ∧ Config.default.beta < config.beta ∧
      (start.after (List.replicate (2 ^ 24) (.update [] []))).beta < Config.default.beta ∧
      (start.after (List.replicate (2 ^ 24 + 1) (.update [] []))).beta = Config.default.beta := by
  let _ := Power.linear
  intro config
  have built : build config = .ok _ := rfl
  obtain ⟨layout, _, _, formed⟩ := exists_formed_of_build built
  refine ⟨_, built, by decide, ?_, ?_⟩
  · rw [beta_after_build built, formed.updatesTaken_replicate]
    decide +kernel
  · rw [beta_after_build built, formed.updatesTaken_replicate]
    exact Annealing.betaAt_of_le (Nat.le_refl _)

end Buffer

end ExperienceReplay
