import ExperienceReplay.Buffer.Basic
import ExperienceReplay.Proofs.RecordRing.Schema
import ExperienceReplay.Proofs.Records.Names
import Mathlib.Data.List.Duplicate

/-!
Which configurations describe a buffer. Main statements: a buffer is built from a configuration
exactly if it is sound; otherwise the configuration has a defect, and the refusal names one.
-/

namespace ExperienceReplay

/-- A configuration that describes a buffer: exponents that are numbers and not below zero, room for
a record, and fields that can be told apart, also from the states that follow. -/
structure Config.Sound (config : Config) : Prop where
  alpha : 0 < config.alpha ∧ config.alpha.isFinite
  beta : 0 ≤ config.beta ∧ config.beta.isFinite
  betaFinal : ∀ schedule, config.betaSchedule = some schedule →
    0 ≤ schedule.betaFinal ∧ schedule.betaFinal.isFinite
  capacity : 1 ≤ config.capacity
  nonempty : config.fields ≠ []
  dims : ∀ field ∈ config.fields, 1 ≤ field.dim
  distinct : (config.fields.map Field.name).Nodup
  free : ∀ field ∈ config.fields, ¬Field.Under "next_states" field.name
  terminals : ∃ field ∈ config.fields, field.name = "terminals"
  states : config.nextStates → ∃ field ∈ config.fields, Field.Under "states" field.name

def ConfigDefect.Of (config : Config) : ConfigDefect → Prop
  | alphaNotPositive alpha => alpha = config.alpha ∧ ¬(0 < alpha ∧ alpha.isFinite)
  | betaNegative beta => beta ∈ config.betas ∧ ¬(0 ≤ beta ∧ beta.isFinite)
  | noCapacity => config.capacity = 0
  | noFields => config.fields = []
  | zeroDim name => ⟨name, 0⟩ ∈ config.fields
  | derivedName name => name ∈ config.fields.map Field.name ∧ Field.Under "next_states" name
  | duplicateField name => List.Duplicate name (config.fields.map Field.name)
  | noTerminals => "terminals" ∉ config.fields.map Field.name
  | noStates => config.nextStates ∧ ∀ field ∈ config.fields, ¬Field.Under "states" field.name
  | stated _ => False

namespace Schema

theorem sound_iff {schema : List Field} {nextStates : Bool} : Sound schema nextStates ↔
    schema ≠ [] ∧ (∀ field ∈ schema, 1 ≤ field.dim) ∧ (schema.map Field.name).Nodup ∧
      (∀ field ∈ schema, ¬Field.Under "next_states" field.name) ∧
      (∃ field ∈ schema, field.name = "terminals") ∧
      (nextStates → ∃ field ∈ schema, Field.Under "states" field.name) := by
  simp only [← Field.isDerivedName_iff_under, ← Field.isStateName_iff_under, Bool.not_eq_true]
  constructor
  · intro sound
    exact ⟨sound.nonempty, sound.dim_pos, sound.distinct, sound.not_derived, sound.terminals,
      sound.state⟩
  · rintro ⟨nonempty, dim_pos, distinct, not_derived, terminals, state⟩
    exact ⟨nonempty, dim_pos, not_derived, distinct, terminals, state⟩

theorem checkFields_eq_error {seen : List String} {schema : List Field} {defect : ConfigDefect}
    (refused : checkFields seen schema = .error defect) :
    ∃ before field after, schema = before ++ field :: after ∧
      (field.dim = 0 ∧ defect = .zeroDim field.name ∨
        Field.isDerivedName field.name ∧ defect = .derivedName field.name ∨
        (field.name ∈ seen ∨ field.name ∈ before.map Field.name) ∧
          defect = .duplicateField field.name) := by
  induction schema generalizing seen with
  | nil => cases refused
  | cons first rest ih =>
    unfold checkFields at refused
    split at refused
    next zero =>
      exact ⟨[], first, rest, rfl, Or.inl ⟨zero, (Except.error.inj refused).symm⟩⟩
    next =>
      split at refused
      next derived =>
        exact ⟨[], first, rest, rfl, Or.inr (Or.inl ⟨derived, (Except.error.inj refused).symm⟩)⟩
      next =>
        split at refused
        next duplicate =>
          exact ⟨[], first, rest, rfl,
            Or.inr (Or.inr ⟨Or.inl duplicate, (Except.error.inj refused).symm⟩)⟩
        next =>
          obtain ⟨before, field, after, rfl, cause⟩ := ih refused
          -- What was seen before the rest is what was seen before all, and the first field.
          refine ⟨first :: before, field, after, rfl, cause.imp_right (Or.imp_right ?_)⟩
          rintro ⟨earlier, named⟩
          refine ⟨?_, named⟩
          simp only [List.map_cons, List.mem_cons] at earlier ⊢
          tauto

end Schema

namespace Config

variable {config : Config}

theorem validate_eq_ok_iff : config.validate = .ok () ↔
    (0 < config.alpha ∧ config.alpha.isFinite) ∧
      (∀ beta ∈ config.betas, 0 ≤ beta ∧ beta.isFinite) ∧ 1 ≤ config.capacity := by
  unfold validate
  split
  next negative => simp [negative]
  next positive =>
    have all : config.betas.find? (fun beta => ¬(0 ≤ beta ∧ beta.isFinite)) = none ↔
        ∀ beta ∈ config.betas, 0 ≤ beta ∧ beta.isFinite := by
      simp
    rw [← all, and_iff_right (Decidable.not_not.1 positive)]
    cases config.betas.find? fun beta => ¬(0 ≤ beta ∧ beta.isFinite) with
    | some beta => simp
    | none => simp [Nat.one_le_iff_ne_zero]

theorem sound_iff : config.Sound ↔ config.validate = .ok () ∧
    Schema.check config.capacity config.fields config.nextStates = .ok () := by
  rw [validate_eq_ok_iff, Schema.check_eq_ok_iff, Schema.sound_iff, betas, List.forall_mem_cons,
    List.forall_mem_map]
  simp only [Option.mem_toList]
  constructor
  · intro sound
    exact ⟨⟨sound.alpha, ⟨sound.beta, sound.betaFinal⟩, sound.capacity⟩, sound.capacity,
      sound.nonempty, sound.dims, sound.distinct, sound.free, sound.terminals, sound.states⟩
  · rintro ⟨⟨alpha, ⟨beta, betaFinal⟩, capacity⟩, _, nonempty, dims, distinct, free, terminals,
      states⟩
    exact ⟨alpha, beta, betaFinal, capacity, nonempty, dims, distinct, free, terminals, states⟩

end Config

namespace ConfigDefect

variable {config : Config} {defect : ConfigDefect}

theorem of_validate_eq_error (refused : config.validate = .error defect) : defect.Of config := by
  unfold Config.validate at refused
  split at refused
  next negative =>
    obtain rfl := Except.error.inj refused
    exact ⟨rfl, negative⟩
  next =>
    split at refused
    next beta found =>
      obtain rfl := Except.error.inj refused
      refine ⟨List.mem_of_find?_eq_some found, ?_⟩
      simpa only [decide_eq_true_eq] using List.find?_some found
    next =>
      split at refused
      next noCapacity =>
        obtain rfl := Except.error.inj refused
        exact noCapacity
      next => cases refused

theorem of_checkFields_eq_error (refused : Schema.checkFields [] config.fields = .error defect) :
    defect.Of config := by
  obtain ⟨before, field, after, split, cause⟩ := Schema.checkFields_eq_error refused
  have mem : field ∈ config.fields := by simp [split]
  obtain ⟨zero, rfl⟩ | ⟨derived, rfl⟩ | ⟨earlier, rfl⟩ := cause
  · change ⟨field.name, 0⟩ ∈ config.fields
    rwa [← zero]
  · exact ⟨List.mem_map_of_mem mem, Field.isDerivedName_iff_under.1 derived⟩
  · change List.Duplicate field.name (config.fields.map Field.name)
    have earlier : field.name ∈ before.map Field.name := by simpa using earlier
    rw [split, List.map_append, List.duplicate_iff_two_le_count, List.count_append,
      List.map_cons, List.count_cons_self]
    have := List.count_pos_iff.2 earlier
    omega

theorem of_check_eq_error
    (refused : Schema.check config.capacity config.fields config.nextStates = .error defect) :
    defect.Of config := by
  rw [Schema.check_eq] at refused
  split at refused
  next noCapacity =>
    obtain rfl := Except.error.inj refused
    exact noCapacity
  next =>
  split at refused
  next noFields =>
    obtain rfl := Except.error.inj refused
    exact noFields
  next =>
  split at refused
  next checked =>
    obtain rfl := Except.error.inj refused
    exact of_checkFields_eq_error checked
  next =>
  split at refused
  next noTerminals =>
    obtain rfl := Except.error.inj refused
    simpa [Of, Field.terminals] using noTerminals
  next =>
  split at refused
  next noStates =>
    obtain rfl := Except.error.inj refused
    refine ⟨noStates.1, ?_⟩
    simpa [← Field.isStateName_iff_under, Field.isState] using noStates.2
  next => cases refused

end ConfigDefect

theorem Config.Sound.no_defect {config : Config} (sound : config.Sound) (defect : ConfigDefect) :
    ¬defect.Of config := by
  cases defect with
  | alphaNotPositive alpha =>
    rintro ⟨rfl, bad⟩
    exact bad sound.alpha
  | betaNegative beta =>
    rintro ⟨mem, bad⟩
    exact bad ((Config.validate_eq_ok_iff.1 (Config.sound_iff.1 sound).1).2.1 beta mem)
  | noCapacity => exact Nat.ne_of_gt sound.capacity
  | noFields => exact sound.nonempty
  | zeroDim name => exact fun mem => Nat.not_succ_le_zero 0 (sound.dims _ mem)
  | derivedName name =>
    rintro ⟨named, derived⟩
    obtain ⟨field, mem, rfl⟩ := List.mem_map.1 named
    exact sound.free field mem derived
  | duplicateField name => exact fun twice => twice.not_nodup sound.distinct
  | noTerminals =>
    obtain ⟨field, mem, name⟩ := sound.terminals
    exact fun missing => missing (List.mem_map.2 ⟨field, mem, name⟩)
  | noStates =>
    rintro ⟨read, stateless⟩
    obtain ⟨field, mem, state⟩ := sound.states read
    exact stateless field mem state
  | stated text => exact id

namespace Buffer

variable {config : Config}

theorem exists_build_eq_ok_iff : (∃ buffer, build config = .ok buffer) ↔ config.Sound := by
  rw [Config.sound_iff]
  unfold build RecordRing.build
  cases config.validate with
  | error defect => simp [Except.mapError, bind, Except.bind]
  | ok =>
    cases Schema.check config.capacity config.fields config.nextStates with
    | error defect => simp [Except.mapError, bind, Except.bind]
    | ok => simp [Except.mapError, bind, Except.bind, pure, Except.pure]

theorem exists_defect_of_build_eq_error {error : Error} (refused : build config = .error error) :
    ∃ defect : ConfigDefect, error = .invalidConfiguration defect ∧ defect.Of config := by
  unfold build RecordRing.build at refused
  cases valid : config.validate with
  | error defect =>
    rw [valid] at refused
    exact ⟨defect, (Except.error.inj refused).symm, ConfigDefect.of_validate_eq_error valid⟩
  | ok =>
    rw [valid] at refused
    cases checked : Schema.check config.capacity config.fields config.nextStates with
    | error defect =>
      rw [checked] at refused
      exact ⟨defect, (Except.error.inj refused).symm, ConfigDefect.of_check_eq_error checked⟩
    | ok =>
      rw [checked] at refused
      cases refused

/-- A configuration with a defect is refused, and the refusal names a defect that it has. -/
theorem exists_defect_iff_refused : (∃ defect : ConfigDefect, defect.Of config) ↔
    ∃ defect, build config = .error (.invalidConfiguration defect) ∧ defect.Of config := by
  constructor
  · rintro ⟨defect, has⟩
    cases built : build config with
    | ok buffer => exact absurd has ((exists_build_eq_ok_iff.1 ⟨buffer, built⟩).no_defect defect)
    | error error =>
      obtain ⟨defect, rfl, has⟩ := exists_defect_of_build_eq_error built
      exact ⟨defect, rfl, has⟩
  · rintro ⟨defect, _, has⟩
    exact ⟨defect, has⟩

end Buffer

end ExperienceReplay
