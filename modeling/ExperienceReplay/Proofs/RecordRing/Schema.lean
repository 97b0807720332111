import ExperienceReplay.Proofs.Calls
import ExperienceReplay.RecordRing.Schema
import Mathlib.Tactic.Ring

/-!
What the check of a schema asks for, said without the order of its tests, and which batches have a
length under a checked schema.
-/

namespace ExperienceReplay

namespace Schema

structure Sound (schema : List Field) (nextStates : Bool) : Prop where
  nonempty : schema ≠ []
  dim_pos : ∀ field ∈ schema, 0 < field.dim
  not_derived : ∀ field ∈ schema, Field.isDerivedName field.name = false
  distinct : (schema.map Field.name).Nodup
  terminals : ∃ field ∈ schema, field.name = Field.terminals
  state : nextStates = true → ∃ field ∈ schema, field.isState = true

theorem checkFields_eq_ok_iff {seen : List String} {schema : List Field} :
    checkFields seen schema = .ok () ↔
      (∀ field ∈ schema, 0 < field.dim ∧ Field.isDerivedName field.name = false ∧
        field.name ∉ seen) ∧ (schema.map Field.name).Nodup := by
  induction schema generalizing seen with
  | nil => simp [checkFields]
  | cons field rest ih =>
    unfold checkFields
    split
    next zero => simp [zero]
    next positive =>
      split
      next derived => simp [derived]
      next underived =>
        split
        next duplicate => simp [duplicate]
        next fresh =>
          rw [ih]
          simp only [List.mem_cons, List.map_cons, List.nodup_cons, List.mem_map]
          grind

theorem check_eq (capacity : Nat) (schema : List Field) (nextStates : Bool) :
    check capacity schema nextStates =
      if capacity = 0 then .error .noCapacity
      else if schema = [] then .error .noFields
      else match checkFields [] schema with
        | .error defect => .error defect
        | .ok () =>
          if ¬schema.any (·.name == Field.terminals) then .error .noTerminals
          else if nextStates ∧ ¬schema.any Field.isState then .error .noStates
          else .ok () := by
  unfold check
  cases checkFields [] schema <;> rfl

theorem check_eq_ok_iff {capacity : Nat} {schema : List Field} {nextStates : Bool} :
    check capacity schema nextStates = .ok () ↔ 0 < capacity ∧ Sound schema nextStates := by
  have fields : checkFields [] schema = .ok () ↔ _ := checkFields_eq_ok_iff
  rw [check_eq]
  constructor
  · intro h
    split at h
    · cases h
    next someCapacity =>
    split at h
    · cases h
    next nonempty =>
    split at h
    · cases h
    next checked =>
    split at h
    · cases h
    next terminals =>
    split at h
    · cases h
    next states =>
    obtain ⟨each, distinct⟩ := fields.1 checked
    refine ⟨Nat.pos_of_ne_zero someCapacity, nonempty, fun f hf => (each f hf).1,
      fun f hf => (each f hf).2.1, distinct, ?_, ?_⟩
    · simpa using terminals
    · simpa using states
  · rintro ⟨positive, nonempty, dim_pos, not_derived, distinct, terminals, state⟩
    rw [if_neg (Nat.ne_of_gt positive), if_neg nonempty, fields.2
      ⟨fun f hf => ⟨dim_pos f hf, not_derived f hf, List.not_mem_nil⟩, distinct⟩]
    simp only
    rw [if_neg (by simpa using terminals), if_neg (by simpa using state)]

structure Fits (schema : List Field) (records : Records) (count : Nat) : Prop where
  size : records.size = schema.length
  rows : ∀ field ∈ schema, ∃ values, records.get? field.name = some values ∧
    values.length = count * field.dim

theorem countFrom_cons {records : Records} {expected : Option Nat} {field : Field}
    {rest : List Field} (positive : 0 < field.dim) :
    countFrom records expected (field :: rest) =
      match records.get? field.name with
      | none => .error (.refused (.schemaMismatch (.missingField field.name)))
      | some values =>
        if values.length % field.dim ≠ 0 then
          .error (.refused (.schemaMismatch
            (.raggedField field.name values.length field.dim)))
        else if expected.any (· ≠ values.length / field.dim) then
          .error (.refused (.schemaMismatch
            (.recordCount field.name (values.length / field.dim) (expected.getD 0))))
        else countFrom records (some (values.length / field.dim)) rest := by
  rw [countFrom]
  cases records.get? field.name with
  | none => rfl
  | some values =>
    simp only [Abort.remainder_of_pos positive, Abort.quotient_of_pos positive]
    rfl

theorem eq_mul_iff_div_mod {length count dim : Nat} (positive : 0 < dim) :
    length = count * dim ↔ length % dim = 0 ∧ length / dim = count := by
  constructor
  · rintro rfl
    exact ⟨Nat.mul_mod_left count dim, Nat.mul_div_cancel count positive⟩
  · rintro ⟨even, rfl⟩
    have := Nat.mod_add_div' length dim
    omega

theorem countFrom_some_eq_ok_iff {records : Records} {count : Nat} {answer : Option Nat}
    {schema : List Field} (dims : ∀ field ∈ schema, 0 < field.dim) :
    countFrom records (some count) schema = .ok answer ↔
      answer = some count ∧ ∀ field ∈ schema, ∃ values, records.get? field.name = some values ∧
        values.length = count * field.dim := by
  induction schema with
  | nil => simp [countFrom, eq_comm]
  | cons field rest ih =>
    have positive := dims field List.mem_cons_self
    have ih := ih fun f hf => dims f (List.mem_cons_of_mem _ hf)
    rw [countFrom_cons positive, List.forall_mem_cons]
    cases records.get? field.name with
    | none => simp
    | some values =>
      simp only [Option.any_some, decide_eq_true_eq, Option.some.injEq, exists_eq_left',
        eq_mul_iff_div_mod positive]
      split
      next ragged => simp [ragged]
      next even =>
        split
        next other => simp [Ne.symm other]
        next same =>
          obtain rfl : count = values.length / field.dim := Decidable.not_not.1 same
          rw [ih]
          simp [Decidable.not_not.1 even]

theorem countFrom_none_eq_ok_iff {records : Records} {answer : Option Nat} {schema : List Field}
    (nonempty : schema ≠ []) (dims : ∀ field ∈ schema, 0 < field.dim) :
    countFrom records none schema = .ok answer ↔
      ∃ count, answer = some count ∧ ∀ field ∈ schema,
        ∃ values, records.get? field.name = some values ∧ values.length = count * field.dim := by
  obtain ⟨field, rest, rfl⟩ := List.exists_cons_of_ne_nil nonempty
  have positive := dims field List.mem_cons_self
  simp only [countFrom_cons positive, List.forall_mem_cons]
  cases records.get? field.name with
  | none => simp
  | some values =>
    simp only [Option.any_none, Option.some.injEq, exists_eq_left', eq_mul_iff_div_mod positive]
    split
    next ragged => simp [ragged]
    next even =>
      rw [if_neg Bool.false_ne_true,
        countFrom_some_eq_ok_iff fun f hf => dims f (List.mem_cons_of_mem _ hf)]
      simp [Decidable.not_not.1 even]

theorem batchLength_eq_ok_iff {schema : List Field} {records : Records} {count : Nat}
    (nonempty : schema ≠ []) (dims : ∀ field ∈ schema, 0 < field.dim) :
    batchLength schema records = .ok count ↔ Fits schema records count := by
  unfold batchLength
  split
  next other =>
    constructor
    · intro h
      cases h
    · intro fits
      exact absurd fits.size other
  next same =>
    have rows (answer : Option Nat) : countFrom records none schema = .ok answer ↔ _ :=
      countFrom_none_eq_ok_iff nonempty dims
    constructor
    · intro h
      cases counted : countFrom records none schema with
      | error abort =>
        rw [counted] at h
        cases h
      | ok answer =>
        rw [counted] at h
        obtain ⟨n, rfl, each⟩ := (rows answer).1 counted
        obtain rfl : n = count := Except.ok.inj h
        exact ⟨Decidable.not_not.1 same, each⟩
    · intro fits
      rw [(rows (some count)).2 ⟨count, rfl, fits.rows⟩]
      rfl

theorem countFrom_eq_error {records : Records} {expected : Option Nat} {schema : List Field}
    {abort : Abort} (dims : ∀ field ∈ schema, 0 < field.dim)
    (h : countFrom records expected schema = .error abort) :
    ∃ misfit, abort = .refused (.schemaMismatch misfit) := by
  induction schema generalizing expected with
  | nil => cases h
  | cons field rest ih =>
    rw [countFrom_cons (dims field List.mem_cons_self)] at h
    split at h
    · exact ⟨_, (Except.error.inj h).symm⟩
    · split at h
      · exact ⟨_, (Except.error.inj h).symm⟩
      · split at h
        · exact ⟨_, (Except.error.inj h).symm⟩
        · exact ih (fun f hf => dims f (List.mem_cons_of_mem _ hf)) h

theorem batchLength_eq_error {schema : List Field} {records : Records} {abort : Abort}
    (dims : ∀ field ∈ schema, 0 < field.dim) (h : batchLength schema records = .error abort) :
    ∃ misfit, abort = .refused (.schemaMismatch misfit) := by
  unfold batchLength at h
  split at h
  · exact ⟨_, (Except.error.inj h).symm⟩
  · cases counted : countFrom records none schema with
    | ok answer =>
      rw [counted] at h
      cases h
    | error cause =>
      rw [counted] at h
      obtain rfl : cause = abort := Except.error.inj h
      exact countFrom_eq_error dims counted

end Schema

end ExperienceReplay
