import ExperienceReplay.Error
import Mathlib.Data.List.Forall2

/-!
Calls made in a row. If each of them succeeds, so does the row, with the answers in order; if one
of them is refused, so is the row, with the first refusal.
-/

namespace ExperienceReplay

theorem Abort.remainder_of_pos {n divisor : Nat} (positive : 0 < divisor) :
    Abort.remainder n divisor = .ok (n % divisor) :=
  if_neg (Nat.ne_of_gt positive)

theorem Abort.quotient_of_pos {n divisor : Nat} (positive : 0 < divisor) :
    Abort.quotient n divisor = .ok (n / divisor) :=
  if_neg (Nat.ne_of_gt positive)

theorem Abort.lastSlot_of_pos {size : Nat} (positive : 0 < size) :
    Abort.lastSlot size = .ok (size - 1) := by
  cases size with
  | zero => omega
  | succ last => rfl

variable {ε α β : Type}

theorem bind_eq_ok_iff {first : Except ε α} {next : α → Except ε β} {answer : β} :
    (first >>= next) = .ok answer ↔ ∃ a, first = .ok a ∧ next a = .ok answer := by
  cases first <;> simp [bind, Except.bind]

theorem mapError_eq_ok_iff {ε' : Type} {f : ε → ε'} {result : Except ε α} {answer : α} :
    result.mapError f = .ok answer ↔ result = .ok answer := by
  cases result <;> simp [Except.mapError]

theorem map_eq_ok_iff {f : α → β} {result : Except ε α} {answer : β} :
    result.map f = .ok answer ↔ ∃ a, result = .ok a ∧ f a = answer := by
  cases result <;> simp [Except.map]

theorem mapM_eq_ok {f : α → Except ε β} {g : α → β} {items : List α}
    (h : ∀ item ∈ items, f item = .ok (g item)) : items.mapM f = .ok (items.map g) := by
  induction items with
  | nil => rfl
  | cons first rest ih =>
    obtain ⟨here, rest⟩ := List.forall_mem_cons.1 h
    rw [List.mapM_cons, here, ih rest]
    rfl

theorem forall₂_of_mapM_eq_ok {f : α → Except ε β} {items : List α} {answers : List β}
    (answered : items.mapM f = .ok answers) :
    List.Forall₂ (fun item answer => f item = .ok answer) items answers := by
  induction items generalizing answers with
  | nil =>
    cases answered
    exact .nil
  | cons first rest ih =>
    rw [List.mapM_cons] at answered
    obtain ⟨answer, here, answered⟩ := bind_eq_ok_iff.1 answered
    obtain ⟨others, there, answered⟩ := bind_eq_ok_iff.1 answered
    cases answered
    exact .cons here (ih there)

theorem exists_mapM_eq_ok {f : α → Except ε β} {Answers : α → β → Prop} {items : List α}
    (h : ∀ item ∈ items, ∃ answer, f item = .ok answer ∧ Answers item answer) :
    ∃ answers, items.mapM f = .ok answers ∧ List.Forall₂ Answers items answers := by
  induction items with
  | nil => exact ⟨[], rfl, .nil⟩
  | cons first rest ih =>
    obtain ⟨⟨answer, here, answers⟩, rest⟩ := List.forall_mem_cons.1 h
    obtain ⟨others, there, all⟩ := ih rest
    refine ⟨answer :: others, ?_, .cons answers all⟩
    rw [List.mapM_cons, here, there]
    rfl

theorem map_eq_map_of_forall₂ {γ : Type} {f : α → γ} {g : β → γ} {items : List α}
    {answers : List β} (h : List.Forall₂ (fun item answer => f item = g answer) items answers) :
    items.map f = answers.map g := by
  induction h with
  | nil => rfl
  | cons here _ ih => rw [List.map_cons, List.map_cons, here, ih]

theorem forall_mem_of_forall₂ {Good : β → Prop} {items : List α} {answers : List β}
    (h : List.Forall₂ (fun _ answer => Good answer) items answers) :
    ∀ answer ∈ answers, Good answer := by
  induction h with
  | nil => exact fun _ mem => absurd mem List.not_mem_nil
  | cons here _ ih => exact List.forall_mem_cons.2 ⟨here, ih⟩

theorem Action.perform_bind_pure {σ α β : Type} (call : Action σ α) (f : α → β) (state : σ) :
    (call >>= fun answer => pure (f answer)).perform state =
      ((call.perform state).1.map f, (call.perform state).2) := by
  rw [Action.perform_bind]
  rcases call.perform state with ⟨_ | _, _⟩ <;> rfl

namespace Action

variable {σ τ : Type} {part : σ → τ}

/-- A call that leaves a part of the state as it is, even when it ends without an answer. -/
def Keeps (part : σ → τ) (call : Action σ α) : Prop :=
  ∀ state, part (call.perform state).2 = part state

theorem Keeps.bind {first : Action σ α} {next : α → Action σ β} (here : first.Keeps part)
    (there : ∀ answer, (next answer).Keeps part) : (first >>= next).Keeps part := by
  intro state
  have kept := here state
  rw [perform_bind]
  generalize first.perform state = performed at kept ⊢
  rcases performed with ⟨abort | answer, changed⟩
  · exact kept
  · exact (there answer changed).trans kept

theorem keeps_inspect (look : σ → Except Abort α) : (inspect look).Keeps part :=
  fun state => congrArg (fun performed => part performed.2) (perform_inspect look state)

theorem keeps_update {change : σ → Except Abort (α × σ)}
    (same : ∀ state answer changed, change state = .ok (answer, changed) →
      part changed = part state) : (update change).Keeps part := by
  intro state
  rw [perform_update]
  cases changed : change state with
  | error abort => rfl
  | ok result => exact same state _ _ changed

theorem Keeps.forM {call : α → Action σ Unit} (each : ∀ item, (call item).Keeps part)
    (items : List α) : (items.forM call).Keeps part := by
  induction items with
  | nil => exact fun _ => rfl
  | cons item rest ih => exact (each item).bind fun _ => ih

end Action

theorem forM_eq_ok_iff {check : α → Except ε Unit} {items : List α} :
    items.forM check = .ok () ↔ ∀ item ∈ items, check item = .ok () := by
  induction items with
  | nil => simp [List.forM, pure, Except.pure]
  | cons item rest ih =>
    rw [List.forM, List.forall_mem_cons, ← ih]
    cases check item <;> simp [bind, Except.bind]

theorem forM_eq_error_iff {check : α → Except ε Unit} {items : List α} {error : ε} :
    items.forM check = .error error ↔ ∃ before item after, items = before ++ item :: after ∧
      (∀ passed ∈ before, check passed = .ok ()) ∧ check item = .error error := by
  induction items with
  | nil => simp [List.forM, pure, Except.pure]
  | cons first rest ih =>
    rw [List.forM]
    cases here : check first with
    | error cause =>
      refine ⟨fun failed => ⟨[], first, rest, rfl, nofun, here.trans failed⟩, ?_⟩
      rintro ⟨before, item, after, split, passed, failed⟩
      cases before with
      | nil =>
        obtain ⟨rfl, _⟩ := List.cons.inj split
        exact here.symm.trans failed
      | cons other before =>
        obtain ⟨rfl, _⟩ := List.cons.inj split
        exact absurd (here.symm.trans (passed first List.mem_cons_self)) nofun
    | ok =>
      refine Iff.trans ih ⟨?_, ?_⟩
      · rintro ⟨before, item, after, rfl, passed, failed⟩
        exact ⟨first :: before, item, after, rfl, List.forall_mem_cons.2 ⟨here, passed⟩, failed⟩
      · rintro ⟨before, item, after, split, passed, failed⟩
        cases before with
        | nil =>
          obtain ⟨rfl, _⟩ := List.cons.inj split
          exact absurd (here.symm.trans failed) nofun
        | cons other before =>
          obtain ⟨rfl, rfl⟩ := List.cons.inj split
          exact ⟨before, item, after, rfl, (List.forall_mem_cons.1 passed).2, failed⟩

end ExperienceReplay
