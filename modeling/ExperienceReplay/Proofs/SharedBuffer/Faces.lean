import ExperienceReplay.Proofs.Buffer.Faultless

/-!
The faces of a buffer. Main statement: a session of requests is answered in the same way, and leads
through the same states, whether it calls the buffer's own operations or those of the interface of
producers and learners, and whether or not the buffer is shared.
-/

namespace ExperienceReplay

/-- Whether a request goes to the operations of a buffer itself, or to those of the interface. -/
inductive Entry where
  | own
  | interface
deriving DecidableEq

namespace Face

variable {σ : Type} [ReplaySource σ]

def enter (face : Face σ) : Entry → Face σ
  | .own => face
  | .interface => face.viaInterface

/-- The answers to the requests of a session, each with the state after it. The clones of a shared
buffer have one state, so it does not matter which of them a request is made through. -/
def session (face : Face σ) (state : σ) :
    List (Entry × Request) → List (Except Abort (Logged Answer) × σ)
  | [] => []
  | (entry, request) :: rest =>
    let (answer, next) := ((face.enter entry).answer request).perform state
    (answer, next) :: face.session next rest

end Face

namespace SharedBuffer

theorem perform_locked {α : Type} {call : Action Buffer α} {buffer next : Buffer}
    {answer : Except Abort α} (performed : call.perform buffer = (answer, next))
    (whole : ∀ fault, answer ≠ .error (.faulted fault)) :
    (locked call).perform (.ofBuffer buffer) = (answer, .ofBuffer next) := by
  change locked call (.ofBuffer buffer) = _
  -- the second case of the match stands for all answers that are no fault, which is `whole`
  simp only [locked, ofBuffer, Bool.false_eq_true, if_false, performed]

theorem perform_locked_bind_pure {α β : Type} {call : Action Buffer α} {buffer : Buffer}
    (orderly : Orderly (call.perform buffer).1) (f : α → β) :
    (locked call >>= fun answer => pure (f answer)).perform (.ofBuffer buffer) =
      ((call.perform buffer).1.map f, .ofBuffer (call.perform buffer).2) := by
  have performed : (locked call).perform (.ofBuffer buffer) = _ :=
    perform_locked (Prod.eta (call.perform buffer)).symm orderly.no_fault
  rw [Action.perform_bind_pure, performed]

end SharedBuffer

namespace Buffer

variable [Power] {buffer : Buffer} {layout : RecordRing.Layout}

theorem answer_enter_direct (entry : Entry) (request : Request) :
    (Face.direct.enter entry).answer request = Face.direct.answer request := by
  cases entry with
  | own => rfl
  | interface => cases request <;> rfl

theorem Formed.perform_enter_shared (formed : buffer.Formed layout) (entry : Entry)
    (request : Request) :
    ((Face.shared.enter entry).answer request).perform (.ofBuffer buffer) =
      ((buffer.ask request).1, .ofBuffer (buffer.ask request).2) := by
  cases request with
  | insert batch =>
    rw [ask_insert, ← SharedBuffer.perform_locked_bind_pure (formed.orderly_insert batch)]
    cases entry <;> rfl
  | sample n =>
    rw [ask_sample, ← SharedBuffer.perform_locked_bind_pure (formed.orderly_sample n)]
    cases entry <;> rfl
  | draw draws =>
    have drawn : (Action.inspect (Buffer.sampleWith · draws)).perform buffer =
        (buffer.sampleWith draws, buffer) := Action.perform_inspect _ buffer
    have orderly : Orderly ((Action.inspect (Buffer.sampleWith · draws)).perform buffer).1 :=
      drawn ▸ formed.orderly_sampleWith draws
    have locked := SharedBuffer.perform_locked_bind_pure orderly
      fun batch => Logged.silent (Answer.batch batch)
    rw [drawn] at locked
    rw [ask_draw, ← locked]
    cases entry <;> rfl
  | update indices priorities =>
    rw [ask_update,
      ← SharedBuffer.perform_locked_bind_pure (formed.orderly_update indices priorities)]
    cases entry <;> rfl
  | length => cases entry <;> rfl

theorem session_direct_congr {calls others : List (Entry × Request)}
    (same : others.map Prod.snd = calls.map Prod.snd) :
    Face.direct.session buffer others = Face.direct.session buffer calls := by
  induction calls generalizing buffer others with
  | nil => rw [List.map_eq_nil_iff.1 same]
  | cons call rest ih =>
    obtain ⟨other, others, rfl, here, there⟩ := List.map_eq_cons_iff.1 same
    rw [Face.session, Face.session, answer_enter_direct, answer_enter_direct, here]
    exact congrArg _ (ih there)

theorem Formed.session_shared (formed : buffer.Formed layout)
    {calls others : List (Entry × Request)}
    (same : others.map Prod.snd = calls.map Prod.snd) :
    Face.shared.session (.ofBuffer buffer) others =
      (Face.direct.session buffer calls).map fun (answer, next) => (answer, .ofBuffer next) := by
  induction calls generalizing buffer others with
  | nil =>
    rw [List.map_eq_nil_iff.1 same]
    rfl
  | cons call rest ih =>
    obtain ⟨other, others, rfl, here, there⟩ := List.map_eq_cons_iff.1 same
    rw [Face.session, Face.session, formed.perform_enter_shared, answer_enter_direct, here]
    exact congrArg _ (ih (formed.ask _) there)

end Buffer

end ExperienceReplay
