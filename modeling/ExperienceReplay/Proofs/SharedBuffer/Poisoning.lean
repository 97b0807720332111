import ExperienceReplay.Proofs.SharedBuffer.Faces

/-!
Poisoned locks. Main statements: no request poisons the lock of a shared buffer, so that a lock is
poisoned only by a holder that faulted while it looked at the buffer; and from then on nothing
changes and every request is refused, but for those that ask the interface for the length.
-/

namespace ExperienceReplay

namespace SharedBuffer

/-- What the holders of a shared buffer do: they make requests, or look at the buffer while they
hold the lock, and may fault while they do. -/
inductive Step : Type 1 where
  | ask (entry : Entry) (request : Request)
  | look {α : Type} (see : Buffer → Except Fault α)

variable [Power]

def take (shared : SharedBuffer) : Step → Except Abort (Option (Logged Answer)) × SharedBuffer
  | .ask entry request =>
    ((Face.shared.enter entry).answer request >>= fun answer => pure (some answer)).perform shared
  | .look see =>
    (Face.shared.look (fun buffer => (see buffer).mapError Abort.faulted) >>= fun _ =>
      pure none).perform shared

def after (shared : SharedBuffer) : List Step → SharedBuffer
  | [] => shared
  | step :: rest => (shared.take step).2.after rest

def FaultsDuring (shared : SharedBuffer) (steps : List Step) : Prop :=
  ∃ (earlier later : List Step) (α : Type) (see : Buffer → Except Fault α) (fault : Fault),
    steps = earlier ++ .look see :: later ∧ (shared.after earlier).poisoned = false ∧
      see (shared.after earlier).buffer = .error fault

def emptyWarning : LogLine :=
  ⟨.warning, "Reporting an empty buffer: Lock of the shared replay buffer is poisoned"⟩

/-- The answer to a request once the lock is poisoned. Whether the buffer is empty follows from a
second look at its length, which is logged as well. -/
def poisonedAnswer : Entry → Request → Except Abort (Logged Answer)
  | .interface, .length => .ok ⟨.length 0 true, [emptyWarning, emptyWarning]⟩
  | _, _ => .error (.refused .lockPoisoned)

variable {shared : SharedBuffer} {buffer : Buffer} {layout : RecordRing.Layout}

theorem FaultsDuring.cons {step : Step} {rest : List Step}
    (faults : (shared.take step).2.FaultsDuring rest) : shared.FaultsDuring (step :: rest) := by
  obtain ⟨earlier, later, α, see, fault, rfl, whole, failed⟩ := faults
  exact ⟨step :: earlier, later, α, see, fault, rfl, whole, failed⟩

omit [Power] in
theorem eq_ofBuffer (whole : shared.poisoned = false) : shared = .ofBuffer shared.buffer := by
  obtain ⟨buffer, poisoned⟩ := shared
  obtain rfl : poisoned = false := whole
  rfl

omit [Power] in
theorem perform_locked_of_fault {α : Type} {call : Action Buffer α} {next : Buffer} {fault : Fault}
    (performed : call.perform buffer = (.error (.faulted fault), next)) :
    (locked call).perform (.ofBuffer buffer) = (.error (.faulted fault), ⟨next, true⟩) := by
  change locked call (.ofBuffer buffer) = _
  simp only [locked, ofBuffer, Bool.false_eq_true, if_false, performed]

theorem take_ask (formed : buffer.Formed layout) (entry : Entry) (request : Request) :
    (ofBuffer buffer).take (.ask entry request) =
      ((buffer.ask request).1.map some, .ofBuffer (buffer.ask request).2) := by
  rw [take, Action.perform_bind_pure, formed.perform_enter_shared]

theorem take_look_of_ok {α : Type} {see : Buffer → Except Fault α} {seen : α}
    (looked : see buffer = .ok seen) :
    (ofBuffer buffer).take (.look see) = (.ok none, .ofBuffer buffer) := by
  have performed : (Action.inspect fun buffer =>
      (see buffer).mapError Abort.faulted).perform buffer = (.ok seen, buffer) := by
    rw [Action.perform_inspect, looked]
    rfl
  have held : (Face.shared.look fun buffer => (see buffer).mapError Abort.faulted).perform
      (.ofBuffer buffer) = (.ok seen, .ofBuffer buffer) :=
    perform_locked performed fun _ faulted => by cases faulted
  rw [take, Action.perform_bind_pure, held]
  rfl

theorem take_look_of_fault {α : Type} {see : Buffer → Except Fault α} {fault : Fault}
    (looked : see buffer = .error fault) :
    (ofBuffer buffer).take (.look see) = (.error (.faulted fault), ⟨buffer, true⟩) := by
  have performed : (Action.inspect fun buffer =>
      (see buffer).mapError Abort.faulted).perform buffer = (.error (.faulted fault), buffer) := by
    rw [Action.perform_inspect, looked]
    rfl
  have held : (Face.shared.look fun buffer => (see buffer).mapError Abort.faulted).perform
      (.ofBuffer buffer) = (.error (.faulted fault), ⟨buffer, true⟩) :=
    perform_locked_of_fault performed
  rw [take, Action.perform_bind_pure, held]
  rfl

theorem perform_enter_of_poisoned (poisoned : shared.poisoned = true) (entry : Entry)
    (request : Request) :
    ((Face.shared.enter entry).answer request).perform shared =
      (poisonedAnswer entry request, shared) := by
  obtain ⟨buffer, _⟩ := shared
  obtain rfl := poisoned
  cases entry <;> cases request <;> rfl

theorem take_of_poisoned (poisoned : shared.poisoned = true) (step : Step) :
    (shared.take step).2 = shared := by
  cases step with
  | ask entry request => rw [take, Action.perform_bind_pure, perform_enter_of_poisoned poisoned]
  | look see =>
    obtain ⟨buffer, _⟩ := shared
    obtain rfl := poisoned
    rfl

theorem after_of_poisoned (poisoned : shared.poisoned = true) (steps : List Step) :
    shared.after steps = shared := by
  induction steps with
  | nil => rfl
  | cons step rest ih => rw [after, take_of_poisoned poisoned, ih]

theorem formed_take (formed : shared.buffer.Formed layout) (step : Step) :
    (shared.take step).2.buffer.Formed layout := by
  cases state : shared.poisoned with
  | true => rwa [take_of_poisoned state]
  | false =>
    rw [eq_ofBuffer state]
    cases step with
    | ask entry request =>
      rw [take_ask formed]
      exact formed.ask request
    | look see =>
      cases looked : see shared.buffer with
      | ok seen => rwa [take_look_of_ok looked]
      | error fault => rwa [take_look_of_fault looked]

theorem formed_after (formed : shared.buffer.Formed layout) (steps : List Step) :
    (shared.after steps).buffer.Formed layout := by
  induction steps generalizing shared with
  | nil => exact formed
  | cons step rest ih => exact ih (formed_take formed step)

theorem faultsDuring_of_poisoned (formed : buffer.Formed layout) {steps : List Step}
    (poisoned : ((ofBuffer buffer).after steps).poisoned = true) :
    (ofBuffer buffer).FaultsDuring steps := by
  induction steps generalizing buffer with
  | nil => cases poisoned
  | cons step rest ih =>
    cases step with
    | ask entry request =>
      apply FaultsDuring.cons
      rw [after, take_ask formed] at poisoned
      rw [take_ask formed]
      exact ih (formed.ask request) poisoned
    | look see =>
      cases looked : see buffer with
      | ok seen =>
        apply FaultsDuring.cons
        rw [after, take_look_of_ok looked] at poisoned
        rw [take_look_of_ok looked]
        exact ih formed poisoned
      | error fault => exact ⟨[], rest, _, see, fault, rfl, rfl, looked⟩

theorem poisoned_of_answered (formed : shared.buffer.Formed layout) {step : Step}
    (answered : (shared.take step).1 = .error (.refused .lockPoisoned)) :
    shared.poisoned = true := by
  cases state : shared.poisoned with
  | true => rfl
  | false =>
    rw [eq_ofBuffer state] at answered
    cases step with
    | ask entry request =>
      rw [take_ask formed] at answered
      exact absurd answered ((formed.orderly_ask request).map some).not_poisoned
    | look see =>
      cases looked : see shared.buffer with
      | ok seen =>
        rw [take_look_of_ok looked] at answered
        cases answered
      | error fault =>
        rw [take_look_of_fault looked] at answered
        cases answered

/-- Whatever was asked of a buffer, shared or not, its next call does not fault, and every place
that the call looks up is there. A lock is found poisoned only if a holder faulted before, while it
looked at the buffer. -/
theorem inBounds_after_build {config : Config} {start : Buffer}
    (built : Buffer.build config = .ok start) :
    (∀ requests, (start.after requests).InBounds config) ∧
    ∀ steps, ((ofBuffer start).after steps).buffer.InBounds config ∧
      ∀ step, (((ofBuffer start).after steps).take step).1 = .error (.refused .lockPoisoned) →
        (ofBuffer start).FaultsDuring steps := by
  obtain ⟨layout, capacity, schema, formed⟩ := Buffer.exists_formed_of_build built
  have shared (steps : List Step) : ((ofBuffer start).after steps).buffer.Formed layout :=
    formed_after formed steps
  refine ⟨fun requests => (formed.after requests).inBounds capacity schema, fun steps =>
    ⟨(shared steps).inBounds capacity schema, fun step answered => ?_⟩⟩
  exact faultsDuring_of_poisoned formed (poisoned_of_answered (shared steps) answered)

omit [Power] in
/-- Draws that are no numbers and slots that do not exist are refused. The lock is poisoned by a
holder that faults. -/
theorem inBounds_after_build_faulted :
    letI := Power.linear
    ∃ start, Buffer.build (.linear 3) = .ok start ∧
      let filling := Request.insert (.ofList [("states", [0, 1]), ("terminals", [0, 1])])
      let steps := [.ask .interface filling, .look fun _ => (.error .noLastSlot : Except Fault Nat)]
      (∀ fault, ((start.after [filling, .update [3] [1]]).ask (.draw [.nan])).1 ≠
        .error (.faulted fault)) ∧
      (((ofBuffer start).after steps).take (.ask .own (.sample 1))).1 =
        .error (.refused .lockPoisoned) ∧
      (ofBuffer start).FaultsDuring steps := by
  let _ := Power.linear
  have built : Buffer.build (.linear 3) = .ok _ := rfl
  refine ⟨_, built, ?_⟩
  intro filling steps
  obtain ⟨direct, shared⟩ := inBounds_after_build built
  refine ⟨fun fault => ?_, by decide +kernel,
    (shared steps).2 (.ask .own (.sample 1)) (by decide +kernel)⟩
  exact ((direct [filling, .update [3] [1]]).orderly (.draw [.nan])).no_fault fault

/-- All faces of a buffer answer a session alike and lead through the same states. Once a holder of
a shared buffer has faulted while it held the lock, the buffer behind the lock stays as it is, and
whatever is done then every request is refused, except that the interface counts the buffer as
empty and logs a warning each time it is asked. -/
theorem faces_agree_after_build (config : Config) :
    (ReplaySource.build config : Except Error Buffer) = Buffer.build config ∧
    (ReplaySource.build config : Except Error SharedBuffer) =
      (Buffer.build config).map .ofBuffer ∧
    ∀ start, Buffer.build config = .ok start →
      (∀ calls others : List (Entry × Request), others.map Prod.snd = calls.map Prod.snd →
        Face.direct.session start others = Face.direct.session start calls ∧
        Face.shared.session (ofBuffer start) others =
          (Face.direct.session start calls).map fun (answer, next) => (answer, .ofBuffer next)) ∧
      ∀ (steps : List Step) {α : Type} (see : Buffer → Except Fault α) (fault : Fault),
        let held := (ofBuffer start).after steps
        held.poisoned = false → see held.buffer = .error fault →
          ∃ stuck, held.take (.look see) = (.error (.faulted fault), stuck) ∧
            stuck.buffer = held.buffer ∧ ∀ later, stuck.after later = stuck ∧
              stuck.size = .error .lockPoisoned ∧
              ExperienceSink.length stuck = ⟨0, [emptyWarning]⟩ ∧
              ∀ entry request, ((Face.shared.enter entry).answer request).perform stuck =
                (poisonedAnswer entry request, stuck) := by
  refine ⟨rfl, rfl, fun start built => ?_⟩
  obtain ⟨layout, _, _, formed⟩ := Buffer.exists_formed_of_build built
  refine ⟨fun calls others same => ⟨Buffer.session_direct_congr same,
    formed.session_shared same⟩, fun steps α see fault => ?_⟩
  intro held whole failed
  have taken := take_look_of_fault failed
  rw [← eq_ofBuffer whole] at taken
  exact ⟨_, taken, rfl, fun later => ⟨after_of_poisoned rfl later, rfl, rfl,
    perform_enter_of_poisoned rfl⟩⟩

omit [Power] in
/-- A learner that goes through the interface of a shared buffer sees what it would see of a buffer
of its own, until another holder faults. -/
theorem faces_agree_after_build_poisoned :
    letI := Power.linear
    ∃ start, Buffer.build (.linear 3) = .ok start ∧
      let requests := [.insert (.ofList [("states", [0, 1]), ("terminals", [0, 1])]), .sample 2,
        .update [0, 3] [1, 1], .update [1] [Binary32.belowOne], .draw [0], .length]
      Face.shared.session (ofBuffer start) (requests.map (.interface, ·)) =
        (Face.direct.session start (requests.map (.own, ·))).map
          (fun (answer, next) => (answer, .ofBuffer next)) ∧
      ∃ stuck, (ofBuffer start).take (.look fun _ => (.error .noLastSlot : Except Fault Nat)) =
          (.error (.faulted .noLastSlot), stuck) ∧
        stuck.buffer = start ∧ ExperienceSink.length stuck = ⟨0, [emptyWarning]⟩ ∧
        ((Face.shared.enter .interface).answer (.sample 1)).perform stuck =
          (.error (.refused .lockPoisoned), stuck) := by
  let _ := Power.linear
  have built : Buffer.build (.linear 3) = .ok _ := rfl
  refine ⟨_, built, ?_⟩
  intro requests
  obtain ⟨_, _, agree⟩ := faces_agree_after_build (.linear 3)
  obtain ⟨sessions, faults⟩ := agree _ built
  obtain ⟨stuck, taken, same, fixed⟩ :=
    faults [] (fun _ => (.error .noLastSlot : Except Fault Nat)) .noLastSlot rfl rfl
  obtain ⟨_, _, length, refused⟩ := fixed []
  exact ⟨(sessions (requests.map (.own, ·)) (requests.map (.interface, ·)) rfl).2, stuck, taken,
    same, length, refused .interface (.sample 1)⟩

end SharedBuffer

end ExperienceReplay
