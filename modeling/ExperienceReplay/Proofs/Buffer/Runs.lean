import ExperienceReplay.Proofs.Buffer.Sampling
import ExperienceReplay.Session

/-!
Runs of a buffer: requests put to it one after the other, whatever they are and however they are
answered. Main statements: sampling a buffer that holds records never fails, and a call that fails
changes nothing, so that it can be left out of a run.
-/

namespace ExperienceReplay

structure Exchange where
  request : Request
  answer : Except Abort (Logged Answer)

def Request.rescored : Request → List Nat
  | .update indices _ => indices
  | .insert _ | .sample _ | .draw _ | .length => []

def Exchange.rescored (exchange : Exchange) : List Nat :=
  match exchange.answer with
  | .ok _ => exchange.request.rescored
  | .error _ => []

def Exchange.succeeded (exchange : Exchange) : Bool := exchange.answer.isOk

@[reducible] def Power.linear : Power where
  pow base _ := base

/-- A configuration with exponents of one, so that the weight of a slot is its priority. -/
def Config.linear (capacity : Nat) : Config :=
  { Config.default with
    capacity, alpha := 1, beta := 1, fields := [.scalar Field.states, .scalar Field.terminals] }

/-- What is left of the exchanges of a run when some that failed are left out. -/
inductive Thinned : List Exchange → List Exchange → Prop
  | nil : Thinned [] []
  | keep {exchange : Exchange} {run kept : List Exchange} (rest : Thinned run kept) :
    Thinned (exchange :: run) (exchange :: kept)
  | drop {exchange : Exchange} {run kept : List Exchange} (failed : exchange.answer.isOk = false)
    (rest : Thinned run kept) : Thinned (exchange :: run) kept

theorem Thinned.filter_succeeded (run : List Exchange) :
    Thinned run (run.filter Exchange.succeeded) := by
  induction run with
  | nil => exact .nil
  | cons exchange rest ih =>
    rw [List.filter_cons]
    split
    · exact .keep ih
    · rename_i failed
      exact .drop (Bool.eq_false_iff.2 failed) ih

namespace Buffer

variable [Power]

def ask (buffer : Buffer) (request : Request) : Except Abort (Logged Answer) × Buffer :=
  (Face.direct.answer request).perform buffer

def after (buffer : Buffer) : List Request → Buffer
  | [] => buffer
  | request :: rest => (buffer.ask request).2.after rest

def transcript (buffer : Buffer) : List Request → List Exchange
  | [] => []
  | request :: rest =>
    ⟨request, (buffer.ask request).1⟩ :: (buffer.ask request).2.transcript rest

def rescoredSlots (buffer : Buffer) (requests : List Request) : List Nat :=
  (buffer.transcript requests).flatMap Exchange.rescored

theorem after_append (buffer : Buffer) (requests others : List Request) :
    buffer.after (requests ++ others) = (buffer.after requests).after others := by
  induction requests generalizing buffer with
  | nil => rfl
  | cons request rest ih => exact ih (buffer.ask request).2

theorem transcript_append (buffer : Buffer) (requests others : List Request) :
    buffer.transcript (requests ++ others) =
      buffer.transcript requests ++ (buffer.after requests).transcript others := by
  induction requests generalizing buffer with
  | nil => rfl
  | cons request rest ih => exact congrArg _ (ih (buffer.ask request).2)

theorem length_transcript (buffer : Buffer) (requests : List Request) :
    (buffer.transcript requests).length = requests.length := by
  induction requests generalizing buffer with
  | nil => rfl
  | cons request rest ih => exact congrArg Nat.succ (ih (buffer.ask request).2)

theorem rescoredSlots_append (buffer : Buffer) (requests others : List Request) :
    buffer.rescoredSlots (requests ++ others) =
      buffer.rescoredSlots requests ++ (buffer.after requests).rescoredSlots others := by
  rw [rescoredSlots, transcript_append, List.flatMap_append]
  rfl

variable {buffer : Buffer} {layout : RecordRing.Layout} {named : List Nat}

theorem ask_insert (batch : Records) :
    buffer.ask (.insert batch) =
      (((insert batch).perform buffer).1.map fun _ => .silent .done,
        ((insert batch).perform buffer).2) :=
  Action.perform_bind_pure (insert batch) _ buffer

theorem ask_update (indices : List Nat) (priorities : List Binary32) :
    buffer.ask (.update indices priorities) =
      (((update indices priorities).perform buffer).1.map fun _ => .silent .done,
        ((update indices priorities).perform buffer).2) :=
  Action.perform_bind_pure (update indices priorities) _ buffer

theorem ask_sample (n : Nat) :
    buffer.ask (.sample n) =
      (((sample n).perform buffer).1.map fun batch => .silent (.batch batch),
        ((sample n).perform buffer).2) :=
  Action.perform_bind_pure (sample n) _ buffer

theorem ask_draw (draws : List Binary32) :
    buffer.ask (.draw draws) =
      ((buffer.sampleWith draws).map fun batch => .silent (.batch batch), buffer) := by
  have drawn : (Face.direct.draw draws).perform buffer = (buffer.sampleWith draws, buffer) :=
    Action.perform_inspect _ buffer
  have answered := Action.perform_bind_pure (Face.direct.draw draws)
    (fun batch => Logged.silent (Answer.batch batch)) buffer
  rw [drawn] at answered
  exact answered

theorem mem_rescoredSlots_singleton {request : Request} {slot : Nat}
    (mem : slot ∈ buffer.rescoredSlots [request]) :
    ∃ indices priorities, request = .update indices priorities ∧ slot ∈ indices := by
  change slot ∈ Exchange.rescored _ ++ [] at mem
  rw [List.append_nil] at mem
  unfold Exchange.rescored at mem
  split at mem
  next =>
    cases request with
    | update indices priorities => exact ⟨indices, priorities, rfl, mem⟩
    | _ => exact absurd mem List.not_mem_nil
  next => exact absurd mem List.not_mem_nil

theorem exists_draws_of_batch {request : Request} {batch : SampledBatch}
    (answered : (buffer.ask request).1 = .ok (.silent (.batch batch))) :
    ∃ draws, buffer.sampleWith draws = .ok batch := by
  cases request with
  | insert batch =>
    rw [ask_insert] at answered
    obtain ⟨_, _, other⟩ := map_eq_ok_iff.1 answered
    cases other
  | sample n =>
    rw [ask_sample] at answered
    obtain ⟨_, performed, same⟩ := map_eq_ok_iff.1 answered
    cases same
    exact ⟨_, sampleWith_of_perform_sample performed⟩
  | draw draws =>
    rw [ask_draw] at answered
    obtain ⟨_, sampled, same⟩ := map_eq_ok_iff.1 answered
    cases same
    exact ⟨draws, sampled⟩
  | update indices priorities =>
    rw [ask_update] at answered
    obtain ⟨_, _, other⟩ := map_eq_ok_iff.1 answered
    cases other
  | length => cases answered

theorem Sound.ask (sound : buffer.Sound layout named) (request : Request) :
    (∃ answer next, buffer.ask request = (.ok answer, next) ∧
      next.Sound layout (named ++ request.rescored)) ∨
    ∃ error, buffer.ask request = (.error (.refused error), buffer) := by
  cases request with
  | insert batch =>
    rw [ask_insert]
    rcases sound.insert batch with ⟨_, _, _, _, inserted, sound⟩ | ⟨_, _, refused⟩
    · rw [inserted]
      exact Or.inl ⟨_, _, rfl, by rwa [Request.rescored, List.append_nil]⟩
    · rw [refused]
      exact Or.inr ⟨_, rfl⟩
  | sample n =>
    rw [ask_sample]
    by_cases empty : buffer.size = 0
    · rw [perform_sample_of_empty empty]
      exact Or.inr ⟨_, rfl⟩
    · obtain ⟨batch, sampled⟩ := sound.perform_sample (Nat.pos_of_ne_zero empty) n
      rw [sampled]
      refine Or.inl ⟨_, _, rfl, ?_⟩
      rw [Request.rescored, List.append_nil]
      exact sound.of_stream _
  | draw draws =>
    rw [ask_draw]
    rcases sound.sampleWith draws with ⟨batch, sampled⟩ | ⟨error, refused⟩
    · rw [sampled]
      exact Or.inl ⟨_, buffer, rfl, by rwa [Request.rescored, List.append_nil]⟩
    · rw [refused]
      exact Or.inr ⟨error, rfl⟩
  | update indices priorities =>
    rw [ask_update]
    rcases sound.update indices priorities with ⟨rescored, sound⟩ | ⟨error, refused⟩
    · rw [rescored]
      exact Or.inl ⟨_, _, rfl, sound⟩
    · rw [refused]
      exact Or.inr ⟨error, rfl⟩
  | length => exact Or.inl ⟨_, buffer, rfl, by rwa [Request.rescored, List.append_nil]⟩

theorem Sound.after (sound : buffer.Sound layout named) (requests : List Request) :
    (buffer.after requests).Sound layout (named ++ buffer.rescoredSlots requests) := by
  induction requests generalizing buffer named with
  | nil => rwa [rescoredSlots, transcript, List.flatMap_nil, List.append_nil]
  | cons request rest ih =>
    unfold Buffer.after rescoredSlots transcript
    rw [List.flatMap_cons]
    rcases sound.ask request with ⟨answer, next, answered, sound⟩ | ⟨error, refused⟩
    · rw [answered, ← List.append_assoc]
      exact ih sound
    · rw [refused]
      exact ih sound

def RefusesCleanly (buffer : Buffer) : List Request → Prop
  | [] => True
  | request :: rest =>
    ((∃ answer, (buffer.ask request).1 = .ok answer) ∨
      ∃ error, buffer.ask request = (.error (.refused error), buffer)) ∧
    (buffer.ask request).2.RefusesCleanly rest

theorem Sound.refusesCleanly (sound : buffer.Sound layout named) (requests : List Request) :
    buffer.RefusesCleanly requests := by
  induction requests generalizing buffer named with
  | nil => exact trivial
  | cons request rest ih =>
    have next : (buffer.ask request).2.Sound layout _ := sound.after [request]
    refine ⟨?_, ih next⟩
    rcases sound.ask request with ⟨answer, _, answered, _⟩ | refused
    · exact Or.inl ⟨answer, congrArg Prod.fst answered⟩
    · exact Or.inr refused

theorem RefusesCleanly.refused_of_failed {requests : List Request}
    (clean : buffer.RefusesCleanly requests) {exchange : Exchange}
    (mem : exchange ∈ buffer.transcript requests) (failed : exchange.succeeded = false) :
    ∃ error, exchange.answer = .error (.refused error) := by
  induction requests generalizing buffer with
  | nil => exact absurd mem List.not_mem_nil
  | cons request rest ih =>
    obtain ⟨here, later⟩ := clean
    rcases List.mem_cons.1 mem with rfl | mem
    · rcases here with ⟨answer, answered⟩ | ⟨error, refused⟩
      · rw [Exchange.succeeded, answered] at failed
        cases failed
      · exact ⟨error, congrArg Prod.fst refused⟩
    · exact ih later mem

theorem RefusesCleanly.transcript_of_thinned {requests : List Request}
    (clean : buffer.RefusesCleanly requests) {kept : List Exchange}
    (thinned : Thinned (buffer.transcript requests) kept) :
    buffer.transcript (kept.map Exchange.request) = kept ∧
      buffer.after (kept.map Exchange.request) = buffer.after requests := by
  induction requests generalizing buffer kept with
  | nil =>
    cases thinned with
    | nil => exact ⟨rfl, rfl⟩
  | cons request rest ih =>
    obtain ⟨here, later⟩ := clean
    unfold transcript at thinned
    cases thinned with
    | keep thinned =>
      obtain ⟨same, same'⟩ := ih later thinned
      exact ⟨congrArg _ same, same'⟩
    | drop failed thinned =>
      rcases here with ⟨answer, answered⟩ | ⟨error, refused⟩
      · rw [answered] at failed
        cases failed
      · rw [refused] at thinned later
        obtain ⟨same, same'⟩ := ih later thinned
        refine ⟨same, same'.trans ?_⟩
        rw [Buffer.after, refused]

/-- Whatever was asked of a buffer before, draws from `[0, 1)` select written slots as soon as it
holds records. -/
theorem sampleWith_after_build {config : Config} (word : config.capacity < 2 ^ 64)
    (one_pow : Power.pow 1 config.alpha = 1) {start : Buffer} (built : build config = .ok start)
    (requests : List Request) (holdsRecords : 0 < (start.after requests).size)
    {draws : List Binary32} (shares : ∀ draw ∈ draws, 0 ≤ draw ∧ draw < 1) :
    ∃ batch, (start.after requests).sampleWith draws = .ok batch ∧
      batch.DrawnFrom (start.after requests) draws := by
  obtain ⟨layout, _, sound⟩ := exists_sound_of_build word one_pow built
  exact (sound.after requests).exists_sampleWith holdsRecords shares

omit [Power] in
/-- A slot that was rescored but never written is not drawn. -/
theorem sampleWith_after_build_unwritten :
    letI := Power.linear
    ∃ start, build (.linear 3) = .ok start ∧
      let buffer := start.after [.insert (.ofList [("states", [0, 1]), ("terminals", [0, 1])]),
        .update [2] [Binary32.belowOne]]
      ∃ batch, buffer.sampleWith [0, Binary32.belowOne] = .ok batch ∧ batch.weights.length = 2 ∧
        ∀ slot ∈ batch.indices, slot < 2 := by
  let _ := Power.linear
  have built : build (.linear 3) = .ok _ := rfl
  refine ⟨_, built, ?_⟩
  obtain ⟨batch, sampled, drawn⟩ := sampleWith_after_build (by decide) rfl built
    [.insert (.ofList [("states", [0, 1]), ("terminals", [0, 1])]), .update [2] [Binary32.belowOne]]
    (by decide +kernel) (by decide : ∀ draw ∈ [0, Binary32.belowOne], 0 ≤ draw ∧ draw < 1)
  refine ⟨batch, sampled, drawn.length_weights, fun slot mem => ?_⟩
  exact Nat.lt_of_lt_of_eq (drawn.indices slot mem).1 (by decide +kernel)

theorem Sound.ask_eq_of_failed (sound : buffer.Sound layout named) {request : Request}
    (failed : (buffer.ask request).1.isOk = false) : (buffer.ask request).2 = buffer := by
  rcases sound.ask request with ⟨answer, next, answered, _⟩ | ⟨error, refused⟩
  · rw [answered] at failed
    cases failed
  · rw [refused]

/-- A call that fails leaves the buffer as it was, so that calls that failed can be left out of a
run: all others are answered as before, and the run ends in the same state. -/
theorem failed_calls_change_nothing {config : Config} (word : config.capacity < 2 ^ 64)
    (one_pow : Power.pow 1 config.alpha = 1) {start : Buffer} (built : build config = .ok start)
    (requests : List Request) :
    (∀ request abort, ((start.after requests).ask request).1 = .error abort →
      ((start.after requests).ask request).2 = start.after requests) ∧
    ∀ kept, Thinned (start.transcript requests) kept →
      start.transcript (kept.map Exchange.request) = kept ∧
        start.after (kept.map Exchange.request) = start.after requests := by
  obtain ⟨layout, _, sound⟩ := exists_sound_of_build word one_pow built
  refine ⟨fun request abort failed => ?_, fun kept thinned =>
    (sound.refusesCleanly requests).transcript_of_thinned thinned⟩
  apply (sound.after requests).ask_eq_of_failed
  rw [failed]
  rfl

omit [Power] in
/-- New priorities of which the second is for no slot are as if they had not been reported. -/
theorem failed_calls_change_nothing_out_of_range :
    letI := Power.linear
    ∃ start, build (.linear 3) = .ok start ∧
      let filling := Request.insert (.ofList [("states", [0, 1]), ("terminals", [0, 1])])
      let wrong := Request.update [0, 3] [Binary32.belowOne, 1]
      ((start.after [filling]).ask wrong).1 = .error (.refused (.indexOutOfRange 3 3)) ∧
        ((start.after [filling]).ask wrong).2 = start.after [filling] ∧
        start.after [filling, wrong, .sample 2] = start.after [filling, .sample 2] := by
  let _ := Power.linear
  have built : build (.linear 3) = .ok _ := rfl
  refine ⟨_, built, ?_⟩
  intro filling wrong
  have refused := failed_calls_change_nothing (by decide) rfl built [filling]
  have thinned := failed_calls_change_nothing (by decide) rfl built [filling, wrong, .sample 2]
  refine ⟨by decide +kernel, ?_, ?_⟩
  · exact refused.1 wrong (.refused (.indexOutOfRange 3 3)) (by decide +kernel)
  · exact (thinned.2 _ (.keep (.drop (by decide +kernel) (.keep .nil)))).2.symm

end Buffer

end ExperienceReplay
