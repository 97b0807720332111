import ExperienceReplay.Proofs.Buffer.Runs

/-!
What the calls of a buffer leave alone. A part of the state that depends on no field which a call
writes is the same after the call, however it ends.
-/

namespace ExperienceReplay.Buffer

variable {τ : Type} {part : Buffer → τ}

theorem keeps_setWeight
    (free : ∀ (buffer : Buffer) sums mins, part { buffer with sums, mins } = part buffer)
    (weight : Binary32) (slot : Nat) : (setWeight weight slot).Keeps part := by
  refine Action.Keeps.bind (Action.keeps_update ?_) fun _ => Action.keeps_update ?_
  · intro buffer answer changed updated
    obtain ⟨sums, _, same⟩ := bind_eq_ok_iff.1 updated
    cases same
    exact free buffer sums buffer.mins
  · intro buffer answer changed updated
    obtain ⟨mins, _, same⟩ := bind_eq_ok_iff.1 updated
    cases same
    exact free buffer buffer.sums mins

theorem keeps_sample [Power]
    (free : ∀ (buffer : Buffer) stream, part { buffer with stream } = part buffer) (n : Nat) :
    (sample n).Keeps part := by
  refine Action.Keeps.bind (Action.keeps_inspect _) fun _ =>
    Action.Keeps.bind (Action.keeps_update ?_) fun _ => Action.keeps_inspect _
  intro buffer answer changed updated
  cases updated
  exact free buffer _

theorem keeps_insert [Power]
    (free : ∀ (buffer : Buffer) ring sums mins,
      part { buffer with ring, sums, mins } = part buffer) (batch : Records) :
    (insert batch).Keeps part := by
  refine Action.Keeps.bind (Action.keeps_update ?_) fun slots => ?_
  · intro buffer answer changed updated
    obtain ⟨⟨slots, ring⟩, _, same⟩ := bind_eq_ok_iff.1 updated
    cases same
    exact free buffer ring buffer.sums buffer.mins
  · refine Action.Keeps.bind (fun _ => rfl) fun _ => Action.Keeps.forM (keeps_setWeight ?_ _) slots
    exact fun buffer => free buffer buffer.ring

theorem keeps_update [Power]
    (free : ∀ (buffer : Buffer) sums mins maxPriority,
      part { buffer with sums, mins, maxPriority } = part buffer)
    (counted : ∀ buffer : Buffer,
      part { buffer with annealing := buffer.annealing.countUpdate } = part buffer)
    (indices : List Nat) (priorities : List Binary32) :
    (update indices priorities).Keeps part := by
  have rescore (score : Nat × Binary32) : (rescore score).Keeps part :=
    Action.Keeps.bind (fun _ => rfl) fun _ =>
      (keeps_setWeight (fun buffer sums mins => free buffer sums mins buffer.maxPriority) _ _).bind
        fun _ buffer => free buffer buffer.sums buffer.mins _
  have rescored : (do
      Action.inspect fun buffer =>
        refusing ((indices.zip priorities).forM buffer.checkScore)
      (indices.zip priorities).forM Buffer.rescore
      modify fun buffer => { buffer with annealing := buffer.annealing.countUpdate } :
      Action Buffer Unit).Keeps part :=
    Action.Keeps.bind (Action.keeps_inspect _) fun _ =>
      (Action.Keeps.forM rescore _).bind fun _ buffer => counted buffer
  unfold update
  split
  · exact Action.Keeps.bind (fun _ => rfl) fun _ => rescored
  · exact rescored

theorem part_ask [Power] (part : Buffer → τ)
    (free : ∀ (buffer : Buffer) ring sums mins maxPriority stream,
      part { buffer with ring, sums, mins, maxPriority, stream } = part buffer)
    (counted : ∀ buffer : Buffer,
      part { buffer with annealing := buffer.annealing.countUpdate } = part buffer)
    (buffer : Buffer) (request : Request) : part (buffer.ask request).2 = part buffer := by
  cases request with
  | insert batch =>
    rw [ask_insert]
    exact keeps_insert (fun buffer ring sums mins =>
      free buffer ring sums mins buffer.maxPriority buffer.stream) batch buffer
  | sample n =>
    rw [ask_sample]
    exact keeps_sample (fun buffer =>
      free buffer buffer.ring buffer.sums buffer.mins buffer.maxPriority) n buffer
  | draw draws => rw [ask_draw]
  | update indices priorities =>
    rw [ask_update]
    exact keeps_update (fun buffer sums mins maxPriority =>
      free buffer buffer.ring sums mins maxPriority buffer.stream) counted indices priorities buffer
  | length => rfl

theorem part_after [Power] (part : Buffer → τ)
    (free : ∀ (buffer : Buffer) ring sums mins maxPriority stream,
      part { buffer with ring, sums, mins, maxPriority, stream } = part buffer)
    (counted : ∀ buffer : Buffer,
      part { buffer with annealing := buffer.annealing.countUpdate } = part buffer)
    (buffer : Buffer) (requests : List Request) : part (buffer.after requests) = part buffer := by
  induction requests generalizing buffer with
  | nil => rfl
  | cons request rest ih => exact (ih _).trans (part_ask part free counted buffer request)

theorem alpha_after [Power] (buffer : Buffer) (requests : List Request) :
    (buffer.after requests).alpha = buffer.alpha :=
  part_after alpha (fun _ _ _ _ _ _ => rfl) (fun _ => rfl) buffer requests

end ExperienceReplay.Buffer
