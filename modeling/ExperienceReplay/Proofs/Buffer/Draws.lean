import ExperienceReplay.Proofs.Buffer.Parts
import ExperienceReplay.Proofs.RecordRing.Batches

/-!
What a buffer takes from its stream of draws. Main statement: the draws taken in a run are the first
ones of the seed's stream, only a batch that was drawn takes any, and records drawn in two batches
are those drawn in one.
-/

namespace ExperienceReplay

theorem RandomStream.take_add (stream : RandomStream) (m n : Nat) :
    stream.take (m + n) =
      ((stream.take m).1 ++ ((stream.take m).2.take n).1, ((stream.take m).2.take n).2) := by
  simp [take, List.range_add, Function.comp_def, Nat.add_assoc]

instance : Append SampledBatch where
  append first second :=
    ⟨first.records ++ second.records, first.indices ++ second.indices,
      first.weights ++ second.weights⟩

namespace Buffer

variable [Power] {buffer : Buffer} {layout : RecordRing.Layout} {named : List Nat}

theorem Sound.sampleWith_append (sound : buffer.Sound layout named) (positive : 0 < buffer.size)
    {draws others : List Binary32} (shares : ∀ draw ∈ draws, 0 ≤ draw ∧ draw < 1)
    (shares' : ∀ draw ∈ others, 0 ≤ draw ∧ draw < 1) :
    ∃ first second, buffer.sampleWith draws = .ok first ∧ buffer.sampleWith others = .ok second ∧
      buffer.sampleWith (draws ++ others) = .ok (first ++ second) := by
  obtain ⟨first, sampled, drawn⟩ := sound.exists_sampleWith positive shares
  obtain ⟨second, sampled', drawn'⟩ := sound.exists_sampleWith positive shares'
  refine ⟨first, second, sampled, sampled', ?_⟩
  obtain ⟨mass, massed, _, selected, weighed, shown⟩ := sampleWith_eq_ok_iff.1 sampled
  obtain ⟨mass', massed', _, selected', weighed', shown'⟩ := sampleWith_eq_ok_iff.1 sampled'
  obtain rfl : mass' = mass := Except.ok.inj (massed'.symm.trans massed)
  obtain ⟨history, holds⟩ := sound.ring
  obtain ⟨records, more, read, read', both⟩ := holds.read_append
    (fun slot mem => Nat.lt_of_lt_of_le (drawn.indices slot mem).1 sound.size_le)
    (fun slot mem => Nat.lt_of_lt_of_le (drawn'.indices slot mem).1 sound.size_le)
  obtain rfl : records = first.records := Except.ok.inj (read.symm.trans shown)
  obtain rfl : more = second.records := Except.ok.inj (read'.symm.trans shown')
  refine sampleWith_eq_ok_iff.2
    ⟨mass', massed, List.forall_mem_append.2 ⟨shares, shares'⟩, ?_, ?_, both⟩
  · rw [List.mapM_append, selected, selected']
    rfl
  · change (first.indices ++ second.indices).mapM _ = _
    rw [List.mapM_append, weighed, weighed']
    rfl

theorem ask_sample_of_sampled {n : Nat} {batch : SampledBatch}
    (sampled : buffer.sampleWith (buffer.stream.take n).1 = .ok batch) :
    buffer.ask (.sample n) =
      (.ok (.silent (.batch batch)), { buffer with stream := (buffer.stream.take n).2 }) := by
  rw [ask_sample, perform_sample_of_sampled sampled]
  rfl

theorem Sound.ask_sample_add (sound : buffer.Sound layout named) (positive : 0 < buffer.size)
    (m n : Nat) :
    ∃ first second,
      (buffer.ask (.sample m)).1 = .ok (.silent (.batch first)) ∧
      (buffer.ask (.sample m)).2.ask (.sample n) =
        (.ok (.silent (.batch second)), (buffer.ask (.sample (m + n))).2) ∧
      (buffer.ask (.sample (m + n))).1 = .ok (.silent (.batch (first ++ second))) := by
  obtain ⟨first, second, sampled, sampled', both⟩ := sound.sampleWith_append positive
    (share_of_mem_take buffer.stream m) (share_of_mem_take (buffer.stream.take m).2 n)
  have together := RandomStream.take_add buffer.stream m n
  have asked := ask_sample_of_sampled (n := m + n) (by rw [together]; exact both)
  let next : Buffer := { buffer with stream := (buffer.stream.take m).2 }
  have sampled' : next.sampleWith (next.stream.take n).1 = .ok second := sampled'
  have asked' := ask_sample_of_sampled sampled'
  rw [together] at asked
  rw [ask_sample_of_sampled sampled]
  exact ⟨first, second, rfl, by rw [asked', asked], by rw [asked]⟩

theorem stream_ask_of_ne_sample {request : Request} (other : ∀ n, request ≠ .sample n) :
    (buffer.ask request).2.stream = buffer.stream := by
  cases request with
  | insert batch =>
    rw [ask_insert]
    have kept : (insert batch).Keeps stream := keeps_insert (fun _ _ _ _ => rfl) batch
    exact kept buffer
  | sample n => exact absurd rfl (other n)
  | draw draws => rw [ask_draw]
  | update indices priorities =>
    rw [ask_update]
    have kept : (update indices priorities).Keeps stream :=
      keeps_update (fun _ _ _ _ => rfl) (fun _ => rfl) indices priorities
    exact kept buffer
  | length => rfl

theorem exists_stream_ask (buffer : Buffer) (request : Request) :
    ∃ n, (buffer.ask request).2.stream = (buffer.stream.take n).2 := by
  by_cases other : ∀ n, request ≠ .sample n
  · exact ⟨0, stream_ask_of_ne_sample other⟩
  · obtain ⟨n, rfl⟩ : ∃ n, request = .sample n := by simpa using other
    rw [ask_sample]
    unfold sample takeDraws
    rw [Action.perform_bind, Action.perform_inspect]
    -- the mass is looked at before anything is drawn
    cases buffer.totalMass with
    | error abort => exact ⟨0, rfl⟩
    | ok mass =>
      refine ⟨n, ?_⟩
      simp only
      rw [Action.perform_bind, Action.perform_update]
      simp only
      rw [Action.perform_inspect]

def drawsOf (buffer : Buffer) (request : Request) : List Binary32 :=
  (buffer.stream.take ((buffer.ask request).2.stream.position - buffer.stream.position)).1

def drawsTaken (buffer : Buffer) : List Request → List Binary32
  | [] => []
  | request :: rest => buffer.drawsOf request ++ (buffer.ask request).2.drawsTaken rest

theorem drawsOf_eq_of_stream_ask {request : Request} {n : Nat}
    (taken : (buffer.ask request).2.stream = (buffer.stream.take n).2) :
    buffer.drawsOf request = (buffer.stream.take n).1 := by
  unfold drawsOf
  rw [taken]
  change (buffer.stream.take (buffer.stream.position + n - buffer.stream.position)).1 = _
  rw [Nat.add_sub_cancel_left]

theorem exists_take_eq (buffer : Buffer) (requests : List Request) :
    ∃ n, buffer.stream.take n = (buffer.drawsTaken requests, (buffer.after requests).stream) := by
  induction requests generalizing buffer with
  | nil => exact ⟨0, rfl⟩
  | cons request rest ih =>
    obtain ⟨n, taken⟩ := exists_stream_ask buffer request
    obtain ⟨m, others⟩ := ih (buffer.ask request).2
    refine ⟨n + m, ?_⟩
    rw [RandomStream.take_add, ← taken, others, ← drawsOf_eq_of_stream_ask taken]
    rfl

theorem drawsTaken_of_build {config : Config} {start : Buffer} (built : build config = .ok start)
    (requests : List Request) :
    let key := keyOfSeed config.seed
    let taken := start.drawsTaken requests
    (start.after requests).stream = ⟨key, taken.length⟩ ∧
      ∀ k < taken.length, taken[k]? = some (RandomStream.draw key k) := by
  have seeded : start.stream = ⟨keyOfSeed config.seed, 0⟩ := by
    obtain ⟨ring, _, rfl⟩ := exists_ring_of_build built
    rfl
  obtain ⟨n, taken⟩ := start.exists_take_eq requests
  rw [seeded] at taken
  obtain ⟨draws, stream⟩ := Prod.mk.inj taken
  rw [← draws, ← stream]
  refine ⟨by simp, fun k below => ?_⟩
  rw [List.length_map, List.length_range] at below
  rw [List.getElem?_map, List.getElem?_range below, Option.map_some, Nat.zero_add]

/-- Which draws a run takes. They are the first ones of the stream of its seed, whatever is asked;
only sampling that succeeds takes any, as many as it selects records; and records drawn in two
batches are those drawn in one. -/
theorem draws_after_build {config : Config} (word : config.capacity < 2 ^ 64)
    (one_pow : Power.pow 1 config.alpha = 1) {start : Buffer} (built : build config = .ok start)
    (requests : List Request) :
    let key := keyOfSeed config.seed
    let buffer := start.after requests
    let taken := start.drawsTaken requests
    (∀ k < taken.length, taken[k]? = some (RandomStream.draw key k)) ∧
    buffer.stream = ⟨key, taken.length⟩ ∧
    (∀ request, (∀ n, request ≠ .sample n) ∨ (buffer.ask request).1.isOk = false →
      buffer.drawsOf request = [] ∧ (buffer.ask request).2.stream = buffer.stream) ∧
    (0 < buffer.size → ∀ n, ∃ batch,
      let draws := (List.range n).map fun i => RandomStream.draw key (taken.length + i)
      buffer.drawsOf (.sample n) = draws ∧ buffer.sampleWith draws = .ok batch ∧
      buffer.ask (.sample n) =
        (.ok (.silent (.batch batch)), { buffer with stream := ⟨key, taken.length + n⟩ })) ∧
    (0 < buffer.size → ∀ m n, ∃ first second,
      (buffer.ask (.sample m)).1 = .ok (.silent (.batch first)) ∧
      (buffer.ask (.sample m)).2.ask (.sample n) =
        (.ok (.silent (.batch second)), (buffer.ask (.sample (m + n))).2) ∧
      (buffer.ask (.sample (m + n))).1 = .ok (.silent (.batch (first ++ second)))) := by
  obtain ⟨layout, _, sound⟩ := exists_sound_of_build word one_pow built
  have sound := sound.after requests
  obtain ⟨here, first⟩ := drawsTaken_of_build built requests
  intro key buffer taken
  refine ⟨first, here, fun request none => ?_, fun positive n => ?_, sound.ask_sample_add⟩
  · have same : (buffer.ask request).2.stream = (buffer.stream.take 0).2 := by
      rcases none with other | failed
      · exact stream_ask_of_ne_sample other
      · rw [sound.ask_eq_of_failed failed]
        rfl
    exact ⟨drawsOf_eq_of_stream_ask same, same⟩
  · obtain ⟨batch, sampled, _⟩ :=
      sound.exists_sampleWith positive (share_of_mem_take buffer.stream n)
    have asked := ask_sample_of_sampled sampled
    have drawn := drawsOf_eq_of_stream_ask (congrArg (fun result => result.2.stream) asked)
    rw [show buffer.stream = _ from here] at drawn sampled asked
    exact ⟨batch, drawn, sampled, asked⟩

omit [Power] in
/-- After a batch of one record the next two are drawn with the second draw and the third. Sampling
the empty buffer took none. -/
theorem draws_after_build_one_taken :
    letI := Power.linear
    ∃ start, build (.linear 3) = .ok start ∧
      let buffer := start.after [.sample 4,
        .insert (.ofList [("states", [0, 1]), ("terminals", [0, 1])]), .sample 1]
      let key := keyOfSeed (Config.linear 3).seed
      buffer.stream = ⟨key, 1⟩ ∧ ∃ batch,
        buffer.sampleWith [RandomStream.draw key 1, RandomStream.draw key 2] = .ok batch ∧
        buffer.ask (.sample 2) =
          (.ok (.silent (.batch batch)), { buffer with stream := ⟨key, 3⟩ }) := by
  let _ := Power.linear
  have built : build (.linear 3) = .ok _ := rfl
  refine ⟨_, built, ?_⟩
  intro buffer key
  obtain ⟨_, stream, _, sampled, _⟩ := draws_after_build (by decide) rfl built [.sample 4,
    .insert (.ofList [("states", [0, 1]), ("terminals", [0, 1])]), .sample 1]
  have one : List.length _ = 1 :=
    (congrArg RandomStream.position stream).symm.trans (by decide +kernel)
  obtain ⟨batch, _, sampled, asked⟩ := sampled (by decide +kernel) 2
  rw [one] at stream sampled asked
  exact ⟨stream, batch, sampled, asked⟩

end Buffer

end ExperienceReplay
