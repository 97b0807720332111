import ExperienceReplay.Proofs.Buffer.Coupling

/-!
What a request does to the leaves. The slots that a batch went to get the weight of new records, the
slots that were rescored get the weight of their last priority, and all other leaves stay.
-/

namespace ExperienceReplay

def Request.scores : Request → List (Nat × Binary32)
  | .update indices priorities => indices.zip priorities
  | .insert _ | .sample _ | .draw _ | .length => []

def Exchange.scores (exchange : Exchange) : List (Nat × Binary32) :=
  match exchange.answer with
  | .ok _ => exchange.request.scores
  | .error _ => []

theorem Exchange.scores_eq_nil {exchange : Exchange} (none : exchange.request.scores = []) :
    exchange.scores = [] := by
  unfold Exchange.scores
  split
  · exact none
  · rfl

namespace Buffer

variable [Power] {buffer : Buffer} {layout : RecordRing.Layout} {named : List Nat}

def exchange (buffer : Buffer) (request : Request) : Exchange := ⟨request, (buffer.ask request).1⟩

omit [Power] in
def written (buffer : Buffer) : Request → List Nat
  | .insert batch =>
    match buffer.ring.insert batch with
    | .ok (slots, _) => slots
    | .error _ => []
  | .sample _ | .draw _ | .update _ _ | .length => []

def given (buffer : Buffer) (request : Request) : List (Nat × Binary32) :=
  (buffer.written request).map (·, buffer.seedWeight) ++
    (buffer.exchange request).scores.map fun score => (score.1, Power.pow score.2 buffer.alpha)

theorem given_of_scores_eq_nil {request : Request} (noScores : request.scores = []) :
    buffer.given request = (buffer.written request).map (·, buffer.seedWeight) := by
  have none : (buffer.exchange request).scores = [] := Exchange.scores_eq_nil noScores
  rw [given, none, List.map_nil, List.append_nil]

theorem given_insert {batch : Records} {slots : List Nat} {ring : RecordRing}
    (inserted : buffer.ring.insert batch = .ok (slots, ring)) :
    buffer.given (.insert batch) = slots.map (·, buffer.seedWeight) := by
  rw [given_of_scores_eq_nil rfl, written, inserted]

theorem given_of_failed {request : Request} (notWritten : buffer.written request = [])
    (failed : (buffer.ask request).1.isOk = false) : buffer.given request = [] := by
  unfold given exchange Exchange.scores
  cases answered : (buffer.ask request).1 with
  | ok answer =>
    rw [answered] at failed
    cases failed
  | error abort => rw [notWritten]; rfl

/-- Both trees, and no other state that weights depend on, change by the weights given. -/
structure Reweighed (buffer next : Buffer) (entries : List (Nat × Binary32)) : Prop where
  sums : next.sums = buffer.sums.writeAll entries
  mins : next.mins = buffer.mins.writeAll entries
  alpha : next.alpha = buffer.alpha

omit [Power] in
theorem Reweighed.weighs {next : Buffer} {entries : List (Nat × Binary32)}
    (reweighed : buffer.Reweighed next entries)
    (inside : ∀ entry ∈ entries, entry.1 < buffer.sums.size ∧ entry.1 < buffer.mins.size)
    {slot : Nat} {weight : Binary32} (last : lastFor? entries slot = some weight) :
    next.Weighs slot weight := by
  rw [Weighs, reweighed.sums, reweighed.mins]
  exact ⟨SegmentTree.leaf_writeAll_of_last (fun entry mem => (inside entry mem).1) last,
    SegmentTree.leaf_writeAll_of_last (fun entry mem => (inside entry mem).2) last⟩

omit [Power] in
theorem Reweighed.leaf_eq {next : Buffer} {entries : List (Nat × Binary32)}
    (reweighed : buffer.Reweighed next entries)
    (inside : ∀ entry ∈ entries, entry.1 < buffer.sums.size ∧ entry.1 < buffer.mins.size)
    {slot : Nat} (fresh : lastFor? entries slot = none) :
    next.sums.leaf slot = buffer.sums.leaf slot ∧ next.mins.leaf slot = buffer.mins.leaf slot := by
  rw [reweighed.sums, reweighed.mins]
  exact ⟨SegmentTree.leaf_writeAll_of_fresh (fun entry mem => (inside entry mem).1) fresh,
    SegmentTree.leaf_writeAll_of_fresh (fun entry mem => (inside entry mem).2) fresh⟩

theorem Sound.reweighed_ask (sound : buffer.Sound layout named) (request : Request) :
    buffer.Reweighed (buffer.ask request).2 (buffer.given request) ∧
      ∀ entry ∈ buffer.given request, entry.1 < layout.capacity := by
  have unchanged : buffer.Reweighed buffer [] := ⟨rfl, rfl, rfl⟩
  cases request with
  | insert batch =>
    rcases sound.insert batch with ⟨slots, ring, inserted, below, performed, _⟩ |
      ⟨_, notWritten, refused⟩
    · rw [ask_insert, performed, given_insert inserted]
      refine ⟨⟨rfl, rfl, rfl⟩, fun entry mem => ?_⟩
      obtain ⟨slot, there, rfl⟩ := List.mem_map.1 mem
      exact below slot there
    · rw [given_of_scores_eq_nil rfl, written, notWritten, ask_insert, refused]
      exact ⟨unchanged, by simp⟩
  | sample n =>
    rw [given_of_scores_eq_nil rfl, ask_sample]
    by_cases empty : buffer.size = 0
    · rw [perform_sample_of_empty empty]
      exact ⟨unchanged, by simp [written]⟩
    · obtain ⟨batch, sampled⟩ := sound.perform_sample (Nat.pos_of_ne_zero empty) n
      rw [sampled]
      exact ⟨⟨rfl, rfl, rfl⟩, by simp [written]⟩
  | draw draws =>
    rw [given_of_scores_eq_nil rfl, ask_draw]
    exact ⟨unchanged, by simp [written]⟩
  | update indices priorities =>
    rcases sound.update indices priorities with ⟨performed, next⟩ | ⟨error, refused⟩
    · have given_eq : buffer.given (.update indices priorities) =
          (indices.zip priorities).map fun score =>
            (score.1, Power.pow score.2 buffer.alpha) := by
        unfold given exchange Exchange.scores
        rw [ask_update, performed]
        rfl
      rw [given_eq, ask_update, performed]
      refine ⟨⟨rfl, rfl, rfl⟩, fun entry mem => ?_⟩
      obtain ⟨score, there, rfl⟩ := List.mem_map.1 mem
      exact next.named_lt_capacity _ (List.mem_append_right _ (List.of_mem_zip there).1)
    · rw [given_of_failed rfl (by rw [ask_update, refused]; rfl), ask_update, refused]
      exact ⟨unchanged, by simp⟩
  | length =>
    rw [given_of_scores_eq_nil rfl]
    exact ⟨unchanged, by simp [written]⟩

theorem lastFor?_given (buffer : Buffer) (request : Request) (slot : Nat) :
    lastFor? (buffer.given request) slot =
      ((lastFor? (buffer.exchange request).scores slot).map (Power.pow · buffer.alpha)).or
        (if slot ∈ buffer.written request then some buffer.seedWeight else none) := by
  rw [given, lastFor?_append, lastFor?_const, lastFor?_map (Power.pow · buffer.alpha)]

theorem Sound.given_inside (sound : buffer.Sound layout named) (request : Request) :
    ∀ entry ∈ buffer.given request, entry.1 < buffer.sums.size ∧ entry.1 < buffer.mins.size := by
  intro entry mem
  have := (sound.reweighed_ask request).2 entry mem
  have := sound.capacity_le
  rw [sound.weights.size_eq]
  omega

theorem Sound.weighs_ask_of_given (sound : buffer.Sound layout named) {request : Request}
    {slot : Nat} {weight : Binary32} (last : lastFor? (buffer.given request) slot = some weight) :
    (buffer.ask request).2.Weighs slot weight :=
  (sound.reweighed_ask request).1.weighs (sound.given_inside request) last

theorem Sound.weighs_ask_of_not_given (sound : buffer.Sound layout named) {request : Request}
    {slot : Nat} (none : lastFor? (buffer.given request) slot = none) {weight : Binary32}
    (weighs : buffer.Weighs slot weight) : (buffer.ask request).2.Weighs slot weight := by
  have kept := (sound.reweighed_ask request).1.leaf_eq (sound.given_inside request) none
  exact ⟨kept.1.trans weighs.1, kept.2.trans weighs.2⟩

end Buffer

end ExperienceReplay
