import ExperienceReplay.Proofs.Buffer.Leaves
import ExperienceReplay.Proofs.Buffer.Parts

/-!
Records between their insertion and their first rescoring. A slot number does not tell which record
it was drawn for: once the ring has come round, the priority of an overwritten record goes to the
new one. Main statement: records keep the weight they were inserted with until a batch shows them,
exactly if priorities that come too late for their record weigh as much.
-/

namespace ExperienceReplay

namespace Exchange

def batch? (exchange : Exchange) : Option SampledBatch :=
  match exchange.answer with
  | .ok ⟨.batch batch, _⟩ => some batch
  | _ => none

def drawn? (exchange : Exchange) : Option (List Nat) := exchange.batch?.map SampledBatch.indices

def drawn (exchange : Exchange) : List Nat := exchange.drawn?.getD []

end Exchange

/-- A record in its slot: what was asked before it was inserted, the batch that it came with, and
what was asked since. -/
structure Stay where
  before : List Request
  batch : Records
  since : List Request
  slot : Nat

namespace Buffer

variable [Power]

def writtenSlots (buffer : Buffer) : List Request → List Nat
  | [] => []
  | request :: rest => buffer.written request ++ (buffer.ask request).2.writtenSlots rest

def drawnSlots (buffer : Buffer) (requests : List Request) : List Nat :=
  (buffer.transcript requests).flatMap Exchange.drawn

end Buffer

namespace Stay

variable [Power]

def requests (stay : Stay) : List Request := stay.before ++ .insert stay.batch :: stay.since

def extend (stay : Stay) (request : Request) : Stay :=
  { stay with since := stay.since ++ [request] }

def inserted (stay : Stay) (start : Buffer) : Buffer :=
  ((start.after stay.before).ask (.insert stay.batch)).2

structure In (stay : Stay) (start : Buffer) : Prop where
  written : stay.slot ∈ (start.after stay.before).written (.insert stay.batch)
  kept : stay.slot ∉ (stay.inserted start).writtenSlots stay.since

def Drawn (stay : Stay) (start : Buffer) : Prop :=
  stay.slot ∈ (stay.inserted start).drawnSlots stay.since

def seed (stay : Stay) (start : Buffer) : Binary32 :=
  Power.pow (start.after stay.before).maxPriority start.alpha

end Stay

namespace Buffer

variable [Power] {start : Buffer} {layout : RecordRing.Layout} {named : List Nat}

/-- All along a run, an update changes the weight of a record only if a batch showed it before, and
until then the record has the weight that it was inserted with. -/
structure DrawnBeforeRescored (start : Buffer) (run : List Request) : Prop where
  drawn : ∀ (stay : Stay) (indices : List Nat) (priorities : List Binary32), stay.In start →
    stay.requests ++ [.update indices priorities] <+: run →
    let now := start.after stay.requests
    let next := (now.ask (.update indices priorities)).2
    (next.sums.leaf stay.slot ≠ now.sums.leaf stay.slot ∨
      next.mins.leaf stay.slot ≠ now.mins.leaf stay.slot) → stay.Drawn start
  seed : ∀ stay : Stay, stay.In start → stay.requests <+: run → ¬stay.Drawn start →
    (start.after stay.requests).Weighs stay.slot (stay.seed start)

/-- All along a run, the last of the priorities that an update gives to a record that no batch has
shown weighs as much as the record did when it was inserted. -/
def UndrawnKeepSeed (start : Buffer) (run : List Request) : Prop :=
  ∀ (stay : Stay) (request : Request) (priority : Binary32), stay.In start → ¬stay.Drawn start →
    stay.requests ++ [request] <+: run →
    lastFor? ((start.after stay.requests).exchange request).scores stay.slot = some priority →
    Power.pow priority start.alpha = stay.seed start

theorem writtenSlots_append (buffer : Buffer) (requests others : List Request) :
    buffer.writtenSlots (requests ++ others) =
      buffer.writtenSlots requests ++ (buffer.after requests).writtenSlots others := by
  induction requests generalizing buffer with
  | nil => rfl
  | cons request rest ih =>
    rw [List.cons_append, writtenSlots, ih, writtenSlots, List.append_assoc]
    rfl

theorem drawnSlots_append (buffer : Buffer) (requests others : List Request) :
    buffer.drawnSlots (requests ++ others) =
      buffer.drawnSlots requests ++ (buffer.after requests).drawnSlots others := by
  rw [drawnSlots, transcript_append, List.flatMap_append]
  rfl

theorem drawn?_exchange_of_done {buffer : Buffer} {request : Request} {answer : Except Abort Unit}
    (done : (buffer.ask request).1 = answer.map fun _ => .silent .done) :
    (buffer.exchange request).drawn? = none := by
  unfold exchange Exchange.drawn? Exchange.batch?
  rw [done]
  cases answer <;> rfl

theorem drawn?_exchange_insert (buffer : Buffer) (batch : Records) :
    (buffer.exchange (.insert batch)).drawn? = none :=
  drawn?_exchange_of_done (congrArg Prod.fst (ask_insert batch))

theorem drawn?_exchange_update (buffer : Buffer) (indices : List Nat)
    (priorities : List Binary32) : (buffer.exchange (.update indices priorities)).drawn? = none :=
  drawn?_exchange_of_done (congrArg Prod.fst (ask_update indices priorities))

theorem exists_eq_update_of_score {buffer : Buffer} {request : Request} {slot : Nat}
    {priority : Binary32}
    (last : lastFor? (buffer.exchange request).scores slot = some priority) :
    ∃ indices priorities, request = .update indices priorities := by
  cases request with
  | update indices priorities => exact ⟨indices, priorities, rfl⟩
  | _ =>
    unfold exchange Exchange.scores at last
    split at last <;> cases last

end Buffer

namespace Stay

variable [Power] {start : Buffer} {stay : Stay}

omit [Power] in
theorem requests_extend (stay : Stay) (request : Request) :
    (stay.extend request).requests = stay.requests ++ [request] := by
  simp [requests, extend]

theorem after_requests (stay : Stay) (start : Buffer) :
    start.after stay.requests = (stay.inserted start).after stay.since := by
  rw [requests, Buffer.after_append]
  rfl

theorem in_extend_iff (stay : Stay) {request : Request} : (stay.extend request).In start ↔
    stay.In start ∧ stay.slot ∉ (start.after stay.requests).written request := by
  have split : (stay.inserted start).writtenSlots (stay.since ++ [request]) =
      (stay.inserted start).writtenSlots stay.since ++
        (start.after stay.requests).written request := by
    rw [Buffer.writtenSlots_append, after_requests, Buffer.writtenSlots, Buffer.writtenSlots,
      List.append_nil]
  constructor
  · rintro ⟨written, kept⟩
    change stay.slot ∉ (stay.inserted start).writtenSlots (stay.since ++ [request]) at kept
    rw [split, List.mem_append, not_or] at kept
    exact ⟨⟨written, kept.1⟩, kept.2⟩
  · rintro ⟨⟨written, kept⟩, notWritten⟩
    refine ⟨written, ?_⟩
    change stay.slot ∉ (stay.inserted start).writtenSlots (stay.since ++ [request])
    rw [split, List.mem_append, not_or]
    exact ⟨kept, notWritten⟩

theorem drawn_extend_iff (stay : Stay) {request : Request} : (stay.extend request).Drawn start ↔
    stay.Drawn start ∨ stay.slot ∈ ((start.after stay.requests).exchange request).drawn := by
  unfold Drawn
  change stay.slot ∈ (stay.inserted start).drawnSlots (stay.since ++ [request]) ↔ _
  rw [Buffer.drawnSlots_append, List.mem_append, after_requests, Buffer.drawnSlots.eq_def _ [_],
    Buffer.transcript, Buffer.transcript, List.flatMap_singleton]
  rfl

theorem In.extend_update (isIn : stay.In start) (indices : List Nat)
    (priorities : List Binary32) : (stay.extend (.update indices priorities)).In start :=
  stay.in_extend_iff.2 ⟨isIn, List.not_mem_nil⟩

theorem not_drawn_extend_update (undrawn : ¬stay.Drawn start) (indices : List Nat)
    (priorities : List Binary32) : ¬(stay.extend (.update indices priorities)).Drawn start := by
  rw [drawn_extend_iff, Exchange.drawn, Buffer.drawn?_exchange_update]
  exact not_or_intro undrawn List.not_mem_nil

end Stay

namespace Buffer

variable [Power] {start : Buffer} {layout : RecordRing.Layout} {named : List Nat}

theorem Sound.weighs_inserted (sound : start.Sound layout named) {stay : Stay}
    (isIn : stay.In start) : (stay.inserted start).Weighs stay.slot (stay.seed start) := by
  apply (sound.after stay.before).weighs_ask_of_given
  rw [given_of_scores_eq_nil rfl, lastFor?_const, if_pos isIn.written, seedWeight,
    alpha_after]
  rfl

theorem after_requests_extend (start : Buffer) (stay : Stay) (request : Request) :
    start.after (stay.extend request).requests =
      ((start.after stay.requests).ask request).2 := by
  rw [Stay.requests_extend, after_append]
  rfl

theorem Sound.weighs_seed (sound : start.Sound layout named) {run : List Request}
    (keep : start.UndrawnKeepSeed run) {stay : Stay} (isIn : stay.In start)
    (along : stay.requests <+: run) (undrawn : ¬stay.Drawn start) :
    (start.after stay.requests).Weighs stay.slot (stay.seed start) := by
  obtain ⟨before, batch, since, slot⟩ := stay
  -- on what was asked since: the last request gives the slot the seed weight, or none
  induction since using List.reverseRecOn with
  | nil =>
    rw [Stay.after_requests]
    exact sound.weighs_inserted isIn
  | append_singleton since request ih =>
    let earlier : Stay := ⟨before, batch, since, slot⟩
    obtain ⟨isIn, notWritten⟩ := earlier.in_extend_iff.1 isIn
    obtain ⟨undrawn, _⟩ := not_or.1 (earlier.drawn_extend_iff.not.1 undrawn)
    have along : earlier.requests ++ [request] <+: run := earlier.requests_extend request ▸ along
    have weighs := ih isIn ((List.prefix_append _ _).trans along) undrawn
    have soundNow := sound.after earlier.requests
    change (start.after (earlier.extend request).requests).Weighs slot (earlier.seed start)
    rw [after_requests_extend]
    cases last : lastFor? ((start.after earlier.requests).exchange request).scores slot with
    | none =>
      refine soundNow.weighs_ask_of_not_given ?_ weighs
      rw [lastFor?_given, last, if_neg notWritten]
      rfl
    | some priority =>
      have same := keep earlier request priority isIn undrawn along last
      apply soundNow.weighs_ask_of_given
      rw [lastFor?_given, last, Option.map_some, Option.some_or, alpha_after, same]

theorem Sound.drawnBeforeRescored_iff (sound : start.Sound layout named) (run : List Request) :
    start.DrawnBeforeRescored run ↔ start.UndrawnKeepSeed run := by
  constructor
  · intro drawn stay request priority isIn undrawn along last
    obtain ⟨indices, priorities, rfl⟩ := exists_eq_update_of_score last
    have kept := drawn.seed (stay.extend (.update indices priorities))
      (isIn.extend_update indices priorities) (stay.requests_extend _ ▸ along)
      (Stay.not_drawn_extend_update undrawn indices priorities)
    rw [after_requests_extend] at kept
    have given : lastFor? ((start.after stay.requests).given (.update indices priorities))
        stay.slot = some (Power.pow priority start.alpha) := by
      rw [lastFor?_given, last, Option.map_some, Option.some_or, alpha_after]
    have weighs := (sound.after stay.requests).weighs_ask_of_given given
    exact Except.ok.inj (weighs.1.symm.trans kept.1)
  · intro keep
    refine ⟨fun stay indices priorities isIn along changed => ?_, fun stay => sound.weighs_seed keep⟩
    by_contra undrawn
    have weighs := sound.weighs_seed keep isIn ((List.prefix_append _ _).trans along) undrawn
    have kept := sound.weighs_seed keep (isIn.extend_update indices priorities)
      (stay.requests_extend _ ▸ along) (Stay.not_drawn_extend_update undrawn indices priorities)
    rw [after_requests_extend] at kept
    rcases changed with inSums | inMins
    · exact inSums (kept.1.trans weighs.1.symm)
    · exact inMins (kept.2.trans weighs.2.symm)

def ReportsBatches (start : Buffer) (run : List Request) : Prop :=
  ∀ (before : List Request) (indices : List Nat) (priorities : List Binary32),
    before ++ [.update indices priorities] <+: run →
    ∃ exchange ∈ start.transcript before, exchange.drawn? = some indices

/-- Each update reports on a batch drawn before, and none of the slots of the batch were written
since it was drawn. -/
def ReportsPromptly (start : Buffer) (run : List Request) : Prop :=
  ∀ (before : List Request) (indices : List Nat) (priorities : List Binary32),
    before ++ [.update indices priorities] <+: run →
    ∃ earlier request rest, before = earlier ++ request :: rest ∧
      ((start.after earlier).exchange request).drawn? = some indices ∧
      ∀ slot ∈ indices, slot ∉ ((start.after earlier).ask request).2.writtenSlots rest

theorem mem_of_score {buffer : Buffer} {indices : List Nat} {priorities : List Binary32}
    {slot : Nat} {priority : Binary32}
    (last : lastFor? (buffer.exchange (.update indices priorities)).scores slot = some priority) :
    slot ∈ indices := by
  have mem := mem_of_lastFor? last
  unfold exchange Exchange.scores at mem
  split at mem
  · exact (List.of_mem_zip mem).1
  · cases mem

/-- Priorities that are reported before the ring comes round are for records that were drawn. -/
theorem ReportsPromptly.undrawnKeepSeed {run : List Request} (prompt : start.ReportsPromptly run) :
    start.UndrawnKeepSeed run := by
  intro stay request priority isIn undrawn along last
  exfalso
  obtain ⟨indices, priorities, rfl⟩ := exists_eq_update_of_score last
  obtain ⟨earlier, request, rest, split, drawn, notWritten⟩ := prompt _ _ _ along
  have mem := mem_of_score last
  have notInsert : request ≠ .insert stay.batch := by
    rintro rfl
    rw [drawn?_exchange_insert] at drawn
    cases drawn
  rcases List.append_eq_append_iff.1 split with ⟨between, rfl, tail⟩ | ⟨between, before_eq, tail⟩
  · obtain ⟨_, same⟩ | ⟨between, rfl, since_eq⟩ := List.cons_eq_append_iff.1 tail
    · exact notInsert (List.cons.inj same).1
    -- the batch was drawn while the record was there, so it shows the record
    apply undrawn
    have drawnThere :
        stay.slot ∈ (((stay.inserted start).after between).exchange request).drawn := by
      rw [after_append] at drawn
      rw [Exchange.drawn]
      exact drawn.symm ▸ mem
    unfold Stay.Drawn
    rw [since_eq, drawnSlots_append, drawnSlots.eq_def _ (_ :: _), transcript, List.flatMap_cons]
    exact List.mem_append_right _ (List.mem_append_left _ drawnThere)
  · obtain ⟨_, same⟩ | ⟨between, rfl, rest_eq⟩ := List.cons_eq_append_iff.1 tail
    · exact notInsert (List.cons.inj same).1.symm
    -- the record came after the batch was drawn, so its slot was written since
    apply notWritten stay.slot mem
    have writtenThere := isIn.written
    rw [before_eq, after_append] at writtenThere
    rw [rest_eq, writtenSlots_append, writtenSlots.eq_def _ (_ :: _)]
    exact List.mem_append_right _ (List.mem_append_left _ writtenThere)

/-- Records keep the weight that they were inserted with until a batch shows them, exactly if no
priority that weighs otherwise comes too late for the record it was meant for. -/
theorem drawnBeforeRescored_after_build_iff {config : Config} (word : config.capacity < 2 ^ 64)
    (one_pow : Power.pow 1 config.alpha = 1) {start : Buffer} (built : build config = .ok start)
    (run : List Request) : start.DrawnBeforeRescored run ↔ start.UndrawnKeepSeed run := by
  obtain ⟨layout, _, sound⟩ := exists_sound_of_build word one_pow built
  exact sound.drawnBeforeRescored_iff run

omit [Power] in
/-- The slot of the batch is written again, but only after its priority was reported. -/
theorem drawnBeforeRescored_after_build_iff_prompt :
    letI := Power.linear
    ∃ start, build (.linear 2) = .ok start ∧
      start.DrawnBeforeRescored [.insert (.ofList [("states", [0, 1]), ("terminals", [0, 1])]),
        .sample 1, .update [0] [Binary32.leastNormal],
        .insert (.ofList [("states", [1]), ("terminals", [1])])] := by
  let _ := Power.linear
  have built : build (.linear 2) = .ok _ := rfl
  refine ⟨_, built, (drawnBeforeRescored_after_build_iff (by decide) rfl built _).2 ?_⟩
  apply ReportsPromptly.undrawnKeepSeed
  rintro (_ | ⟨_, _ | ⟨_, _ | ⟨_, _ | ⟨_, rest⟩⟩⟩⟩) indices priorities along
  all_goals simp at along
  obtain ⟨rfl, rfl, rfl, rfl⟩ := along
  exact ⟨[_], .sample 1, [], rfl, by decide +kernel, by decide +kernel⟩

omit [Power] in
/-- The second record takes the slot of the first after that was drawn, and then gets the priority
that was meant for it. -/
theorem late_priority_rescores_undrawn_record :
    letI := Power.linear
    ∃ start, build (.linear 1) = .ok start ∧
      let run := [.insert (.ofList [("states", [0]), ("terminals", [0])]), .sample 1,
        .insert (.ofList [("states", [1]), ("terminals", [1])]),
        .update [0] [Binary32.leastNormal]]
      start.ReportsBatches run ∧ (start.after (run.take 3)).Weighs 0 1 ∧
        (start.after run).Weighs 0 Binary32.leastNormal ∧ ¬start.DrawnBeforeRescored run := by
  let _ := Power.linear
  refine ⟨_, rfl, ?_, ⟨by decide +kernel, by decide +kernel⟩,
    ⟨by decide +kernel, by decide +kernel⟩, fun drawn => ?_⟩
  · rintro (_ | ⟨_, _ | ⟨_, _ | ⟨_, _ | ⟨_, rest⟩⟩⟩⟩) indices priorities along
    all_goals simp at along
    obtain ⟨rfl, rfl, rfl, rfl, rfl⟩ := along
    decide +kernel
  · let stay : Stay := {
      before := [.insert (.ofList [("states", [0]), ("terminals", [0])]), .sample 1]
      batch := .ofList [("states", [1]), ("terminals", [1])]
      since := []
      slot := 0 }
    have shown := drawn.drawn stay [0] [Binary32.leastNormal]
      ⟨by decide +kernel, by decide +kernel⟩ (List.prefix_refl _) (Or.inl (by decide +kernel))
    cases shown

end Buffer

end ExperienceReplay
