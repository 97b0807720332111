import ExperienceReplay.Proofs.Buffer.Formed
import ExperienceReplay.Proofs.Delivery.Delivered
import ExperienceReplay.Proofs.SharedBuffer.Faces

/-!
The worker at the end of a channel. Main statement: whatever producers push and flush as long as
there is a receiver, their batches reach the queue in order, and the worker inserts the queued
batches one after the other as if those that are refused had never been sent, except that it logs a
warning for each of them.
-/

namespace ExperienceReplay

namespace Worker

def arrivals (messages : List Message) : List (Nat × Records) :=
  messages.flatMap fun message => message.batches.map (Prod.mk message.id)

def insertions (arrivals : List (Nat × Records)) : List Request :=
  arrivals.map fun arrival => .insert arrival.2

def warning? (id : Nat) (exchange : Exchange) : Option LogLine :=
  match exchange.answer with
  | .error (.refused error) =>
    some ⟨.warning, "Dropped a batch from proxy " ++ id.repr ++ ": " ++ error.message⟩
  | _ => none

def warnings (arrivals : List (Nat × Records)) (exchanges : List Exchange) : List LogLine :=
  (arrivals.zip exchanges).filterMap fun pair => warning? pair.1.1 pair.2

theorem length_warnings {arrivals : List (Nat × Records)} {exchanges : List Exchange}
    (same : arrivals.length = exchanges.length)
    (refused : ∀ exchange ∈ exchanges, exchange.succeeded = false →
      ∃ error, exchange.answer = .error (.refused error)) :
    (warnings arrivals exchanges).length =
      (exchanges.filter fun exchange => !exchange.succeeded).length := by
  induction exchanges generalizing arrivals with
  | nil =>
    rw [List.length_eq_zero_iff.1 same]
    rfl
  | cons exchange rest ih =>
    obtain ⟨arrival, others, rfl⟩ := List.exists_cons_of_length_eq_add_one same
    obtain ⟨here, refused⟩ := List.forall_mem_cons.1 refused
    have ih := ih (Nat.succ.inj same) refused
    unfold warnings at ih ⊢
    rw [List.zip_cons_cons, List.filterMap_cons, List.filter_cons]
    cases answered : exchange.answer with
    | ok answer =>
      have succeeded : exchange.succeeded = true := congrArg Except.isOk answered
      simp only [warning?, answered, succeeded, Bool.not_true, Bool.false_eq_true, if_false]
      exact ih
    | error abort =>
      have failed : exchange.succeeded = false := congrArg Except.isOk answered
      obtain ⟨error, refused⟩ := here failed
      simp only [warning?, refused, failed, Bool.not_false, if_true]
      exact congrArg Nat.succ ih

variable [Power]

def exchanges (buffer : Buffer) (arrivals : List (Nat × Records)) : List Exchange :=
  buffer.transcript (insertions arrivals)

def accepted (buffer : Buffer) (arrivals : List (Nat × Records)) : List Exchange :=
  (exchanges buffer arrivals).filter Exchange.succeeded

/-- A worker has inserted batches one after the other and left out those that were refused. -/
structure Inserted (buffer : Buffer) (arrivals : List (Nat × Records))
    (ended : Logged (Except Abort Nat) × Delivery) : Prop where
  answer : ended.1.value = .ok (accepted buffer arrivals).length
  state : ended.2.shared = .ofBuffer (buffer.after (insertions arrivals))
  skipped :
    ended.2.shared = .ofBuffer (buffer.after ((accepted buffer arrivals).map Exchange.request))
  lines : ended.1.lines = warnings arrivals (exchanges buffer arrivals)
  once : ended.1.lines.length =
    ((exchanges buffer arrivals).filter fun exchange => !exchange.succeeded).length

def tally (done : Logged Nat) (buffer : Buffer) (arrivals : List (Nat × Records)) : Logged Nat :=
  ⟨done.value + (accepted buffer arrivals).length,
    done.lines ++ warnings arrivals (exchanges buffer arrivals)⟩

theorem tally_nil (done : Logged Nat) (buffer : Buffer) : tally done buffer [] = done :=
  congrArg (Logged.mk done.value) (List.append_nil done.lines)

theorem tally_append (done : Logged Nat) (buffer : Buffer) (first rest : List (Nat × Records)) :
    tally done buffer (first ++ rest) =
      tally (tally done buffer first) (buffer.after (insertions first)) rest := by
  have split : exchanges buffer (first ++ rest) =
      exchanges buffer first ++ exchanges (buffer.after (insertions first)) rest := by
    unfold exchanges insertions
    rw [List.map_append, Buffer.transcript_append]
  have same : first.length = (exchanges buffer first).length := by
    unfold exchanges insertions
    rw [Buffer.length_transcript, List.length_map]
  unfold tally accepted warnings
  rw [split, List.filter_append, List.length_append, List.zip_append same, List.filterMap_append,
    Nat.add_assoc, List.append_assoc]

variable {buffer : Buffer} {layout : RecordRing.Layout}

theorem tally_of_accepted {id : Nat} {batch : Records} (done : Logged Nat) {next : Buffer}
    (inserted : (Buffer.insert batch).perform buffer = (.ok (), next)) :
    tally done buffer [(id, batch)] = done.map (· + 1) := by
  have answered : (buffer.ask (.insert batch)).1 = .ok (.silent .done) := by
    rw [Buffer.ask_insert, inserted]
    rfl
  have exchanged : exchanges buffer [(id, batch)] = [⟨.insert batch, .ok (.silent .done)⟩] :=
    congrArg (fun answer => [Exchange.mk (.insert batch) answer]) answered
  unfold tally accepted
  rw [exchanged]
  exact congrArg (Logged.mk (done.value + 1)) (List.append_nil done.lines)

theorem tally_of_refused {id : Nat} {batch : Records} (done : Logged Nat) {error : Error}
    (refused : (Buffer.insert batch).perform buffer = (.error (.refused error), buffer)) :
    tally done buffer [(id, batch)] = ⟨done.value, done.lines ++
      [⟨.warning, "Dropped a batch from proxy " ++ id.repr ++ ": " ++ error.message⟩]⟩ := by
  have answered : (buffer.ask (.insert batch)).1 = .error (.refused error) := by
    rw [Buffer.ask_insert, refused]
    rfl
  have exchanged : exchanges buffer [(id, batch)] = [⟨.insert batch, .error (.refused error)⟩] :=
    congrArg (fun answer => [Exchange.mk (.insert batch) answer]) answered
  unfold tally accepted
  rw [exchanged]
  rfl

theorem insertBatches_cons (formed : buffer.Formed layout) (id : Nat) (batch : Records)
    (rest : List Records) (done : Logged Nat) :
    insertBatches id (batch :: rest) done (.ofBuffer buffer) =
      insertBatches id rest (tally done buffer [(id, batch)])
        (.ofBuffer (buffer.ask (.insert batch)).2) := by
  rw [Buffer.ask_insert, insertBatches]
  rcases formed.perform_insert_cases batch with ⟨_, _, _, _, _, _, inserted⟩ | ⟨cause, refused⟩
  · have shared := SharedBuffer.perform_locked inserted nofun
    rw [tally_of_accepted done inserted, inserted, SharedBuffer.insert, shared]
  · have shared := SharedBuffer.perform_locked refused nofun
    rw [tally_of_refused done refused, refused, SharedBuffer.insert, shared]

theorem insertBatches_eq (formed : buffer.Formed layout) (id : Nat) (batches : List Records)
    (done : Logged Nat) :
    insertBatches id batches done (.ofBuffer buffer) =
      ((tally done buffer (batches.map (Prod.mk id))).map .ok,
        .ofBuffer (buffer.after (insertions (batches.map (Prod.mk id))))) := by
  -- what the worker has done so far is all in `done`, so that one batch can be taken at a time
  induction batches generalizing buffer done with
  | nil =>
    rw [List.map_nil, tally_nil]
    rfl
  | cons batch rest ih =>
    rw [insertBatches_cons formed, ih (formed.ask (.insert batch))]
    exact congrArg (fun total : Logged Nat => (total.map Except.ok, _))
      (tally_append done buffer [(id, batch)] (rest.map (Prod.mk id))).symm

theorem run_eq (formed : buffer.Formed layout) (messages : List Message) (done : Logged Nat) :
    run messages done (.ofBuffer buffer) =
      ((tally done buffer (arrivals messages)).map .ok,
        .ofBuffer (buffer.after (insertions (arrivals messages)))) := by
  induction messages generalizing buffer done with
  | nil =>
    change (_, _) = ((tally done buffer []).map _, _)
    rw [tally_nil]
    rfl
  | cons message rest ih =>
    have next := formed.after (insertions (message.batches.map (Prod.mk message.id)))
    have split : insertions (arrivals (message :: rest)) =
        insertions (message.batches.map (Prod.mk message.id)) ++ insertions (arrivals rest) :=
      List.map_append
    rw [run, insertBatches_eq formed]
    change run rest (tally done buffer _) _ = _
    rw [ih next, split, Buffer.after_append, ← tally_append]
    rfl

theorem refusesCleanly_insertions (formed : buffer.Formed layout)
    (arrivals : List (Nat × Records)) : buffer.RefusesCleanly (insertions arrivals) := by
  induction arrivals generalizing buffer with
  | nil => exact trivial
  | cons arrival rest ih =>
    refine ⟨?_, ih (formed.ask (.insert arrival.2))⟩
    rw [Buffer.ask_insert]
    rcases formed.perform_insert_cases arrival.2 with ⟨_, _, _, _, _, _, inserted⟩ | ⟨cause, refused⟩
    · rw [inserted]
      exact Or.inl ⟨_, rfl⟩
    · rw [refused]
      exact Or.inr ⟨_, rfl⟩

theorem inserted_runWorker (formed : buffer.Formed layout) {delivery : Delivery}
    (shared : delivery.shared = .ofBuffer buffer) (keepProxies : Bool) :
    Inserted buffer (arrivals delivery.channel.queue) (delivery.runWorker keepProxies) := by
  have clean := refusesCleanly_insertions formed (arrivals delivery.channel.queue)
  unfold Delivery.runWorker
  rw [shared, run_eq formed]
  refine ⟨?_, rfl, ?_, rfl, ?_⟩
  · exact congrArg Except.ok (Nat.zero_add _)
  · have thinned := Thinned.filter_succeeded (exchanges buffer (arrivals delivery.channel.queue))
    exact congrArg SharedBuffer.ofBuffer (clean.transcript_of_thinned thinned).2.symm
  · refine length_warnings ?_ fun exchange mem failed => clean.refused_of_failed mem failed
    unfold exchanges insertions
    rw [Buffer.length_transcript, List.length_map]

end Worker

namespace Delivery

variable [Power]

/-- While there is a receiver, producers lose and duplicate nothing, whatever they have asked so
far, and the worker that runs after they are gone inserts what is in the queue. -/
theorem delivered_and_inserted {config : Config} {start : Buffer}
    (built : Buffer.build config = .ok start) (earlier : List Request)
    (producers : List (Nat × Nat)) (requests : List (Nat × Proxy.Call)) :
    let buffer := start.after earlier
    let first := ofProducers producers (.ofBuffer buffer)
    let last := first.after requests
    (∀ answer ∈ first.answers requests, answer = .ok ()) ∧
      last.Delivered producers requests (first.sent requests) ∧
      Worker.Inserted buffer (Worker.arrivals last.channel.queue) (last.runWorker false) := by
  intro buffer first last
  obtain ⟨layout, _, _, formed⟩ := Buffer.exists_formed_of_build built
  obtain ⟨answered, shared, delivered⟩ :=
    delivered_after_ofProducers producers (.ofBuffer buffer) requests
  exact ⟨answered, delivered, Worker.inserted_runWorker (formed.after earlier) shared false⟩

omit [Power] in
/-- Two producers with one id. The second batch of the second producer has no terminals, and its
third batch is still pending when the producers go. -/
theorem delivered_and_inserted_malformed :
    letI := Power.linear
    ∃ start, Buffer.build (.linear 3) = .ok start ∧
      let good := Records.ofList [("states", [0]), ("terminals", [0])]
      let bad := Records.ofList [("states", [1])]
      let requests := [(1, .push good), (0, .push good), (1, .push bad), (0, .flush),
        (1, .push good)]
      let first := ofProducers [(7, 0), (7, 2)] (.ofBuffer start)
      let last := first.after requests
      let ended := last.runWorker false
      last.channel.queue = [⟨7, [good]⟩, ⟨7, [good, bad]⟩] ∧
        last.proxyAt 1 = some ⟨7, 2, [good]⟩ ∧ ended.1.value = .ok 2 ∧
        ended.1.lines.length = 1 ∧
        ended.2.shared = .ofBuffer (start.after [.insert good, .insert good, .insert bad]) := by
  let _ := Power.linear
  have built : Buffer.build (.linear 3) = .ok _ := rfl
  refine ⟨_, built, ?_⟩
  intro good bad requests first last ended
  obtain ⟨_, delivered, inserted⟩ : _ ∧ last.Delivered [(7, 0), (7, 2)] requests _ ∧
      Worker.Inserted _ (Worker.arrivals last.channel.queue) ended :=
    delivered_and_inserted built [] [(7, 0), (7, 2)] requests
  have queue : last.channel.queue = [⟨7, [good]⟩, ⟨7, [good, bad]⟩] := by decide +kernel
  rw [queue] at inserted
  refine ⟨queue, ?_, ?_, ?_, inserted.state⟩
  · obtain ⟨pending, present, _, batches⟩ := delivered.proxy 1 7 2 rfl
    have sent : (ofPlace 1 (first.sent requests)).flatMap Message.batches = [good, bad] := by
      decide +kernel
    have rest : [good, bad] ++ pending = [good, bad] ++ [good] :=
      (congrArg (· ++ pending) sent).symm.trans batches
    refine present.trans ?_
    rw [List.append_cancel_left rest]
    rfl
  · refine inserted.answer.trans (congrArg Except.ok ?_)
    decide +kernel
  · refine inserted.once.trans ?_
    decide +kernel

end Delivery

end ExperienceReplay
