import ExperienceReplay.Delivery

/-!
What a call does to a proxy and its channel. Main statement: the proxy is emptied before its message
is sent, so that batches stay with a proxy that has no receiver exactly if the call succeeds, and a
refused call loses all of them.
-/

namespace ExperienceReplay.Proxy

inductive Call where
  | push (batch : Records)
  | flush

namespace Call

def action : Call → Action (Proxy × Channel) Unit
  | push batch => Proxy.push batch
  | flush => Proxy.flush

def pushed : Call → List Records
  | push batch => [batch]
  | flush => []

/-- A push sends a message if it is full then, a flush if anything is pending. -/
def Sends (proxy : Proxy) : Call → Prop
  | push _ => proxy.pending.length + 1 = proxy.limit
  | flush => proxy.pending ≠ []

end Call

theorem perform_flush (proxy : Proxy) (channel : Channel) :
    flush.perform (proxy, channel) =
      if proxy.pending ≠ [] then
        (((Channel.send ⟨proxy.id, proxy.pending⟩).perform channel).1, { proxy with pending := [] },
          ((Channel.send ⟨proxy.id, proxy.pending⟩).perform channel).2)
      else (.ok (), proxy, channel) := by
  unfold flush
  rw [Action.perform_bind, Action.perform_get]
  by_cases empty : proxy.pending = []
  · simp [empty]
  · simp only [ne_eq, empty, not_false_eq_true, if_true]
    rw [Action.perform_bind, Action.perform_modify]
    rfl

theorem perform_push (batch : Records) (proxy : Proxy) (channel : Channel) :
    (push batch).perform (proxy, channel) =
      let proxy := { proxy with pending := proxy.pending ++ [batch] }
      if proxy.pending.length = proxy.limit then flush.perform (proxy, channel)
      else (.ok (), proxy, channel) := by
  unfold push
  rw [Action.perform_bind, Action.perform_modify]
  simp only
  rw [Action.perform_bind, Action.perform_get]
  simp only
  split <;> rfl

theorem Call.Sends.append_ne_nil {proxy : Proxy} {call : Call} (sends : call.Sends proxy) :
    proxy.pending ++ call.pushed ≠ [] := by
  cases call with
  | push batch => exact List.append_ne_nil_of_right_ne_nil _ nofun
  | flush => exact List.append_ne_nil_of_left_ne_nil sends _

theorem Call.Sends.perform {proxy : Proxy} {call : Call} (sends : call.Sends proxy)
    (channel : Channel) :
    call.action.perform (proxy, channel) =
      (((Channel.send ⟨proxy.id, proxy.pending ++ call.pushed⟩).perform channel).1,
        { proxy with pending := [] },
        ((Channel.send ⟨proxy.id, proxy.pending ++ call.pushed⟩).perform channel).2) := by
  cases call with
  | push batch =>
    refine (perform_push batch proxy channel).trans ?_
    have full : (proxy.pending ++ [batch]).length = proxy.limit :=
      List.length_append.trans sends
    simp only [full, if_true, perform_flush]
    exact if_pos sends.append_ne_nil
  | flush =>
    refine (perform_flush proxy channel).trans ((if_pos sends).trans ?_)
    rw [pushed, List.append_nil]

theorem Call.perform_of_not_sends {proxy : Proxy} {call : Call} (waits : ¬call.Sends proxy)
    (channel : Channel) :
    call.action.perform (proxy, channel) =
      (.ok (), { proxy with pending := proxy.pending ++ call.pushed }, channel) := by
  cases call with
  | push batch =>
    refine (perform_push batch proxy channel).trans ?_
    have room : (proxy.pending ++ [batch]).length ≠ proxy.limit := by
      rw [List.length_append]
      exact waits
    exact if_neg room
  | flush =>
    refine (perform_flush proxy channel).trans ((if_neg waits).trans ?_)
    rw [pushed, List.append_nil]

/-- Without a receiver a call fails exactly if it sends a message. A call that does not fail keeps
all batches; a call that fails keeps none. -/
theorem pending_kept_iff_succeeds {channel : Channel} (gone : channel.receiving = false)
    (proxy : Proxy) (call : Call) :
    let ended := call.action.perform (proxy, channel)
    (ended.1 = .ok () ∨ ended.1 = .error (.refused .disconnected)) ∧
      (ended.1 = .error (.refused .disconnected) ↔ call.Sends proxy) ∧
      (ended.2.1.pending = proxy.pending ++ call.pushed ↔ ended.1 = .ok ()) ∧
      (ended.1 = .error (.refused .disconnected) →
        ended.2 = ({ proxy with pending := [] }, channel)) := by
  intro ended
  by_cases sends : call.Sends proxy
  · have refused : ended =
        (.error (.refused .disconnected), { proxy with pending := [] }, channel) := by
      refine (sends.perform channel).trans ?_
      rw [Channel.perform_send, gone]
      rfl
    have held : proxy.pending ++ call.pushed ≠ [] := sends.append_ne_nil
    rw [refused]
    exact ⟨Or.inr rfl, iff_of_true rfl sends, iff_of_false held.symm nofun, fun _ => rfl⟩
  · have kept : ended =
        (.ok (), { proxy with pending := proxy.pending ++ call.pushed }, channel) :=
      Call.perform_of_not_sends sends channel
    rw [kept]
    exact ⟨Or.inl rfl, iff_of_false nofun sends, iff_of_true rfl rfl, nofun⟩

/-- The push that fills a message of two batches is refused, and both are gone. -/
theorem pending_kept_iff_succeeds_filling :
    let held := Records.ofList [("states", [0]), ("terminals", [0])]
    let last := Records.ofList [("states", [1]), ("terminals", [0])]
    let ended := (Call.push last).action.perform (⟨0, 2, [held]⟩, .closed)
    Channel.closed.receiving = false ∧ ended.1 = .error (.refused .disconnected) ∧
      ended.2 = (⟨0, 2, []⟩, .closed) ∧ ended.2.1.pending ≠ [held, last] := by
  intro held last ended
  obtain ⟨_, refused, kept, emptied⟩ :=
    pending_kept_iff_succeeds (rfl : Channel.closed.receiving = false) ⟨0, 2, [held]⟩ (.push last)
  have failed : ended.1 = .error (.refused .disconnected) := refused.2 rfl
  exact ⟨rfl, failed, emptied failed, fun same => nomatch failed.symm.trans (kept.1 same)⟩

/-- A refused flush, and a refused push of a batch that is sent at once, lose what they held. -/
theorem refused_calls_lose_batches :
    let batch := Records.ofList [("states", [0]), ("terminals", [0])]
    let flushed := Call.flush.action.perform (⟨0, 2, [batch]⟩, .closed)
    let pushed := (Call.push batch).action.perform (⟨1, 1, []⟩, .closed)
    flushed.1 = .error (.refused .disconnected) ∧ flushed.2.1.pending ≠ [batch] ∧
      pushed.1 = .error (.refused .disconnected) ∧ pushed.2.1.pending ≠ [batch] :=
  ⟨rfl, nofun, rfl, nofun⟩

end ExperienceReplay.Proxy
