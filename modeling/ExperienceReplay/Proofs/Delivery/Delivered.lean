import ExperienceReplay.Proofs.Delivery.Sending

/-!
Runs of several producers on one channel that is received. Main statement: every batch that was
pushed to a proxy is in one of its messages or pending, in the order of the pushes, and a proxy
never holds as many batches as a message.
-/

namespace ExperienceReplay

def ofPlace {α : Type} (place : Nat) (items : List (Nat × α)) : List α :=
  items.filterMap fun item => if item.1 = place then some item.2 else none

section

variable {α : Type} {place other : Nat}

theorem ofPlace_append (items others : List (Nat × α)) :
    ofPlace place (items ++ others) = ofPlace place items ++ ofPlace place others :=
  List.filterMap_append

theorem ofPlace_label (items : List α) : ofPlace place (items.map (Prod.mk place)) = items := by
  have kept : (fun item : Nat × α => if item.1 = place then some item.2 else none) ∘
      Prod.mk place = some := funext fun _ => if_pos rfl
  rw [ofPlace, List.filterMap_map, kept, List.filterMap_some]

theorem ofPlace_label_of_ne (ne : other ≠ place) (items : List α) :
    ofPlace place (items.map (Prod.mk other)) = [] := by
  rw [ofPlace, List.filterMap_map]
  exact List.filterMap_eq_nil_iff.2 fun _ _ => if_neg ne

theorem mem_ofPlace_iff {item : α} {items : List (Nat × α)} :
    item ∈ ofPlace place items ↔ (place, item) ∈ items := by
  simp [ofPlace]

end

namespace Proxy

structure Passes (before : Proxy) (pushed : List Records) (messages : List Message)
    (after : Proxy) : Prop where
  id : after.id = before.id
  limit : after.limit = before.limit
  batches : messages.flatMap Message.batches ++ after.pending = before.pending ++ pushed
  room : after.pending.length < after.limit
  message : ∀ message ∈ messages, message.id = before.id ∧ 1 ≤ message.batches.length ∧
    message.batches.length ≤ before.limit

theorem Passes.refl {proxy : Proxy} (room : proxy.pending.length < proxy.limit) :
    proxy.Passes [] [] proxy :=
  ⟨rfl, rfl, (List.append_nil _).symm, room, nofun⟩

theorem Passes.trans {before between after : Proxy} {pushed pushed' : List Records}
    {messages messages' : List Message} (first : before.Passes pushed messages between)
    (second : between.Passes pushed' messages' after) :
    before.Passes (pushed ++ pushed') (messages ++ messages') after where
  id := second.id.trans first.id
  limit := second.limit.trans first.limit
  batches := by
    rw [List.flatMap_append, List.append_assoc, second.batches, ← List.append_assoc,
      first.batches, List.append_assoc]
  room := second.room
  message message mem := by
    rcases List.mem_append.1 mem with mem | mem
    · exact first.message message mem
    · rw [← first.id, ← first.limit]
      exact second.message message mem

/-- A push asks only whether the message is just full. That is enough, because a proxy with room
for a batch is full as soon as it has no more room. -/
theorem Call.passes (call : Call) {proxy : Proxy} (room : proxy.pending.length < proxy.limit)
    {channel : Channel} (receiving : channel.receiving = true) :
    ∃ messages next, call.action.perform (proxy, channel) =
        (.ok (), next, { channel with queue := channel.queue ++ messages }) ∧
      proxy.Passes call.pushed messages next := by
  by_cases sends : call.Sends proxy
  · refine ⟨[⟨proxy.id, proxy.pending ++ call.pushed⟩], { proxy with pending := [] }, ?_, ?_⟩
    · refine (sends.perform channel).trans ?_
      rw [Channel.perform_send, receiving]
      rfl
    · refine ⟨rfl, rfl, by simp, Nat.zero_lt_of_lt room, fun message mem => ?_⟩
      obtain rfl := List.mem_singleton.1 mem
      refine ⟨rfl, List.length_pos_iff.2 sends.append_ne_nil, ?_⟩
      rw [List.length_append]
      cases call with
      | push batch => exact Nat.le_of_eq sends
      | flush => exact Nat.le_of_lt room
  · refine ⟨[], { proxy with pending := proxy.pending ++ call.pushed }, ?_, ?_⟩
    · rw [perform_of_not_sends sends, List.append_nil]
    · refine ⟨rfl, rfl, rfl, ?_, nofun⟩
      rw [List.length_append]
      cases call with
      | push batch => exact Nat.lt_of_le_of_ne room sends
      | flush => exact room

end Proxy

namespace Delivery

def ofProducers (producers : List (Nat × Nat)) (shared : SharedBuffer) : Delivery :=
  ⟨producers.map fun (id, limit) => some (.new id limit), .empty, shared⟩

def call (place : Nat) : Proxy.Call → Action Delivery Unit
  | .push batch => push place batch
  | .flush => flush place

def ask (delivery : Delivery) (request : Nat × Proxy.Call) : Except Abort Unit × Delivery :=
  (call request.1 request.2).perform delivery

def after (delivery : Delivery) : List (Nat × Proxy.Call) → Delivery
  | [] => delivery
  | request :: rest => (delivery.ask request).2.after rest

def answers (delivery : Delivery) : List (Nat × Proxy.Call) → List (Except Abort Unit)
  | [] => []
  | request :: rest => (delivery.ask request).1 :: (delivery.ask request).2.answers rest

def sentBy (delivery : Delivery) (request : Nat × Proxy.Call) : List (Nat × Message) :=
  ((delivery.ask request).2.channel.queue.drop delivery.channel.queue.length).map
    (Prod.mk request.1)

def sent (delivery : Delivery) : List (Nat × Proxy.Call) → List (Nat × Message)
  | [] => []
  | request :: rest => delivery.sentBy request ++ (delivery.ask request).2.sent rest

def proxyAt (delivery : Delivery) (place : Nat) : Option Proxy := delivery.proxies[place]?.join

/-- Every proxy has passed on what was pushed to it, and the messages are in the queue. -/
structure Passes (before : Delivery) (requests : List (Nat × Proxy.Call))
    (sent : List (Nat × Message)) (after : Delivery) : Prop where
  shared : after.shared = before.shared
  channel : after.channel =
    { before.channel with queue := before.channel.queue ++ sent.map Prod.snd }
  proxy : ∀ place proxy, before.proxyAt place = some proxy → ∃ next,
    after.proxyAt place = some next ∧
      proxy.Passes ((ofPlace place requests).flatMap Proxy.Call.pushed) (ofPlace place sent) next
  nobody : ∀ place, before.proxyAt place = none →
    after.proxyAt place = none ∧ ofPlace place sent = []

def HasRoom (delivery : Delivery) : Prop :=
  ∀ place proxy, delivery.proxyAt place = some proxy → proxy.pending.length < proxy.limit

variable {delivery : Delivery}

theorem Passes.hasRoom {before after : Delivery} {requests : List (Nat × Proxy.Call)}
    {sent : List (Nat × Message)} (passes : before.Passes requests sent after) :
    after.HasRoom := by
  intro place proxy here
  cases found : before.proxyAt place with
  | none =>
    obtain ⟨absent, _⟩ := passes.nobody place found
    exact absurd (here.symm.trans absent) nofun
  | some earlier =>
    obtain ⟨next, present, passes⟩ := passes.proxy place earlier found
    obtain rfl := Option.some.inj (here.symm.trans present)
    exact passes.room

theorem Passes.refl (room : delivery.HasRoom) : delivery.Passes [] [] delivery where
  shared := rfl
  channel := by rw [List.map_nil, List.append_nil]
  proxy place proxy here := ⟨proxy, here, .refl (room place proxy here)⟩
  nobody _ absent := ⟨absent, rfl⟩

theorem Passes.trans {before between after : Delivery}
    {requests requests' : List (Nat × Proxy.Call)} {sent sent' : List (Nat × Message)}
    (first : before.Passes requests sent between)
    (second : between.Passes requests' sent' after) :
    before.Passes (requests ++ requests') (sent ++ sent') after where
  shared := second.shared.trans first.shared
  channel := by rw [second.channel, first.channel, List.map_append, List.append_assoc]
  proxy place proxy here := by
    obtain ⟨next, there, passes⟩ := first.proxy place proxy here
    obtain ⟨last, found, passes'⟩ := second.proxy place next there
    refine ⟨last, found, ?_⟩
    rw [ofPlace_append, ofPlace_append, List.flatMap_append]
    exact passes.trans passes'
  nobody place absent := by
    obtain ⟨absent', nothing⟩ := first.nobody place absent
    obtain ⟨absent'', nothing'⟩ := second.nobody place absent'
    exact ⟨absent'', by rw [ofPlace_append, nothing, nothing', List.append_nil]⟩

theorem call_eq_onProxy (place : Nat) (call : Proxy.Call) :
    Delivery.call place call = onProxy place call.action := by
  cases call <;> rfl

theorem ask_of_absent {place : Nat} (absent : delivery.proxyAt place = none)
    (call : Proxy.Call) : delivery.ask (place, call) = (.ok (), delivery) := by
  unfold ask
  rw [call_eq_onProxy]
  change onProxy place call.action delivery = _
  unfold onProxy
  unfold proxyAt at absent
  rcases here : delivery.proxies[place]? with _ | _ | proxy
  · rfl
  · rfl
  · rw [here] at absent
    cases absent

theorem ask_of_present {place : Nat} {proxy next : Proxy} {answer : Except Abort Unit}
    {channel : Channel} (present : delivery.proxyAt place = some proxy) {call : Proxy.Call}
    (performed : call.action.perform (proxy, delivery.channel) = (answer, next, channel)) :
    delivery.ask (place, call) =
      (answer, { delivery with proxies := delivery.proxies.set place (some next), channel }) := by
  unfold ask
  rw [call_eq_onProxy]
  change onProxy place call.action delivery = _
  have here : delivery.proxies[place]? = some (some proxy) := Option.join_eq_some_iff.1 present
  simp only [onProxy, here, performed]

theorem proxyAt_set {place : Nat} {proxy next : Proxy} {channel : Channel}
    (present : delivery.proxyAt place = some proxy) (other : Nat) :
    ({ delivery with proxies := delivery.proxies.set place (some next), channel } :
      Delivery).proxyAt other = if place = other then some next else delivery.proxyAt other := by
  have inside : place < delivery.proxies.length :=
    (List.getElem?_eq_some_iff.1 (Option.join_eq_some_iff.1 present)).1
  unfold proxyAt
  by_cases same : place = other
  · subst same
    rw [List.getElem?_set_self inside, if_pos rfl]
    rfl
  · rw [List.getElem?_set_ne same, if_neg same]

theorem HasRoom.passes_elsewhere (room : delivery.HasRoom) {place other : Nat}
    (ne : place ≠ other) {proxy : Proxy} (here : delivery.proxyAt other = some proxy)
    (call : Proxy.Call) (messages : List Message) :
    proxy.Passes ((ofPlace other [(place, call)]).flatMap Proxy.Call.pushed)
      (ofPlace other (messages.map (Prod.mk place))) proxy := by
  have silent : ofPlace other [(place, call)] = [] := ofPlace_label_of_ne ne [call]
  rw [silent, ofPlace_label_of_ne ne]
  exact .refl (room other proxy here)

theorem HasRoom.ask (room : delivery.HasRoom) (receiving : delivery.channel.receiving = true)
    (request : Nat × Proxy.Call) :
    (delivery.ask request).1 = .ok () ∧
      delivery.Passes [request] (delivery.sentBy request) (delivery.ask request).2 := by
  obtain ⟨place, call⟩ := request
  cases here : delivery.proxyAt place with
  | none =>
    have nothing : delivery.sentBy (place, call) = [].map (Prod.mk place) := by
      rw [sentBy, ask_of_absent here, List.drop_length]
    rw [nothing, ask_of_absent here]
    refine ⟨rfl, rfl, ?_, fun other proxy there => ?_, fun other absent => ⟨absent, rfl⟩⟩
    · rw [List.map_nil, List.map_nil, List.append_nil]
    · have ne : place ≠ other := by
        rintro rfl
        exact absurd (here.symm.trans there) nofun
      exact ⟨proxy, there, room.passes_elsewhere ne there call []⟩
  | some proxy =>
    obtain ⟨messages, next, performed, passes⟩ := call.passes (room place proxy here) receiving
    have labelled : delivery.sentBy (place, call) = messages.map (Prod.mk place) := by
      rw [sentBy, ask_of_present here performed, List.drop_left]
    rw [labelled, ask_of_present here performed]
    refine ⟨rfl, rfl, ?_, fun other found there => ?_, fun other absent => ?_⟩
    · simp only [List.map_map]
      congr
      exact (List.map_id messages).symm
    · rw [proxyAt_set here]
      by_cases same : place = other
      · subst same
        obtain rfl := Option.some.inj (here.symm.trans there)
        have asked : ofPlace place [(place, call)] = [call] := ofPlace_label [call]
        rw [if_pos rfl, asked, ofPlace_label, List.flatMap_singleton]
        exact ⟨next, rfl, passes⟩
      · rw [if_neg same]
        exact ⟨found, there, room.passes_elsewhere same there call messages⟩
    · have ne : place ≠ other := by
        rintro rfl
        exact absurd (here.symm.trans absent) nofun
      rw [proxyAt_set here, if_neg ne, ofPlace_label_of_ne ne]
      exact ⟨absent, rfl⟩

theorem HasRoom.after (room : delivery.HasRoom) (receiving : delivery.channel.receiving = true)
    (requests : List (Nat × Proxy.Call)) :
    (∀ answer ∈ delivery.answers requests, answer = .ok ()) ∧
      delivery.Passes requests (delivery.sent requests) (delivery.after requests) := by
  -- each call leaves the receiver and the room that the next one needs
  induction requests generalizing delivery with
  | nil => exact ⟨nofun, .refl room⟩
  | cons request rest ih =>
    obtain ⟨answered, first⟩ := room.ask receiving request
    have receiving' : (delivery.ask request).2.channel.receiving = true := by
      rwa [first.channel]
    obtain ⟨others, passes⟩ := ih first.hasRoom receiving'
    exact ⟨List.forall_mem_cons.2 ⟨answered, others⟩, first.trans passes⟩

/-- What has become of the batches that producers have pushed. -/
structure Delivered (producers : List (Nat × Nat)) (requests : List (Nat × Proxy.Call))
    (sent : List (Nat × Message)) (delivery : Delivery) : Prop where
  queue : delivery.channel.queue = sent.map Prod.snd
  proxy : ∀ place id limit, producers[place]? = some (id, limit) → ∃ pending,
    delivery.proxyAt place = some ⟨id, max limit 1, pending⟩ ∧ pending.length < max limit 1 ∧
      (ofPlace place sent).flatMap Message.batches ++ pending =
        (ofPlace place requests).flatMap Proxy.Call.pushed
  message : ∀ item ∈ sent, ∃ id limit, producers[item.1]? = some (id, limit) ∧
    item.2.id = id ∧ 1 ≤ item.2.batches.length ∧ item.2.batches.length ≤ max limit 1

theorem proxyAt_ofProducers (producers : List (Nat × Nat)) (shared : SharedBuffer) (place : Nat) :
    (ofProducers producers shared).proxyAt place =
      producers[place]?.map fun producer => .new producer.1 producer.2 := by
  unfold proxyAt ofProducers
  rw [List.getElem?_map]
  cases producers[place]? <;> rfl

theorem hasRoom_ofProducers (producers : List (Nat × Nat)) (shared : SharedBuffer) :
    (ofProducers producers shared).HasRoom := by
  intro place proxy here
  rw [proxyAt_ofProducers] at here
  obtain ⟨producer, _, rfl⟩ := Option.map_eq_some_iff.1 here
  exact Nat.lt_of_lt_of_le Nat.one_pos (Nat.le_max_right _ _)

theorem delivered_after_ofProducers (producers : List (Nat × Nat)) (shared : SharedBuffer)
    (requests : List (Nat × Proxy.Call)) :
    let start := ofProducers producers shared
    (∀ answer ∈ start.answers requests, answer = .ok ()) ∧
      (start.after requests).shared = shared ∧
      (start.after requests).Delivered producers requests (start.sent requests) := by
  intro start
  obtain ⟨answered, passes⟩ := (hasRoom_ofProducers producers shared).after rfl requests
  refine ⟨answered, passes.shared, ?_, fun place id limit here => ?_, fun item mem => ?_⟩
  · rw [passes.channel]
    rfl
  · have first : start.proxyAt place = some (.new id limit) := by
      rw [proxyAt_ofProducers, here]
      rfl
    obtain ⟨⟨id', limit', pending⟩, present, passed⟩ := passes.proxy place _ first
    obtain rfl : id' = id := passed.id
    obtain rfl : limit' = max limit 1 := passed.limit
    exact ⟨pending, present, passed.room, passed.batches⟩
  · obtain ⟨place, message⟩ := item
    have mem : message ∈ ofPlace place (start.sent requests) := mem_ofPlace_iff.2 mem
    cases first : start.proxyAt place with
    | none =>
      rw [(passes.nobody place first).2] at mem
      exact absurd mem List.not_mem_nil
    | some proxy =>
      obtain ⟨_, _, passed⟩ := passes.proxy place proxy first
      rw [proxyAt_ofProducers] at first
      obtain ⟨⟨id, limit⟩, here, rfl⟩ := Option.map_eq_some_iff.1 first
      exact ⟨id, limit, here, passed.message message mem⟩

end Delivery

end ExperienceReplay
