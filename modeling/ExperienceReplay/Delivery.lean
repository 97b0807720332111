import ExperienceReplay.SharedBuffer

/-!
Delivery of batches from producers to a shared buffer. A producer's proxy collects batches and
sends them as one message over a channel; a worker inserts the batches of the messages in order.
-/

namespace ExperienceReplay

structure Message where
  id : Nat
  batches : List Records
deriving DecidableEq

/-- An unbounded queue of messages. Messages sent after the receiver is gone are lost. -/
structure Channel where
  receiving : Bool
  queue : List Message
deriving DecidableEq

namespace Channel

def empty : Channel := ⟨true, []⟩

def closed : Channel := ⟨false, []⟩

def send (message : Message) : Action Channel Unit := do
  let channel ← get
  if channel.receiving then set { channel with queue := channel.queue ++ [message] }
  else Action.refuse .disconnected

theorem perform_send (message : Message) (channel : Channel) :
    (send message).perform channel =
      if channel.receiving then
        (.ok (), { channel with queue := channel.queue ++ [message] })
      else (.error (.refused .disconnected), channel) := by
  rw [send, Action.perform_bind, Action.perform_get]
  cases h : channel.receiving <;> simp [h]

def receive? (channel : Channel) : Option Message × Channel :=
  match channel.queue with
  | [] => (none, channel)
  | message :: rest => (some message, { channel with queue := rest })

end Channel

structure Proxy where
  id : Nat
  limit : Nat
  pending : List Records
deriving DecidableEq

namespace Proxy

/-- A message holds at least one batch. -/
def new (id limit : Nat) : Proxy := ⟨id, max limit 1, []⟩

def defaultLimit : Nat := 1

def flush : Action (Proxy × Channel) Unit := do
  let (proxy, _) ← get
  if proxy.pending ≠ [] then
    modify fun (proxy, channel) => ({ proxy with pending := [] }, channel)
    Action.onPart Prod.snd (fun channel state => (state.1, channel))
      (Channel.send ⟨proxy.id, proxy.pending⟩)

def push (batch : Records) : Action (Proxy × Channel) Unit := do
  modify fun (proxy, channel) => ({ proxy with pending := proxy.pending ++ [batch] }, channel)
  let (proxy, _) ← get
  if proxy.pending.length = proxy.limit then flush

end Proxy

namespace Worker

/-- Inserts the batches of one message. A refused batch is logged and left out; a poisoned lock
stops the worker. -/
def insertBatches [Power] (id : Nat) :
    List Records → Logged Nat → SharedBuffer → Logged (Except Abort Nat) × SharedBuffer
  | [], done, shared => (done.map .ok, shared)
  | batch :: rest, done, shared =>
    match (SharedBuffer.insert batch).perform shared with
    | (.ok (), shared) => insertBatches id rest (done.map (· + 1)) shared
    | (.error (.refused .lockPoisoned), shared) =>
      (⟨.error (.refused .lockPoisoned), done.lines ++
        [⟨.error, "Insert worker stopped after " ++ done.value.repr ++
          " batches: lock poisoned"⟩]⟩, shared)
    | (.error (.refused error), shared) =>
      insertBatches id rest
        ⟨done.value, done.lines ++
          [⟨.warning, "Dropped a batch from proxy " ++ id.repr ++ ": " ++ error.message⟩]⟩ shared
    | (.error (.faulted fault), shared) => (⟨.error (.faulted fault), done.lines⟩, shared)

def run [Power] :
    List Message → Logged Nat → SharedBuffer → Logged (Except Abort Nat) × SharedBuffer
  | [], done, shared => (done.map .ok, shared)
  | message :: rest, done, shared =>
    match insertBatches message.id message.batches done shared with
    | (⟨.ok count, lines⟩, shared) => run rest ⟨count, lines⟩ shared
    | stopped => stopped

end Worker

/-- Producers, their channel, and the buffer at its end. A producer that is gone leaves its place
empty. -/
structure Delivery where
  proxies : List (Option Proxy)
  channel : Channel
  shared : SharedBuffer

namespace Delivery

/-- A call on the proxy at a place and the channel; nothing happens at an empty place. -/
def onProxy (place : Nat) (call : Action (Proxy × Channel) Unit) : Action Delivery Unit :=
  fun delivery =>
    match delivery.proxies[place]? with
    | some (some proxy) =>
      let (answer, proxy, channel) := call.perform (proxy, delivery.channel)
      (answer, { delivery with proxies := delivery.proxies.set place (some proxy), channel })
    | _ => (.ok (), delivery)

def push (place : Nat) (batch : Records) : Action Delivery Unit :=
  onProxy place (Proxy.push batch)

def flush (place : Nat) : Action Delivery Unit := onProxy place Proxy.flush

def dropProxy (place : Nat) (delivery : Delivery) : Delivery :=
  { delivery with proxies := delivery.proxies.set place none }

def dropReceiver (delivery : Delivery) : Delivery := { delivery with channel := .closed }

def onShared {α : Type} (call : Action SharedBuffer α) : Action Delivery α :=
  Action.onPart Delivery.shared (fun shared delivery => { delivery with shared }) call

/-- Runs the worker on all queued messages until no sender is left, or until it stops itself, and
answers how many batches it inserted. The channel is closed afterwards. -/
def runWorker [Power] (keepProxies : Bool) (delivery : Delivery) :
    Logged (Except Abort Nat) × Delivery :=
  let (result, shared) := Worker.run delivery.channel.queue (.silent 0) delivery.shared
  let proxies := if keepProxies then delivery.proxies else delivery.proxies.map fun _ => none
  (result, { proxies, channel := .closed, shared })

end Delivery

end ExperienceReplay
