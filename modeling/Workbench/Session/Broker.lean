import Workbench.Session.Coordinator

/-!
# Answering clients

Every client has a queue for its messages, which are answered in the order in which they were sent;
messages that are no requests keep their place in it. Only a request to terminate is answered at
once, and so is a message that finds the queue full. Every answer is published as one event with the
next number.

While work of a client waits, the later messages of that client do. As a session is busy with one
activity at most, there is never more than one piece of waiting work.
-/

namespace Workbench.Session

/-! ### Clients -/

/-- A message in a queue. -/
inductive Inbound where
  | request (envelope : Envelope)
  | undecodable (message : Undecodable)
  deriving Repr, Inhabited

/-- The id that the answer of a message carries. -/
def Inbound.id : Inbound → Option Json
  | request envelope => envelope.id
  | undecodable message => message.id

structure Client where
  /-- Whether the client can still send. -/
  connected : Bool
  queue : List Inbound
  deriving Repr, Inhabited

/-- Work that waits, with the request that it answers. -/
structure Work where
  client : Nat
  id : Option Json
  pending : Pending

structure Broker where
  coordinator : Coordinator
  /-- The clients; their numbers count from one. -/
  clients : List Client
  /-- All events so far, in order. -/
  published : List Event
  work : Option Work

namespace Broker

def opened (coordinator : Coordinator) : Broker :=
  ⟨coordinator, [], [], none⟩

def client? (b : Broker) (number : Nat) : Option Client :=
  if number = 0 then none else b.clients[number - 1]?

def setClient (b : Broker) (number : Nat) (client : Client) : Broker :=
  { b with clients := b.clients.set (number - 1) client }

def publish (b : Broker) (client : Nat) (id : Option Json) (body : EventBody) : Broker :=
  { b with published := b.published ++ [⟨b.published.length + 1, client, id, body⟩] }

/-- An event is published under the number that follows that of the last one. -/
theorem published_publish (b : Broker) (client : Nat) (id : Option Json) (body : EventBody) :
    (b.publish client id body).published =
      b.published ++ [⟨b.published.length + 1, client, id, body⟩] := rfl

/-! ### Serving queues -/

/-- Publishes an answer, or remembers the work that has to come first. -/
def conclude (b : Broker) (client : Nat) (id : Option Json) (progress : Progress × Coordinator) :
    Broker :=
  let b := { b with coordinator := progress.2 }
  match progress.1 with
  | .answered body => b.publish client id body
  | .pending pending => { b with work := some ⟨client, id, pending⟩ }

/-- Serves one message. -/
def serveOne (b : Broker) (client : Nat) : Inbound → Broker
  | .undecodable message => b.publish client message.id (.failed message.failure)
  | .request envelope => b.conclude client envelope.id (b.coordinator.handle envelope.request)

/-- Serves messages of a client until one has to wait; the rest stays in the queue. -/
def serveAll (b : Broker) (number : Nat) (client : Client) : List Inbound → Broker
  | [] => b.setClient number { client with queue := [] }
  | message :: rest =>
      match b.work with
      | none => (b.serveOne number message).serveAll number client rest
      | some work =>
          if work.client = number then b.setClient number { client with queue := message :: rest }
          else (b.serveOne number message).serveAll number client rest

/-- Serves what a client has in its queue. -/
def drain (b : Broker) (number : Nat) : Broker :=
  match b.client? number with
  | some client => b.serveAll number client client.queue
  | none => b

/-! ### Clients come, send and go -/

/-- Connects a client; the result is its number. -/
def connect (b : Broker) : Nat × Broker :=
  (b.clients.length + 1, { b with clients := b.clients ++ [⟨true, []⟩] })

/-- Lets a client go. What is in its queue is still answered. -/
def disconnect (b : Broker) (number : Nat) : Broker :=
  match b.client? number with
  | some client => b.setClient number { client with connected := false }
  | none => b

/-- Puts a message into the queue of a client, if there is room. -/
def enqueue (b : Broker) (number : Nat) (client : Client) (message : Inbound) : Broker :=
  if client.queue.length < b.coordinator.settings.queueDepth then
    (b.setClient number { client with queue := client.queue ++ [message] }).drain number
  else b.publish number message.id (.failed .queueFull)

/-! ### The end of work -/

/-- Answers the request that work was done for, and goes on with the queue behind it. -/
def endWork (b : Broker) (work : Work) (progress : Progress × Coordinator) : Broker :=
  (({ b with work := none }).conclude work.client work.id progress).drain work.client

/-- Ends the process that runs; the function says how, by the program that was started. The result
tells whether there was one. -/
def endProcess (b : Broker) (outcome : Spawn → Except Failure ProcessOutput) : Bool × Broker :=
  match b.work with
  | some ⟨client, id, .process activity spawn⟩ =>
      (true, b.endWork ⟨client, id, .process activity spawn⟩
        (b.coordinator.endProcess activity (outcome spawn)))
  | _ => (false, b)

/-- Lets the module that waits for its seal have it. The result tells whether there was one. -/
def releaseSeal (b : Broker) : Bool × Broker :=
  match b.work with
  | some ⟨client, id, .sealing s⟩ =>
      (true, b.endWork ⟨client, id, .sealing s⟩ (b.coordinator.finishSealing s))
  | _ => (false, b)

/-- The broker with the compilation that waits changed, if there is one. -/
def changeSealing (b : Broker) (change : Sealing → Sealing) : Broker :=
  match b.work with
  | some ⟨client, id, .sealing s⟩ => { b with work := some ⟨client, id, .sealing (change s)⟩ }
  | _ => b

def elapse (b : Broker) (milliseconds : Nat) : Broker :=
  b.changeSealing fun s => { s with waited := s.waited + milliseconds }

/-- Carries signals out: what waits is cancelled, or killed and so ended. -/
def obey (b : Broker) (signals : Occupation.Signals) : Broker :=
  let b :=
    if signals.cancelled.isSome then b.changeSealing fun s => { s with cancelled := true } else b
  if signals.killed.isSome then (b.endProcess fun spawn => .error (.killed spawn.program)).2 else b

/-! ### Messages -/

/-- Stops what the session is busy with; the answer is published before what follows from it. -/
def terminateFor (b : Broker) (number : Nat) (id : Option Json) : Broker :=
  let (signals, outcome, coordinator) := b.coordinator.terminate
  let b : Broker := { b with coordinator := coordinator }
  (b.publish number id (.terminateResult outcome)).obey signals

/-- Takes one message of a client. -/
def dispatch (b : Broker) (number : Nat) (line : String) : Broker :=
  match b.client? number with
  | none => b
  | some client =>
      if !client.connected then b
      else
        match decode line with
        | .error message => b.enqueue number client (.undecodable message)
        | .ok envelope =>
            if envelope.request = .terminate then b.terminateFor number envelope.id
            else b.enqueue number client (.request envelope)

/-- Stops what the session is busy with, without a client. -/
def terminate (b : Broker) : TerminateOutcome × Broker :=
  let (signals, outcome, coordinator) := b.coordinator.terminate
  (outcome, ({ b with coordinator := coordinator }).obey signals)

def shutdown (b : Broker) : TerminateOutcome × Broker :=
  let (signals, outcome, coordinator) := b.coordinator.shutdown
  (outcome, ({ b with coordinator := coordinator }).obey signals)

end Broker

end Workbench.Session
