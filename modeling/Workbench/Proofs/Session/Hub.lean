import Workbench.Session.Broker

/-!
# Messages and answers on their way

Clients send lines, each into the queue of its client if there is room. Behind each queue a worker
takes one message after another, works out its answer, and publishes it. A request to terminate is
not queued, and a message that finds its queue full is not either; the task that sent such a message
publishes the answer itself. Workers, tasks and those who listen go on independently, so a hub goes
from step to step in any order. To publish is one step, as it happens under a lock.

What the work of a request comes to is left open here.
-/

namespace Workbench.Session

/-! ### Messages -/

namespace Inbound

/-- What a line says. -/
def ofLine (line : String) : Inbound :=
  match decode line with
  | .ok envelope => .request envelope
  | .error message => .undecodable message

def isTerminate : Inbound → Bool
  | .request envelope => envelope.request = .terminate
  | .undecodable _ => false

/-- The answers that a worker may give to a message. -/
inductive Yields : Inbound → EventBody → Prop
  | request (envelope : Envelope) (body : EventBody) : Yields (.request envelope) body
  | undecodable (message : Undecodable) : Yields (.undecodable message) (.failed message.failure)

/-- The answers that a message may get which does not come into its queue. -/
inductive Bounces : Inbound → EventBody → Prop
  | terminated {message : Inbound} (outcome : TerminateOutcome) :
      message.isTerminate = true → Bounces message (.terminateResult outcome)
  | full {message : Inbound} : message.isTerminate = false → Bounces message (.failed .queueFull)

end Inbound

/-- A message that has been sent. -/
structure Message where
  /-- How many messages were sent before it, by whatever client. -/
  number : Nat
  client : Nat
  line : String
  /-- Whether it came into its queue. -/
  queued : Bool
  deriving DecidableEq, Repr

namespace Message

def inbound (m : Message) : Inbound :=
  .ofLine m.line

/-- Whether it came into the queue of a client. -/
def isQueuedBy (client : Nat) (m : Message) : Bool :=
  m.queued && m.client == client

/-- Whether it passed by its queue. -/
def isAside (m : Message) : Bool :=
  !m.queued

/-- The answers that it may get. -/
def Admits (m : Message) (body : EventBody) : Prop :=
  if m.queued then m.inbound.Yields body else m.inbound.Bounces body

/-- Whether an event answers it. -/
def IsAnsweredBy (m : Message) (e : Event) : Prop :=
  e.client = m.client ∧ e.id = m.inbound.id ∧ m.Admits e.body

end Message

/-! ### Hubs -/

inductive Worker where
  | idle
  | serving (message : Message)
  | answering (message : Message) (body : EventBody)

/-- The message that a worker has taken and not answered yet. -/
def Worker.message? : Worker → Option Message
  | idle => none
  | serving m | answering m _ => some m

/-- What belongs to a client. -/
structure Seat where
  /-- Whether the client can still send. -/
  connected : Bool
  queue : List Message
  worker : Worker

/-- The messages in the queue and the one taken from it, in their order. -/
def Seat.pending (s : Seat) : List Message :=
  s.worker.message?.toList ++ s.queue

/-- An answer that a sending task is about to publish. -/
structure Notice where
  message : Message
  body : EventBody

/-- An event with the message that it answers. -/
structure Answer where
  message : Message
  event : Event

/-- Somebody who listens to the events. -/
structure Reader where
  /-- How many events lie behind it: those it has received, and those from before it came. -/
  cursor : Nat
  received : List Event
  /-- Whether it has missed any. -/
  lagged : Bool

structure Hub where
  /-- How many messages a queue holds. -/
  depth : Nat
  /-- How many events are kept for those who have not received them yet. -/
  buffer : Nat
  /-- All messages so far, in order. -/
  sent : List Message
  /-- The number of clients; they count from one. -/
  clients : Nat
  seat : Nat → Seat
  notices : List Notice
  /-- All answers so far, in order. -/
  log : List Answer
  readers : List Reader

namespace Hub

def opened (depth buffer : Nat) : Hub :=
  ⟨depth, buffer, [], 0, fun _ => ⟨false, [], .idle⟩, [], [], []⟩

/-- The messages that have been answered, in the order of their answers. -/
def answered (w : Hub) : List Message :=
  w.log.map (·.message)

/-- The events so far. -/
def events (w : Hub) : List Event :=
  w.log.map (·.event)

def sit (w : Hub) (c : Nat) (s : Seat) : Hub :=
  { w with seat := fun d => if d = c then s else w.seat d }

/-- A client connects. -/
def connect (w : Hub) : Hub :=
  { w.sit (w.clients + 1) ⟨true, [], .idle⟩ with clients := w.clients + 1 }

/-- Somebody listens to the events from now on. -/
def subscribe (w : Hub) : Hub :=
  { w with readers := w.readers ++ [⟨w.log.length, [], false⟩] }

/-- The next message, if it is this one. -/
def next (w : Hub) (c : Nat) (line : String) (queued : Bool) : Message :=
  ⟨w.sent.length, c, line, queued⟩

/-- A message comes into the queue of its client. -/
def enqueue (w : Hub) (c : Nat) (line : String) : Hub :=
  let m := w.next c line true
  { w.sit c { w.seat c with queue := (w.seat c).queue ++ [m] } with sent := w.sent ++ [m] }

/-- A message passes by the queue of its client. -/
def bounce (w : Hub) (c : Nat) (line : String) (body : EventBody) : Hub :=
  let m := w.next c line false
  { w with sent := w.sent ++ [m], notices := w.notices ++ [⟨m, body⟩] }

/-- Publishes the answer of a message for a client. -/
def publish (w : Hub) (m : Message) (c : Nat) (body : EventBody) : Hub :=
  { w with log := w.log ++ [⟨m, ⟨w.log.length + 1, c, m.inbound.id, body⟩⟩] }

/-- The task that sent a message publishes the answer; the other notices stay. -/
def announce (w : Hub) (n : Notice) (others : List Notice) : Hub :=
  { w.publish n.message n.message.client n.body with notices := others }

/-- A worker publishes an answer. -/
def conclude (w : Hub) (c : Nat) (m : Message) (body : EventBody) : Hub :=
  (w.sit c { w.seat c with worker := .idle }).publish m c body

def setReader (w : Hub) (i : Nat) (r : Reader) : Hub :=
  { w with readers := w.readers.set i r }

section

variable (w : Hub) (c : Nat) (m : Message) (line : String) (body : EventBody)

@[simp] theorem seat_sit_self (s : Seat) : (w.sit c s).seat c = s := by simp [sit]

theorem seat_sit_of_ne (s : Seat) {d : Nat} (h : d ≠ c) : (w.sit c s).seat d = w.seat d := by
  simp [sit, h]

@[simp] theorem sent_connect : w.connect.sent = w.sent := rfl
@[simp] theorem answered_connect : w.connect.answered = w.answered := rfl

theorem seat_connect_self : w.connect.seat (w.clients + 1) = ⟨true, [], .idle⟩ :=
  seat_sit_self ..

theorem seat_connect_of_ne {d : Nat} (h : d ≠ w.clients + 1) : w.connect.seat d = w.seat d :=
  seat_sit_of_ne _ _ _ h

@[simp] theorem sent_enqueue : (w.enqueue c line).sent = w.sent ++ [w.next c line true] := rfl
@[simp] theorem answered_enqueue : (w.enqueue c line).answered = w.answered := rfl
@[simp] theorem notices_enqueue : (w.enqueue c line).notices = w.notices := rfl

theorem seat_enqueue_self : (w.enqueue c line).seat c =
    { w.seat c with queue := (w.seat c).queue ++ [w.next c line true] } :=
  seat_sit_self ..

theorem seat_enqueue_of_ne {d : Nat} (h : d ≠ c) : (w.enqueue c line).seat d = w.seat d :=
  seat_sit_of_ne _ _ _ h

@[simp] theorem sent_bounce : (w.bounce c line body).sent = w.sent ++ [w.next c line false] := rfl
@[simp] theorem answered_bounce : (w.bounce c line body).answered = w.answered := rfl
@[simp] theorem seat_bounce : (w.bounce c line body).seat = w.seat := rfl

@[simp] theorem notices_bounce :
    (w.bounce c line body).notices = w.notices ++ [⟨w.next c line false, body⟩] := rfl

@[simp] theorem length_events : w.events.length = w.log.length := by simp [events]

@[simp] theorem answered_publish : (w.publish m c body).answered = w.answered ++ [m] := by
  simp [publish, answered]

theorem events_publish : (w.publish m c body).events =
    w.events ++ [⟨w.events.length + 1, c, m.inbound.id, body⟩] := by
  rw [length_events]
  simp [publish, events]

@[simp] theorem events_setReader (i : Nat) (r : Reader) : (w.setReader i r).events = w.events :=
  rfl

section

variable (n : Notice) (others : List Notice)

@[simp] theorem sent_announce : (w.announce n others).sent = w.sent := rfl
@[simp] theorem seat_announce : (w.announce n others).seat = w.seat := rfl
@[simp] theorem notices_announce : (w.announce n others).notices = others := rfl

@[simp] theorem answered_announce : (w.announce n others).answered = w.answered ++ [n.message] :=
  answered_publish ..

end

@[simp] theorem sent_conclude : (w.conclude c m body).sent = w.sent := rfl
@[simp] theorem notices_conclude : (w.conclude c m body).notices = w.notices := rfl

@[simp] theorem answered_conclude : (w.conclude c m body).answered = w.answered ++ [m] :=
  answered_publish ..

theorem seat_conclude_self : (w.conclude c m body).seat c = { w.seat c with worker := .idle } :=
  seat_sit_self ..

theorem seat_conclude_of_ne {d : Nat} (h : d ≠ c) : (w.conclude c m body).seat d = w.seat d :=
  seat_sit_of_ne _ _ _ h

end

/-! ### Steps -/

/-- The steps of a hub. -/
inductive Takes (w : Hub) : Hub → Prop
  | connect : Takes w w.connect
  | subscribe : Takes w w.subscribe
  | disconnect (c : Nat) : Takes w (w.sit c { w.seat c with connected := false })
  | enqueue {c : Nat} (line : String) :
      (w.seat c).connected = true → (Inbound.ofLine line).isTerminate = false →
      (w.seat c).queue.length < w.depth → Takes w (w.enqueue c line)
  | reject {c : Nat} (line : String) :
      (w.seat c).connected = true → (Inbound.ofLine line).isTerminate = false →
      w.depth ≤ (w.seat c).queue.length → Takes w (w.bounce c line (.failed .queueFull))
  | terminate {c : Nat} (line : String) (outcome : TerminateOutcome) :
      (w.seat c).connected = true → (Inbound.ofLine line).isTerminate = true →
      Takes w (w.bounce c line (.terminateResult outcome))
  | announce (before : List Notice) {after : List Notice} {n : Notice} :
      w.notices = before ++ n :: after → Takes w (w.announce n (before ++ after))
  | take {c : Nat} {m : Message} {rest : List Message} :
      (w.seat c).worker = .idle → (w.seat c).queue = m :: rest →
      Takes w (w.sit c { w.seat c with queue := rest, worker := .serving m })
  | serve {c : Nat} {m : Message} {body : EventBody} :
      (w.seat c).worker = .serving m → m.inbound.Yields body →
      Takes w (w.sit c { w.seat c with worker := .answering m body })
  | conclude {c : Nat} {m : Message} {body : EventBody} :
      (w.seat c).worker = .answering m body → Takes w (w.conclude c m body)
  | receive {i : Nat} {r : Reader} {e : Event} :
      w.readers[i]? = some r → w.events.length ≤ r.cursor + w.buffer →
      w.events[r.cursor]? = some e →
      Takes w (w.setReader i { r with cursor := r.cursor + 1, received := r.received ++ [e] })
  /-- The next event is not kept any more; the reader goes on with the oldest that is. -/
  | lag {i : Nat} {r : Reader} :
      w.readers[i]? = some r → r.cursor + w.buffer < w.events.length →
      Takes w (w.setReader i { r with cursor := w.events.length - w.buffer, lagged := true })

/-- What some steps lead to. -/
inductive Leads (w : Hub) : Hub → Prop
  | refl : Leads w w
  | snoc {w₁ w₂ : Hub} : Leads w w₁ → Takes w₁ w₂ → Leads w w₂

/-- What can become of a hub from its opening on. -/
def Run (w : Hub) : Prop :=
  ∃ depth buffer, Leads (opened depth buffer) w

/-- Nothing is on its way any more. -/
structure Drained (w : Hub) : Prop where
  pending : ∀ c, (w.seat c).pending = []
  notices : w.notices = []

theorem Leads.trans {w w₁ w₂ : Hub} (first : Leads w w₁) (second : Leads w₁ w₂) :
    Leads w w₂ := by
  induction second with
  | refl => exact first
  | snoc _ takes ih => exact ih.snoc takes

theorem Leads.single {w w' : Hub} (h : Takes w w') : Leads w w' :=
  Leads.refl.snoc h

theorem Run.leads {w w' : Hub} (run : Run w) (leads : Leads w w') : Run w' := by
  obtain ⟨depth, buffer, first⟩ := run
  exact ⟨depth, buffer, first.trans leads⟩

end Hub

end Workbench.Session
