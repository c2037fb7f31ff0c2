import Workbench.Proofs.Session.Answers
import Workbench.Proofs.Session.Serving

/-!
# Brokers as hubs

A broker does at once what a hub does in steps: it goes on with a queue as long as it can, and only
work that waits keeps a worker from its next message. So whatever is done with a broker is a run of
a hub, and what holds of all runs holds of its messages and events.
-/

namespace Workbench.Session

namespace Hub

variable {w : Hub} {c : Nat} {m : Message} {body : EventBody}

theorem sit_sit (w : Hub) (c : Nat) (s s' : Seat) : (w.sit c s).sit c s' = w.sit c s' := by
  have same : (fun d => if d = c then s' else (w.sit c s).seat d) =
      fun d => if d = c then s' else w.seat d := by
    funext d
    by_cases h : d = c
    · simp [h]
    · simp [h, seat_sit_of_ne]
  simp only [sit] at same ⊢
  rw [same]

/-- A worker answers the message that it has taken. -/
theorem leads_answer (serving : (w.seat c).worker = .serving m) (yields : m.inbound.Yields body) :
    Leads w ((w.sit c { w.seat c with worker := .idle }).publish m c body) := by
  have served := Leads.single (.serve serving yields)
  have concluded := served.snoc (.conclude (by rw [seat_sit_self]))
  rw [conclude, seat_sit_self, sit_sit] at concluded
  exact concluded

/-- A worker takes a message and answers it. -/
theorem leads_take_answer {rest : List Message} (idle : (w.seat c).worker = .idle)
    (queue : (w.seat c).queue = m :: rest) (yields : m.inbound.Yields body) :
    Leads w ((w.sit c { w.seat c with queue := rest }).publish m c body) := by
  have taken := Leads.single (.take idle queue)
  have answered := taken.trans (leads_answer (by rw [seat_sit_self]) yields)
  rw [seat_sit_self, sit_sit, ← idle] at answered
  exact answered

end Hub

namespace Broker

open Hub (Leads Run)

variable {b : Broker} {w w' : Hub} {n : Nat} {client : Client} {body : EventBody}

/-! ### Clients -/

theorem client?_eq_some : b.client? n = some client ↔ n ≠ 0 ∧ b.clients[n - 1]? = some client := by
  unfold client?
  split <;> simp_all

theorem client?_setClient (there : b.client? n = some client) (changed : Client) (d : Nat) :
    (b.setClient n changed).client? d = if d = n then some changed else b.client? d := by
  obtain ⟨pos, there⟩ := client?_eq_some.1 there
  obtain ⟨inside, -⟩ := List.getElem?_eq_some_iff.1 there
  by_cases zero : d = 0
  · subst zero
    simp [client?, Ne.symm pos]
  · by_cases same : d = n
    · subst same
      simp [client?, setClient, zero, inside]
    · have other : n - 1 ≠ d - 1 := by omega
      simp [client?, setClient, zero, same, other]

theorem setClient_self (there : b.client? n = some client) : b.setClient n client = b := by
  obtain ⟨-, there⟩ := client?_eq_some.1 there
  obtain ⟨inside, rfl⟩ := List.getElem?_eq_some_iff.1 there
  simp [setClient]

theorem client?_connect (b : Broker) (d : Nat) : b.connect.2.client? d =
    if d = b.clients.length + 1 then some ⟨true, []⟩ else b.client? d := by
  by_cases zero : d = 0
  · subst zero
    simp [client?]
  · by_cases same : d = b.clients.length + 1
    · subst same
      simp [client?, connect]
    · by_cases inside : d - 1 < b.clients.length
      · simp [client?, connect, zero, same, List.getElem?_append_left inside]
      · have absent : b.clients[d - 1]? = none := List.getElem?_eq_none (by omega)
        have beyond : (b.clients ++ [⟨true, []⟩])[d - 1]? = none :=
          List.getElem?_eq_none (by simp; omega)
        simp only [client?, connect, zero, same, if_false, absent, beyond]

/-! ### What a broker shows of a hub -/

/-- The hub is where the broker is. A worker serves a request exactly if work of its client waits.
-/
structure Shows (b : Broker) (w : Hub) : Prop where
  depth : w.depth = b.coordinator.settings.queueDepth
  clients : w.clients = b.clients.length
  events : w.events = b.published
  notices : w.notices = []
  seats : ∀ n client, b.client? n = some client →
    (w.seat n).connected = client.connected ∧ (w.seat n).queue.map (·.inbound) = client.queue
  idle : ∀ n, (∀ work, b.work = some work → work.client ≠ n) → (w.seat n).worker = .idle
  serving : ∀ work, b.work = some work → ∃ m envelope,
    (w.seat work.client).worker = .serving m ∧ m.inbound = .request envelope ∧
      envelope.id = work.id
  busy : ∀ work, b.work = some work → b.coordinator.session.state ≠ .idle

/-- The hub can come to where the broker is. -/
def Follows (w : Hub) (b : Broker) : Prop :=
  ∃ w', Leads w w' ∧ Shows b w'

theorem Shows.follows (shows : Shows b w) : Follows w b :=
  ⟨w, .refl, shows⟩

theorem Follows.bind {b' : Broker} (follows : Follows w b)
    (next : ∀ w', Shows b w' → Follows w' b') : Follows w b' := by
  obtain ⟨w₁, first, shows⟩ := follows
  obtain ⟨w₂, second, shows⟩ := next w₁ shows
  exact ⟨w₂, first.trans second, shows⟩

theorem shows_opened (coordinator : Coordinator) (buffer : Nat) :
    Shows (opened coordinator) (.opened coordinator.settings.queueDepth buffer) where
  depth := rfl
  clients := rfl
  events := rfl
  notices := rfl
  seats n client h := by simp [opened, client?] at h
  idle _ _ := rfl
  serving _ h := by cases h
  busy _ h := by cases h

/-! ### Clients come and go -/

theorem Shows.connect (shows : Shows b w) (run : Run w) : Follows w b.connect.2 := by
  refine ⟨w.connect, .single .connect, ?_⟩
  have clients := shows.clients
  refine { shows with clients := ?clients, seats := ?seats, idle := ?idle, serving := ?serving }
  case clients => simp [Hub.connect, Broker.connect, clients]
  case seats =>
    intro n client there
    rw [client?_connect, ← clients] at there
    by_cases new : n = w.clients + 1
    · subst new
      simp only [if_pos, Option.some.injEq] at there
      subst there
      rw [Hub.seat_connect_self]
      exact ⟨rfl, rfl⟩
    · rw [if_neg new] at there
      rw [Hub.seat_connect_of_ne _ new]
      exact shows.seats n client there
  case idle =>
    intro n free
    by_cases new : n = w.clients + 1
    · subst new
      rw [Hub.seat_connect_self]
    · rw [Hub.seat_connect_of_ne _ new]
      exact shows.idle n free
  case serving =>
    intro work waits
    obtain ⟨m, envelope, serving, request⟩ := shows.serving work waits
    -- A worker that is busy belongs to a client that is there.
    have old : work.client ≠ w.clients + 1 := by
      intro new
      have fresh := (run.inv.fresh work.client (by omega)).2
      simp [Seat.pending, serving, Worker.message?] at fresh
    rw [Hub.seat_connect_of_ne _ old]
    exact ⟨m, envelope, serving, request⟩

/-- A client may change as its seat does. -/
theorem Shows.sit (shows : Shows b w) (there : b.client? n = some client) (changed : Client)
    (s : Seat) (worker : s.worker = (w.seat n).worker)
    (fits : s.connected = changed.connected ∧ s.queue.map (·.inbound) = changed.queue) :
    Shows (b.setClient n changed) (w.sit n s) := by
  have workers : ∀ d, ((w.sit n s).seat d).worker = (w.seat d).worker := by
    intro d
    by_cases same : d = n
    · subst same
      rw [Hub.seat_sit_self, worker]
    · rw [Hub.seat_sit_of_ne _ _ _ same]
  refine { shows with clients := ?clients, seats := ?seats, idle := ?idle, serving := ?serving }
  case clients => simp [Hub.sit, setClient, shows.clients]
  case seats =>
    intro d client' there'
    rw [client?_setClient there] at there'
    by_cases same : d = n
    · subst same
      simp only [if_pos, Option.some.injEq] at there'
      subst there'
      rw [Hub.seat_sit_self]
      exact fits
    · rw [if_neg same] at there'
      rw [Hub.seat_sit_of_ne _ _ _ same]
      exact shows.seats d client' there'
  case idle =>
    intro d free
    rw [workers]
    exact shows.idle d free
  case serving =>
    intro work waits
    rw [workers]
    exact shows.serving work waits

theorem Shows.disconnect (shows : Shows b w) (n : Nat) : Follows w (b.disconnect n) := by
  unfold Broker.disconnect
  split
  · next client there =>
      refine ⟨_, .single (.disconnect n), shows.sit there _ _ rfl ⟨rfl, ?_⟩⟩
      exact (shows.seats n client there).2
  · exact shows.follows

/-! ### Single changes -/

theorem Shows.publish (shows : Shows b w) (n : Nat) (m : Message) (body : EventBody) :
    Shows (b.publish n m.inbound.id body) (w.publish m n body) := by
  refine { shows with events := ?events }
  rw [Hub.events_publish, published_publish, shows.events]

theorem Shows.coordinator (shows : Shows b w) {c : Coordinator}
    (settings : c.settings = b.coordinator.settings)
    (busy : ∀ work, b.work = some work → c.session.state ≠ .idle) :
    Shows { b with coordinator := c } w := by
  refine { shows with depth := ?depth, busy := busy }
  rw [shows.depth, settings]

/-- Work begins to wait. -/
theorem Shows.beginWork (shows : Shows b w) (none : b.work = none) {m : Message}
    {envelope : Envelope} (request : m.inbound = .request envelope) (pending : Pending)
    (busy : b.coordinator.session.state ≠ .idle) :
    Shows { b with work := some ⟨n, envelope.id, pending⟩ }
      (w.sit n { w.seat n with worker := .serving m }) := by
  refine { shows with seats := ?seats, idle := ?idle, serving := ?serving, busy := fun _ _ => busy }
  case seats =>
    intro d client there
    by_cases same : d = n
    · subst same
      rw [Hub.seat_sit_self]
      exact shows.seats d client there
    · rw [Hub.seat_sit_of_ne _ _ _ same]
      exact shows.seats d client there
  case idle =>
    intro d free
    rw [Hub.seat_sit_of_ne _ _ _ (Ne.symm (free _ rfl))]
    exact shows.idle d fun work waits => by simp [none] at waits
  case serving =>
    rintro _ ⟨⟩
    exact ⟨m, envelope, by rw [Hub.seat_sit_self], request, rfl⟩

/-- Work comes to its end. -/
theorem Shows.dropWork (shows : Shows b w) {work : Work} (waits : b.work = some work) :
    Shows { b with work := none }
      (w.sit work.client { w.seat work.client with worker := .idle }) := by
  refine { shows with seats := ?seats, idle := ?idle, serving := ?serving, busy := ?busy }
  case seats =>
    intro d client there
    by_cases same : d = work.client
    · subst same
      rw [Hub.seat_sit_self]
      exact shows.seats _ client there
    · rw [Hub.seat_sit_of_ne _ _ _ same]
      exact shows.seats d client there
  case idle =>
    intro d _
    by_cases same : d = work.client
    · subst same
      rw [Hub.seat_sit_self]
    · rw [Hub.seat_sit_of_ne _ _ _ same]
      refine shows.idle d fun work' waits' => ?_
      obtain rfl := Option.some.inj (waits.symm.trans waits')
      exact Ne.symm same
  case serving => exact fun _ h => by cases h
  case busy => exact fun _ h => by cases h

/-! ### Queues -/

section

variable {message : Inbound} {rest : List Inbound} (there : b.client? n = some client)
  (shows : Shows (b.setClient n { client with queue := message :: rest }) w)

include there shows

/-- The first message of a queue can be taken. -/
theorem Shows.take : ∃ m rest', (w.seat n).queue = m :: rest' ∧ m.inbound = message ∧
    Shows (b.setClient n { client with queue := rest })
      (w.sit n { w.seat n with queue := rest' }) := by
  have there₁ := client?_setClient there { client with queue := message :: rest } n
  rw [if_pos rfl] at there₁
  obtain ⟨connected, queue⟩ := shows.seats n _ there₁
  obtain ⟨m, rest', split, reads, rest_eq⟩ := List.map_eq_cons_iff.1 queue
  have sat := shows.sit there₁ { client with queue := rest } { w.seat n with queue := rest' } rfl
    ⟨connected, rest_eq⟩
  exact ⟨m, rest', split, reads, by simpa [setClient] using sat⟩

/-- The first message of a queue is answered at once. -/
theorem Shows.answerFirst (free : ∀ work, b.work = some work → work.client ≠ n)
    (yields : message.Yields body) {c : Coordinator}
    (settings : c.settings = b.coordinator.settings)
    (busy : ∀ work, b.work = some work → c.session.state ≠ .idle) :
    Follows w ((({ b with coordinator := c } : Broker).publish n message.id body).setClient n
      { client with queue := rest }) := by
  obtain ⟨m, rest', split, rfl, left⟩ := shows.take there
  exact ⟨_, Hub.leads_take_answer (shows.idle n free) split yields,
    (left.coordinator settings busy).publish n m body⟩

/-- Work for the first message of a queue begins to wait. -/
theorem Shows.waitForFirst (none : b.work = none) {envelope : Envelope}
    (request : message = .request envelope) (pending : Pending) {c : Coordinator}
    (settings : c.settings = b.coordinator.settings) (busy : c.session.state ≠ .idle) :
    Follows w (({ b with coordinator := c, work := some ⟨n, envelope.id, pending⟩ } :
      Broker).setClient n { client with queue := rest }) := by
  obtain ⟨m, rest', split, rfl, left⟩ := shows.take there
  have idle := shows.idle n fun work waits => by
    have waits : b.work = some work := waits
    rw [none] at waits
    cases waits
  have waiting := (left.coordinator settings fun _ _ => busy).beginWork (n := n) none request
    pending busy
  rw [Hub.seat_sit_self, Hub.sit_sit] at waiting
  exact ⟨_, .single (.take idle split), waiting⟩

/-- The first message of a queue is served; the rest stays behind it. -/
theorem Shows.serveOne (free : ∀ work, b.work = some work → work.client ≠ n) :
    Follows w ((b.serveOne n message).setClient n { client with queue := rest }) := by
  cases message with
  | undecodable u => exact shows.answerFirst there free (.undecodable u) rfl shows.busy
  | request envelope =>
      have serves := Coordinator.serves_handle b.coordinator envelope.request
      have busy_answers : ∀ work, b.work = some work → ∃ body,
          (b.coordinator.handle envelope.request).1 = .answered body ∧
            (b.coordinator.handle envelope.request).2.session.state =
              b.coordinator.session.state :=
        fun work waits => Coordinator.handle_of_busy (shows.busy work waits) envelope.request
      cases progress : (b.coordinator.handle envelope.request).1 with
      | answered body =>
          have follows := shows.answerFirst there free (.request envelope body)
            serves.settings fun work waits => by
              obtain ⟨_, _, state⟩ := busy_answers work waits
              rw [state]
              exact shows.busy work waits
          simpa [Broker.serveOne, conclude, progress, Inbound.id] using follows
      | pending pending =>
          have none : b.work = none := by
            rw [Option.eq_none_iff_forall_ne_some]
            intro work waits
            obtain ⟨_, answers, _⟩ := busy_answers work waits
            rw [progress] at answers
            cases answers
          have follows := shows.waitForFirst there none rfl pending serves.settings
            (serves.busy pending progress)
          simpa [Broker.serveOne, conclude, progress] using follows

end

theorem clients_serveOne (b : Broker) (n : Nat) (message : Inbound) :
    (b.serveOne n message).clients = b.clients := by
  cases message with
  | undecodable => rfl
  | request envelope =>
      simp only [Broker.serveOne, conclude]
      split <;> rfl

theorem Shows.serveAll {messages : List Inbound} (there : b.client? n = some client)
    (shows : Shows (b.setClient n { client with queue := messages }) w) :
    Follows w (b.serveAll n client messages) := by
  induction messages generalizing b w with
  | nil => exact shows.follows
  | cons message rest ih =>
      have serve : (∀ work, b.work = some work → work.client ≠ n) →
          Follows w ((b.serveOne n message).serveAll n client rest) := by
        intro free
        refine (shows.serveOne there free).bind fun w' shows' => ih ?_ shows'
        rw [client?, clients_serveOne]
        exact there
      unfold Broker.serveAll
      split
      · next none => exact serve fun work waits => by simp [none] at waits
      · next work waits =>
          split
          · exact shows.follows
          · next other =>
              refine serve fun work' waits' => ?_
              obtain rfl := Option.some.inj (waits.symm.trans waits')
              exact other

theorem Shows.drain (shows : Shows b w) (n : Nat) : Follows w (b.drain n) := by
  unfold Broker.drain
  split
  · next client there =>
      refine Shows.serveAll there ?_
      rw [setClient_self there]
      exact shows
  · exact shows.follows

/-- A message that passes by its queue is answered at once. -/
theorem Shows.bounce (shows : Shows b w) {line : String} {body : EventBody}
    (bounces : Hub.Takes w (w.bounce n line body)) :
    Follows w (b.publish n (Inbound.ofLine line).id body) := by
  let m := w.next n line false
  have noticed : (w.bounce n line body).notices = [] ++ ⟨m, body⟩ :: [] := by
    rw [Hub.notices_bounce, shows.notices]
  refine ⟨_, (Leads.single bounces).snoc (.announce [] noticed), ?_⟩
  have published := shows.publish n m body
  exact { published with notices := rfl }

theorem Shows.enqueue (shows : Shows b w) (there : b.client? n = some client)
    (connected : client.connected = true) (line : String)
    (request : (Inbound.ofLine line).isTerminate = false) :
    Follows w (b.enqueue n client (.ofLine line)) := by
  obtain ⟨connected_eq, queue⟩ := shows.seats n client there
  have sends : (w.seat n).connected = true := connected_eq.trans connected
  have length : (w.seat n).queue.length = client.queue.length := by
    rw [← queue, List.length_map]
  unfold Broker.enqueue
  split
  · next room =>
      refine Follows.bind ⟨w.enqueue n line, ?_, ?_⟩ fun w' shows' => shows'.drain n
      · refine .single (.enqueue line sends request ?_)
        rw [length, shows.depth]
        exact room
      · have sat := shows.sit there { client with queue := client.queue ++ [.ofLine line] }
          { w.seat n with queue := (w.seat n).queue ++ [w.next n line true] } rfl
          ⟨connected_eq, by rw [List.map_append, queue]; rfl⟩
        exact { sat with }
  · next full =>
      refine shows.bounce (.reject line sends request ?_)
      rw [length, shows.depth]
      exact Nat.le_of_not_lt full

/-! ### The end of work -/

theorem Shows.endWork (shows : Shows b w) {work : Work} (waits : b.work = some work)
    {progress : Progress × Coordinator} (answers : b.coordinator.Answers progress) :
    Follows w (b.endWork work progress) := by
  obtain ⟨body, answered⟩ := answers.answered
  obtain ⟨m, envelope, serving, reads, id⟩ := shows.serving work waits
  have yields : m.inbound.Yields body := by
    rw [reads]
    exact .request envelope body
  have published := ((shows.dropWork waits).coordinator answers.settings
    fun _ h => by cases h).publish work.client m body
  have concluded : Follows w
      (({ b with work := none } : Broker).conclude work.client work.id progress) := by
    refine ⟨_, Hub.leads_answer serving yields, ?_⟩
    simp only [conclude, answered]
    rw [reads, Inbound.id, id] at published
    exact published
  exact concluded.bind fun w' shows' => shows'.drain work.client

theorem Shows.endProcess (shows : Shows b w) (outcome : Spawn → Except Failure ProcessOutput) :
    Follows w (b.endProcess outcome).2 := by
  unfold Broker.endProcess
  split
  · next waits => exact shows.endWork waits (Coordinator.answers_endProcess ..)
  · exact shows.follows

theorem Shows.releaseSeal (shows : Shows b w) : Follows w b.releaseSeal.2 := by
  unfold Broker.releaseSeal
  split
  · next waits => exact shows.endWork waits (Coordinator.answers_finishSealing ..)
  · exact shows.follows

/-- The compilation that waits may change, as nobody sees it. -/
theorem Shows.changeSealing (shows : Shows b w) (change : Sealing → Sealing) :
    Shows (b.changeSealing change) w := by
  unfold Broker.changeSealing
  split
  · next client id s waits =>
      refine { shows with idle := ?idle, serving := ?serving, busy := ?busy }
      case idle =>
        intro d free
        refine shows.idle d fun work waits' => ?_
        obtain rfl := Option.some.inj (waits.symm.trans waits')
        exact free ⟨client, id, .sealing (change s)⟩ rfl
      case serving =>
        rintro _ ⟨⟩
        exact shows.serving ⟨client, id, .sealing s⟩ waits
      case busy => exact fun _ _ => shows.busy ⟨client, id, .sealing s⟩ waits
  · exact shows

theorem Shows.obey (shows : Shows b w) (signals : Occupation.Signals) :
    Follows w (b.obey signals) := by
  have cancelled : Shows (if signals.cancelled.isSome then
      b.changeSealing fun s => { s with cancelled := true } else b) w := by
    split
    · exact shows.changeSealing _
    · exact shows
  unfold Broker.obey
  dsimp only
  split
  · exact cancelled.endProcess _
  · exact cancelled.follows

/-! ### What is done with a broker -/

theorem Shows.terminateFor (shows : Shows b w) (there : b.client? n = some client)
    (connected : client.connected = true) {line : String} {envelope : Envelope}
    (reads : Inbound.ofLine line = .request envelope) (request : envelope.request = .terminate) :
    Follows w (b.terminateFor n envelope.id) := by
  have sends : (w.seat n).connected = true := (shows.seats n client there).1.trans connected
  have terminates : (Inbound.ofLine line).isTerminate = true := by
    rw [reads]
    simpa [Inbound.isTerminate] using request
  have stopped := shows.coordinator (c := b.coordinator.terminate.2.2) rfl shows.busy
  have told := stopped.bounce (.terminate line b.coordinator.terminate.2.1 sends terminates)
  rw [reads] at told
  exact told.bind fun w' shows' => shows'.obey _

theorem Shows.dispatch (shows : Shows b w) (n : Nat) (line : String) :
    Follows w (b.dispatch n line) := by
  unfold Broker.dispatch
  split
  · exact shows.follows
  · next client there =>
      split
      · exact shows.follows
      · next connected =>
          have connected : client.connected = true := by simpa using connected
          split
          · next message decoded =>
              have reads : Inbound.ofLine line = .undecodable message := by
                rw [Inbound.ofLine, decoded]
              have enqueued := shows.enqueue there connected line (by rw [reads]; rfl)
              rw [reads] at enqueued
              exact enqueued
          · next envelope decoded =>
              have reads : Inbound.ofLine line = .request envelope := by
                rw [Inbound.ofLine, decoded]
              split
              · next request => exact shows.terminateFor there connected reads request
              · next request =>
                  have enqueued := shows.enqueue there connected line (by
                    rw [reads]
                    simpa [Inbound.isTerminate] using request)
                  rw [reads] at enqueued
                  exact enqueued

theorem Shows.terminate (shows : Shows b w) : Follows w b.terminate.2 :=
  (shows.coordinator (c := b.coordinator.terminate.2.2) rfl shows.busy).obey _

theorem Shows.shutdown (shows : Shows b w) : Follows w b.shutdown.2 := by
  have ended := shows.coordinator (c := b.coordinator.shutdown.2.2) rfl fun _ _ h => by cases h
  exact ended.obey _

/-- What can be done with a broker from outside. -/
inductive Deed where
  | connect
  | disconnect (client : Nat)
  | dispatch (client : Nat) (line : String)
  | endProcess (outcome : Spawn → Except Failure ProcessOutput)
  | releaseSeal
  | elapse (milliseconds : Nat)
  | terminate
  | shutdown

def after (b : Broker) : Deed → Broker
  | .connect => b.connect.2
  | .disconnect client => b.disconnect client
  | .dispatch client line => b.dispatch client line
  | .endProcess outcome => (b.endProcess outcome).2
  | .releaseSeal => b.releaseSeal.2
  | .elapse milliseconds => b.elapse milliseconds
  | .terminate => b.terminate.2
  | .shutdown => b.shutdown.2

theorem Shows.after (shows : Shows b w) (run : Run w) (deed : Deed) :
    Follows w (b.after deed) := by
  cases deed with
  | connect => exact shows.connect run
  | disconnect client => exact shows.disconnect client
  | dispatch client line => exact shows.dispatch client line
  | endProcess outcome => exact shows.endProcess outcome
  | releaseSeal => exact shows.releaseSeal
  | elapse milliseconds => exact (shows.changeSealing _).follows
  | terminate => exact shows.terminate
  | shutdown => exact shows.shutdown

/-- Whatever is done with a broker is a run of a hub. -/
theorem shows_of_deeds (coordinator : Coordinator) (deeds : List Deed) :
    ∃ w, Run w ∧ Shows (deeds.foldl after (opened coordinator)) w := by
  have onward : ∀ b w, Run w → Shows b w → ∃ w', Run w' ∧ Shows (deeds.foldl after b) w' := by
    induction deeds with
    | nil => exact fun b w run shows => ⟨w, run, shows⟩
    | cons deed rest ih =>
        intro b w run shows
        obtain ⟨w', leads, shows'⟩ := shows.after run deed
        exact ih _ w' (run.leads leads) shows'
  exact onward _ _ ⟨_, _, .refl⟩ (shows_opened coordinator 0)

/-- The events of a broker are numbered in the order in which they are published. -/
theorem published_seq (coordinator : Coordinator) (deeds : List Deed) :
    let b := deeds.foldl after (opened coordinator)
    b.published.map (·.seq) = List.range' 1 b.published.length := by
  obtain ⟨w, run, shows⟩ := shows_of_deeds coordinator deeds
  dsimp only
  rw [← shows.events]
  exact run.inv.sequence

end Broker

end Workbench.Session
