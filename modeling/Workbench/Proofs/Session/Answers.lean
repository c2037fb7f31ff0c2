import Workbench.Proofs.Session.Hub

/-!
# One answer for each message

Every message is either in a queue, with a worker, about to be answered by the task that sent it, or
answered, and it moves on from one of these to the next. So once nothing is on its way any more, the
events answer the messages one to one. A queue and its worker keep the order of the messages in the
queue, and whoever does not lag hears the events in the order of their numbers.
-/

namespace Workbench.Session.Hub

variable {w w' : Hub} {c i : Nat} {m : Message} {line : String} {body : EventBody}

/-! ### What ties messages, queues and answers together -/

structure Inv (w : Hub) : Prop where
  numbered : w.sent.map (·.number) = List.range w.sent.length
  fresh : ∀ c, w.clients < c → (w.seat c).connected = false ∧ (w.seat c).pending = []
  /-- What came into a queue has been answered in its order, up to what is pending. -/
  order : ∀ c, w.answered.filter (·.isQueuedBy c) ++ (w.seat c).pending =
    w.sent.filter (·.isQueuedBy c)
  aside : (w.answered.filter (·.isAside) ++ w.notices.map (·.message)).Perm
    (w.sent.filter (·.isAside))
  worked : ∀ c m body, (w.seat c).worker = .answering m body → m.inbound.Yields body
  noticed : ∀ n ∈ w.notices, n.message.inbound.Bounces n.body
  own : ∀ a ∈ w.log, a.message.IsAnsweredBy a.event
  sequence : w.events.map (·.seq) = List.range' 1 w.events.length

theorem inv_opened (depth buffer : Nat) : Inv (opened depth buffer) where
  numbered := rfl
  fresh := fun _ _ => ⟨rfl, rfl⟩
  order := fun _ => rfl
  aside := .refl _
  worked := by simp [opened]
  noticed := by simp [opened]
  own := by simp [opened]
  sequence := rfl

theorem Inv.queued_of_pending (inv : Inv w) (mem : m ∈ (w.seat c).pending) :
    m.queued = true ∧ m.client = c := by
  have mem : m ∈ w.sent.filter (·.isQueuedBy c) := by
    rw [← inv.order]
    exact List.mem_append_right _ mem
  simpa [Message.isQueuedBy] using (List.mem_filter.1 mem).2

theorem Inv.not_queued_of_notice (inv : Inv w) {n : Notice} (mem : n ∈ w.notices) :
    n.message.queued = false := by
  have mem : n.message ∈ w.sent.filter (·.isAside) :=
    inv.aside.mem_iff.1 (List.mem_append_right _ (List.mem_map_of_mem mem))
  simpa [Message.isAside] using (List.mem_filter.1 mem).2

/-! ### What single steps keep -/

theorem Inv.numbered_next (inv : Inv w) (c : Nat) (line : String) (queued : Bool) :
    (w.sent ++ [w.next c line queued]).map (·.number) =
      List.range (w.sent ++ [w.next c line queued]).length := by
  simp [inv.numbered, List.range_succ, next]

/-- Where one seat alone changes, it is enough to look at the worker there. -/
theorem Inv.worked_of_seat (inv : Inv w) (others : ∀ d, d ≠ c → w'.seat d = w.seat d)
    (own : ∀ m body, (w'.seat c).worker = .answering m body → m.inbound.Yields body) :
    ∀ d m body, (w'.seat d).worker = .answering m body → m.inbound.Yields body := by
  intro d m body h
  by_cases same : d = c
  · exact own m body (same ▸ h)
  · exact inv.worked d m body (others d same ▸ h)

/-- A seat may change as long as it keeps its pending messages in their order. -/
theorem Inv.sit (inv : Inv w) {s : Seat}
    (connected : s.connected = true → (w.seat c).connected = true)
    (pending : s.pending = (w.seat c).pending)
    (worked : ∀ m body, s.worker = .answering m body → m.inbound.Yields body) :
    Inv (w.sit c s) := by
  refine { inv with fresh := ?fresh, order := ?order, worked := ?worked }
  case fresh =>
    intro d above
    by_cases same : d = c
    · subst same
      have fresh := inv.fresh d above
      rw [seat_sit_self, pending]
      refine ⟨?_, fresh.2⟩
      rw [Bool.eq_false_iff]
      intro h
      simp [connected h] at fresh
    · rw [seat_sit_of_ne _ _ _ same]
      exact inv.fresh d above
  case order =>
    intro d
    by_cases same : d = c
    · subst same
      rw [seat_sit_self, pending]
      exact inv.order d
    · rw [seat_sit_of_ne _ _ _ same]
      exact inv.order d
  case worked =>
    refine inv.worked_of_seat (fun _ ne => seat_sit_of_ne _ _ _ ne) fun m body h => ?_
    rw [seat_sit_self] at h
    exact worked m body h

theorem Inv.connect (inv : Inv w) : Inv w.connect := by
  have fresh := inv.fresh (w.clients + 1) (Nat.lt_succ_self _)
  refine { inv with fresh := ?fresh, order := ?order, worked := ?worked }
  case fresh =>
    intro d above
    have above : w.clients + 1 < d := above
    rw [seat_connect_of_ne _ (by omega)]
    exact inv.fresh d (by omega)
  case order =>
    intro d
    rw [answered_connect, sent_connect, ← inv.order d]
    by_cases same : d = w.clients + 1
    · subst same
      rw [seat_connect_self, fresh.2]
      rfl
    · rw [seat_connect_of_ne _ same]
  case worked =>
    refine inv.worked_of_seat (fun _ ne => seat_connect_of_ne _ ne) fun m body h => ?_
    rw [seat_connect_self] at h
    cases h

theorem Inv.enqueue (inv : Inv w) (connected : (w.seat c).connected = true) :
    Inv (w.enqueue c line) := by
  refine { inv with numbered := ?numbered, fresh := ?fresh, order := ?order, aside := ?aside,
                    worked := ?worked }
  case numbered => exact inv.numbered_next c line true
  case fresh =>
    intro d above
    have fresh := inv.fresh d above
    have other : d ≠ c := by
      rintro rfl
      simp [fresh.1] at connected
    rw [seat_enqueue_of_ne _ _ _ other]
    exact fresh
  case order =>
    -- The message is the last one that its client has sent, and the last one of the queue.
    intro d
    rw [sent_enqueue, answered_enqueue, List.filter_append, ← inv.order d]
    by_cases same : d = c
    · subst same
      simp [seat_enqueue_self, Seat.pending, Message.isQueuedBy, next]
    · simp [seat_enqueue_of_ne _ _ _ same, Message.isQueuedBy, next, Ne.symm same]
  case aside =>
    rw [sent_enqueue, answered_enqueue, notices_enqueue, List.filter_append]
    simpa [Message.isAside, next] using inv.aside
  case worked =>
    refine inv.worked_of_seat (fun _ ne => seat_enqueue_of_ne _ _ _ ne) fun m body h => ?_
    rw [seat_enqueue_self] at h
    exact inv.worked c m body h

theorem Inv.bounce (inv : Inv w) (bounces : (Inbound.ofLine line).Bounces body) :
    Inv (w.bounce c line body) := by
  refine { inv with numbered := ?numbered, order := ?order, aside := ?aside, noticed := ?noticed }
  case numbered => exact inv.numbered_next c line false
  case order =>
    intro d
    rw [sent_bounce, answered_bounce, seat_bounce, List.filter_append, ← inv.order d]
    simp [Message.isQueuedBy, next]
  case aside =>
    rw [sent_bounce, answered_bounce, notices_bounce, List.filter_append, List.map_append,
      ← List.append_assoc]
    exact inv.aside.append_right _
  case noticed =>
    intro n mem
    rcases List.mem_append.1 mem with old | new
    · exact inv.noticed n old
    · rw [List.mem_singleton] at new
      subst new
      exact bounces

/-- The answer of a message may be published for its client. -/
theorem Inv.publish_log (inv : Inv w) (client : c = m.client) (admits : m.Admits body) :
    (∀ a ∈ (w.publish m c body).log, a.message.IsAnsweredBy a.event) ∧
      (w.publish m c body).events.map (·.seq) =
        List.range' 1 (w.publish m c body).events.length := by
  constructor
  · intro a mem
    rcases List.mem_append.1 mem with old | new
    · exact inv.own a old
    · rw [List.mem_singleton] at new
      subst new
      exact ⟨client, rfl, admits⟩
  · rw [events_publish, List.map_append, inv.sequence, List.length_append]
    simp [List.range'_concat, Nat.add_comm]

theorem Inv.announce (inv : Inv w) {before after : List Notice} {n : Notice}
    (notices : w.notices = before ++ n :: after) : Inv (w.announce n (before ++ after)) := by
  have mem : n ∈ w.notices := by simp [notices]
  have unqueued := inv.not_queued_of_notice mem
  have admits : n.message.Admits n.body := by
    simpa [Message.Admits, unqueued] using inv.noticed n mem
  have log := inv.publish_log rfl admits
  refine { inv with order := ?order, aside := ?aside, noticed := ?noticed, own := log.1,
                    sequence := log.2 }
  case order =>
    intro d
    rw [answered_announce, seat_announce, sent_announce, List.filter_append, ← inv.order d]
    simp [Message.isQueuedBy, unqueued]
  case aside =>
    -- Notices are announced in any order, so the answers are those messages up to a permutation.
    have aside := inv.aside
    rw [notices, List.map_append, List.map_cons] at aside
    rw [answered_announce, notices_announce, List.filter_append]
    refine List.Perm.trans ?_ aside
    simp only [Message.isAside, unqueued, Bool.not_false, List.filter_cons_of_pos, List.filter_nil,
      List.append_assoc, List.singleton_append, List.map_append]
    exact List.perm_middle.symm.append_left _
  case noticed =>
    intro n' mem'
    refine inv.noticed n' ?_
    rw [notices]
    rcases List.mem_append.1 mem' with left | right
    · exact List.mem_append_left _ left
    · exact List.mem_append_right _ (List.mem_cons_of_mem _ right)

theorem Inv.conclude (inv : Inv w) (worker : (w.seat c).worker = .answering m body) :
    Inv (w.conclude c m body) := by
  have pending : (w.seat c).pending = m :: (w.seat c).queue := by
    simp [Seat.pending, worker, Worker.message?]
  obtain ⟨queued, client⟩ := inv.queued_of_pending (c := c) (m := m) (by simp [pending])
  have admits : m.Admits body := by
    simpa [Message.Admits, queued] using inv.worked c m body worker
  have log := inv.publish_log client.symm admits
  refine { inv with fresh := ?fresh, order := ?order, aside := ?aside, worked := ?worked,
                    own := log.1, sequence := log.2 }
  case fresh =>
    intro d above
    have fresh := inv.fresh d above
    have ne : d ≠ c := by
      rintro rfl
      simp [pending] at fresh
    rw [seat_conclude_of_ne _ _ _ _ ne]
    exact fresh
  case order =>
    intro d
    rw [answered_conclude, sent_conclude, List.filter_append, ← inv.order d]
    by_cases same : d = c
    · subst same
      rw [seat_conclude_self, pending]
      simp [Message.isQueuedBy, queued, client, Seat.pending, Worker.message?]
    · rw [seat_conclude_of_ne _ _ _ _ same]
      simp [Message.isQueuedBy, client, Ne.symm same]
  case aside =>
    rw [answered_conclude, notices_conclude, sent_conclude, List.filter_append]
    simpa [Message.isAside, queued] using inv.aside
  case worked =>
    refine inv.worked_of_seat (fun _ ne => seat_conclude_of_ne _ _ _ _ ne) fun m' body' h => ?_
    rw [seat_conclude_self] at h
    cases h

theorem Inv.step (inv : Inv w) (takes : Takes w w') : Inv w' := by
  cases takes with
  | connect => exact inv.connect
  | subscribe => exact { inv with }
  | disconnect c => exact inv.sit (fun h => by cases h) rfl fun m body h => inv.worked c m body h
  | enqueue _ connected _ _ => exact inv.enqueue connected
  | reject _ _ request _ => exact inv.bounce (.full request)
  | terminate _ outcome _ request => exact inv.bounce (.terminated outcome request)
  | announce _ notices => exact inv.announce notices
  | take idle queue =>
      refine inv.sit (fun h => h) ?_ fun _ _ h => by cases h
      simp [Seat.pending, idle, queue, Worker.message?]
  | serve serving yields =>
      refine inv.sit (fun h => h) ?_ ?_
      · simp [Seat.pending, serving, Worker.message?]
      · rintro m body ⟨⟩
        exact yields
  | conclude worker => exact inv.conclude worker
  | receive _ _ _ => exact { inv with }
  | lag _ _ => exact { inv with }

theorem Leads.inv (leads : Leads w w') (inv : Inv w) : Inv w' := by
  induction leads with
  | refl => exact inv
  | snoc _ takes ih => exact ih.step takes

theorem Run.inv (run : Run w) : Inv w := by
  obtain ⟨depth, buffer, leads⟩ := run
  exact leads.inv (inv_opened depth buffer)

/-! ### Draining -/

/-- What the worker of a client leaves alone: all that belongs to others, and what was sent. -/
structure Apart (c : Nat) (w w' : Hub) : Prop where
  sent : w'.sent = w.sent
  clients : w'.clients = w.clients
  notices : w'.notices = w.notices
  seat : ∀ d, d ≠ c → w'.seat d = w.seat d

theorem Apart.refl (c : Nat) (w : Hub) : Apart c w w :=
  ⟨rfl, rfl, rfl, fun _ _ => rfl⟩

theorem Apart.trans {w₁ w₂ w₃ : Hub} (first : Apart c w₁ w₂) (second : Apart c w₂ w₃) :
    Apart c w₁ w₃ where
  sent := second.sent.trans first.sent
  clients := second.clients.trans first.clients
  notices := second.notices.trans first.notices
  seat d h := (second.seat d h).trans (first.seat d h)

theorem apart_sit (w : Hub) (c : Nat) (s : Seat) : Apart c w (w.sit c s) :=
  ⟨rfl, rfl, rfl, fun _ h => seat_sit_of_ne _ _ _ h⟩

theorem apart_conclude (w : Hub) (c : Nat) (m : Message) (body : EventBody) :
    Apart c w (w.conclude c m body) :=
  ⟨rfl, rfl, rfl, fun _ h => seat_conclude_of_ne _ _ _ _ h⟩

theorem exists_yields (message : Inbound) : ∃ body, message.Yields body := by
  cases message with
  | request envelope => exact ⟨_, .request envelope (.failed .queueFull)⟩
  | undecodable message => exact ⟨_, .undecodable message⟩

/-- A worker can answer the first of its messages. -/
theorem answers_first {rest : List Message} (pending : (w.seat c).pending = m :: rest) :
    ∃ w', Leads w w' ∧ Apart c w w' ∧ (w'.seat c).pending = rest := by
  have answering : ∀ (w : Hub) m body, (w.seat c).worker = .answering m body →
      (w.seat c).queue = rest →
      ∃ w', Leads w w' ∧ Apart c w w' ∧ (w'.seat c).pending = rest := by
    intro w m body worker queue
    refine ⟨w.conclude c m body, .single (.conclude worker), apart_conclude .., ?_⟩
    simp [seat_conclude_self, Seat.pending, Worker.message?, queue]
  have serving : ∀ (w : Hub) m, (w.seat c).worker = .serving m → (w.seat c).queue = rest →
      ∃ w', Leads w w' ∧ Apart c w w' ∧ (w'.seat c).pending = rest := by
    intro w m worker queue
    obtain ⟨body, yields⟩ := exists_yields m.inbound
    obtain ⟨w', leads, apart, pending⟩ :=
      answering (w.sit c { w.seat c with worker := .answering m body }) m body (by simp)
        (by simpa using queue)
    exact ⟨w', (Leads.single (.serve worker yields)).trans leads,
      (apart_sit ..).trans apart, pending⟩
  cases worker : (w.seat c).worker with
  | answering m' body =>
      simp only [Seat.pending, worker, Worker.message?, Option.toList_some, List.cons_append,
        List.nil_append, List.cons.injEq] at pending
      exact answering w m' body worker pending.2
  | serving m' =>
      simp only [Seat.pending, worker, Worker.message?, Option.toList_some, List.cons_append,
        List.nil_append, List.cons.injEq] at pending
      exact serving w m' worker pending.2
  | idle =>
      have queue : (w.seat c).queue = m :: rest := by
        simpa [Seat.pending, worker, Worker.message?] using pending
      obtain ⟨w', leads, apart, pending⟩ :=
        serving (w.sit c { w.seat c with queue := rest, worker := .serving m }) m (by simp)
          (by simp)
      exact ⟨w', (Leads.single (.take worker queue)).trans leads,
        (apart_sit ..).trans apart, pending⟩

/-- A worker can answer all that is in its queue. -/
theorem answers_all (w : Hub) (c : Nat) :
    ∃ w', Leads w w' ∧ Apart c w w' ∧ (w'.seat c).pending = [] := by
  induction pending : (w.seat c).pending generalizing w with
  | nil => exact ⟨w, .refl, .refl c w, pending⟩
  | cons m rest ih =>
      obtain ⟨w₁, first, apart₁, rest₁⟩ := answers_first pending
      obtain ⟨w₂, second, apart₂, done⟩ := ih w₁ rest₁
      exact ⟨w₂, first.trans second, apart₁.trans apart₂, done⟩

/-- The workers of the first clients can answer all that is in their queues. -/
theorem answers_upTo (w : Hub) (n : Nat) : ∃ w', Leads w w' ∧ w'.sent = w.sent ∧
    w'.clients = w.clients ∧ w'.notices = w.notices ∧
    (∀ c, c ≤ n → (w'.seat c).pending = []) ∧ ∀ c, n < c → w'.seat c = w.seat c := by
  induction n with
  | zero =>
      obtain ⟨w', leads, apart, done⟩ := answers_all w 0
      refine ⟨w', leads, apart.sent, apart.clients, apart.notices, ?_, ?_⟩
      · intro c h
        obtain rfl := Nat.le_zero.1 h
        exact done
      · exact fun c h => apart.seat c (by omega)
  | succ n ih =>
      obtain ⟨w₁, first, sent, clients, notices, below, above⟩ := ih
      obtain ⟨w₂, second, apart, done⟩ := answers_all w₁ (n + 1)
      refine ⟨w₂, first.trans second, apart.sent.trans sent, apart.clients.trans clients,
        apart.notices.trans notices, ?_, ?_⟩
      · intro c h
        by_cases same : c = n + 1
        · subst same
          exact done
        · rw [apart.seat c same]
          exact below c (by omega)
      · intro c h
        rw [apart.seat c (by omega)]
        exact above c (by omega)

/-- The tasks can publish what they are about to. -/
theorem announces_all (w : Hub) :
    ∃ w', Leads w w' ∧ w'.sent = w.sent ∧ w'.seat = w.seat ∧ w'.notices = [] := by
  induction notices : w.notices generalizing w with
  | nil => exact ⟨w, .refl, rfl, rfl, notices⟩
  | cons n others ih =>
      have split : w.notices = [] ++ n :: others := notices
      obtain ⟨w', leads, sent, seat, done⟩ := ih (w.announce n others) rfl
      exact ⟨w', (Leads.single (.announce [] split)).trans leads, sent, seat, done⟩

/-- Whatever is on its way can be answered. -/
theorem Inv.drains (inv : Inv w) : ∃ w', Leads w w' ∧ Drained w' ∧ w'.sent = w.sent := by
  obtain ⟨w₁, first, sent₁, -, -, below, above⟩ := answers_upTo w w.clients
  obtain ⟨w₂, second, sent₂, seat, notices⟩ := announces_all w₁
  refine ⟨w₂, first.trans second, ⟨?_, notices⟩, sent₂.trans sent₁⟩
  intro c
  rw [seat]
  by_cases known : c ≤ w.clients
  · exact below c known
  · rw [above c (by omega)]
    exact (inv.fresh c (by omega)).2

/-! ### Readers -/

theorem events_of_takes (takes : Takes w w') :
    w'.events = w.events ∨ ∃ e, w'.events = w.events ++ [e] := by
  cases takes with
  | announce _ _ => exact .inr ⟨_, events_publish ..⟩
  | conclude _ => exact .inr ⟨_, events_publish ..⟩
  | _ => exact .inl rfl

/-- What a reader that came when some events were published has received. -/
structure Heard (before : List Event) (w : Hub) (r : Reader) : Prop where
  cursor : r.cursor ≤ w.events.length
  received : r.lagged = false → before ++ r.received = w.events.take r.cursor

theorem heard_subscribe (w : Hub) : ∃ r, w.subscribe.readers[w.readers.length]? = some r ∧
    Heard w.events w.subscribe r := by
  refine ⟨⟨w.log.length, [], false⟩, by simp [subscribe], ?_, ?_⟩
  · rw [length_events]
    exact Nat.le_refl _
  · intro _
    have events : w.subscribe.events = w.events := rfl
    rw [List.append_nil, events, ← length_events, List.take_length]

theorem Heard.of_events {before : List Event} {r : Reader} (heard : Heard before w r)
    (takes : Takes w w') : Heard before w' r := by
  rcases events_of_takes takes with same | ⟨e, more⟩
  · exact ⟨by rw [same]; exact heard.cursor, by rw [same]; exact heard.received⟩
  · constructor
    · have := heard.cursor
      rw [more, List.length_append]
      omega
    · rw [more, List.take_append_of_le_length heard.cursor]
      exact heard.received

theorem heard_step {before : List Event} (takes : Takes w w')
    (heard : ∃ r, w.readers[i]? = some r ∧ Heard before w r) :
    ∃ r, w'.readers[i]? = some r ∧ Heard before w' r := by
  obtain ⟨r, there, heard⟩ := heard
  have later := heard.of_events takes
  cases takes with
  | subscribe =>
      obtain ⟨inside, -⟩ := List.getElem?_eq_some_iff.1 there
      refine ⟨r, ?_, later⟩
      rw [subscribe, List.getElem?_append_left inside]
      exact there
  | @receive j r' e there' _ next =>
      by_cases same : j = i
      · subst same
        obtain rfl := Option.some.inj (there.symm.trans there')
        obtain ⟨inside, -⟩ := List.getElem?_eq_some_iff.1 there
        obtain ⟨left, rfl⟩ := List.getElem?_eq_some_iff.1 next
        refine ⟨⟨r.cursor + 1, r.received ++ [w.events[r.cursor]], r.lagged⟩,
          by simp [setReader, inside], left, ?_⟩
        intro keeps
        rw [events_setReader, List.take_succ_eq_append_getElem left, ← heard.received keeps,
          List.append_assoc]
      · refine ⟨r, ?_, later⟩
        simpa [setReader, same] using there
  | @lag j r' there' behind =>
      by_cases same : j = i
      · subst same
        obtain ⟨inside, -⟩ := List.getElem?_eq_some_iff.1 there
        refine ⟨⟨w.events.length - w.buffer, r'.received, true⟩, by simp [setReader, inside],
          Nat.sub_le .., ?_⟩
        intro keeps
        cases keeps
      · refine ⟨r, ?_, later⟩
        simpa [setReader, same] using there
  | _ => exact ⟨r, there, later⟩

theorem heard_leads (leads : Leads w.subscribe w') :
    ∃ r, w'.readers[w.readers.length]? = some r ∧ Heard w.events w' r := by
  induction leads with
  | refl => exact heard_subscribe w
  | snoc _ takes ih => exact heard_step takes ih

/-! ### Answers -/

/-- Once nothing is on its way, each message has been answered once. -/
theorem Inv.answered_perm (inv : Inv w) (drained : Drained w) : w.answered.Perm w.sent := by
  rw [List.perm_iff_count]
  intro m
  by_cases queued : m.queued = true
  · -- It went through the queue of its client.
    have order := inv.order m.client
    rw [drained.pending, List.append_nil] at order
    have own : m.isQueuedBy m.client = true := by simp [Message.isQueuedBy, queued]
    calc w.answered.count m
        = (w.answered.filter (·.isQueuedBy m.client)).count m := (List.count_filter own).symm
      _ = (w.sent.filter (·.isQueuedBy m.client)).count m := by rw [order]
      _ = w.sent.count m := List.count_filter own
  · have aside := inv.aside
    rw [drained.notices, List.map_nil, List.append_nil] at aside
    have own : m.isAside = true := by simpa [Message.isAside] using queued
    calc w.answered.count m
        = (w.answered.filter (·.isAside)).count m := (List.count_filter own).symm
      _ = (w.sent.filter (·.isAside)).count m := aside.count_eq m
      _ = w.sent.count m := List.count_filter own

/-- What holds of the messages and events of a hub, whatever steps led to it. -/
structure Answering (w : Hub) : Prop where
  /-- No two messages are the same. -/
  numbered : w.sent.map (·.number) = List.range w.sent.length
  one : Drained w → w.answered.Perm w.sent
  own : ∀ a ∈ w.log, a.message.IsAnsweredBy a.event
  drains : ∃ w', Leads w w' ∧ Drained w' ∧ w'.sent = w.sent
  /-- What came into the queue of a client is answered in the order in which it was sent. -/
  order : ∀ c, w.answered.filter (·.isQueuedBy c) <+: w.sent.filter (·.isQueuedBy c)
  sequence : w.events.map (·.seq) = List.range' 1 w.events.length
  /-- Who does not lag receives what is published from its subscription on, all of it in the end. -/
  heard : ∀ before : Hub, Leads before.subscribe w →
    ∃ r, w.readers[before.readers.length]? = some r ∧
      (r.lagged = false → before.events ++ r.received <+: w.events ∧
        (r.cursor = w.events.length → before.events ++ r.received = w.events))

theorem answering_of_run (run : Run w) : Answering w := by
  have inv := run.inv
  refine ⟨inv.numbered, inv.answered_perm, inv.own, inv.drains, ?order, inv.sequence, ?heard⟩
  case order => exact fun c => ⟨_, inv.order c⟩
  case heard =>
    intro before leads
    obtain ⟨r, there, heard⟩ := heard_leads leads
    refine ⟨r, there, fun keeps => ?_⟩
    rw [heard.received keeps]
    refine ⟨List.take_prefix .., fun all => ?_⟩
    rw [all, List.take_length]

/-- A client whose queue holds one message sends two that are no requests, and then one to
terminate, which is answered first. -/
theorem answering_of_run_sample : ∃ w, Run w ∧ Drained w ∧
    w.events.map (fun e => (e.seq, e.client, e.body.encode.1)) =
      [(1, 1, "TerminateResult"), (2, 1, "Error"), (3, 1, "Error")] ∧ Answering w := by
  have connected := (Leads.single (w := opened 1 4) .connect).snoc .subscribe
  have queued := connected.snoc (.enqueue (c := 1) "[]" rfl rfl (by decide))
  have rejected := queued.snoc (.reject (c := 1) "[]" rfl rfl (by decide))
  have stopped := rejected.snoc (.terminate (c := 1) "\x7b\"type\":\"Terminate\"\x7d"
    ⟨.idle, false, false⟩ rfl rfl)
  have told := stopped.snoc (.announce [_] rfl)
  have taken := told.snoc (.take (c := 1) rfl rfl)
  have served := taken.snoc (.serve (c := 1) rfl (.undecodable ⟨none, _⟩))
  have answered := served.snoc (.conclude (c := 1) rfl)
  have full := answered.snoc (.announce [] rfl)
  have heard := full.snoc (.receive (i := 0) rfl (by decide) rfl)
  have run : Run _ := ⟨1, 4, heard⟩
  refine ⟨_, run, ⟨?_, rfl⟩, rfl, answering_of_run run⟩
  intro c
  match c with
  | 0 => rfl
  | 1 => rfl
  | c + 2 => exact (run.inv.fresh (c + 2) (Nat.lt_add_of_pos_left (Nat.succ_pos c))).2

end Workbench.Session.Hub
