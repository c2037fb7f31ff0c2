import Workbench.Proofs.Session.Traffic

/-!
# One activity at a time

Whatever calls do and in whatever order, a session is busy with one activity at most, its state says
with which, and the handles installed are those of that activity. A call that has returned holds no
guard, on every way in which it can end. The end of a session is final.
-/

namespace Workbench.Session.Traffic

open World (begin?_eq_ok state_activity install_state install_owned)

variable {calls : Nat → Call} {w w' : Traffic} {s : Step} {trace : List Step} {k : Nat}

/-- What ties the state of a session, its handles and the guards of the calls together. -/
structure Inv (calls : Nat → Call) (w : Traffic) : Prop where
  single : ∀ l ∈ w.leases, w.leases = [l]
  idle : w.session.state = .idle → w.leases = []
  active : ∀ l ∈ w.leases,
    w.session.state = l.activity.state ∨ w.session.state = .terminated
  free : w.leases = [] → w.session.state = .idle ∨ w.session.state = .terminated
  owned : ∀ t, w.session.cancellation = some t ∨ w.session.kill = some t →
    ∃ l ∈ w.leases, l.ticket = t
  served : ∀ l ∈ w.leases, (w.phase l.call).ticket? = some l.ticket ∧
    ∃ r, calls l.call = .serve r ∧ r.activity? = some l.activity
  held : ∀ k t, (w.phase k).ticket? = some t → ∃ l ∈ w.leases, l.call = k ∧ l.ticket = t

theorem inv_opened (settings : Settings) (root : String) : Inv calls (opened settings root) where
  single := by simp [opened]
  idle := fun _ => rfl
  active := by simp [opened]
  free := fun _ => .inl rfl
  owned := by simp [opened, Occupation.opened]
  served := by simp [opened]
  held := by simp [opened, Phase.ticket?]

/-! ### What single steps keep -/

theorem ticket?_goto {p : Phase} (same : p.ticket? = (w.phase k).ticket?) (j : Nat) :
    ((w.goto k p).phase j).ticket? = (w.phase j).ticket? := by
  by_cases h : j = k
  · subst h
    simpa using same
  · rw [phase_goto_of_ne w k p h]

/-- A call that goes on without a change of the session keeps its guard, or has none. -/
theorem Inv.goto (inv : Inv calls w) {p : Phase} (same : p.ticket? = (w.phase k).ticket?) :
    Inv calls (w.goto k p) where
  single := inv.single
  idle := inv.idle
  active := inv.active
  free := inv.free
  owned := inv.owned
  served l mem := by
    rw [ticket?_goto same]
    exact inv.served l mem
  held j t h := by
    rw [ticket?_goto same] at h
    exact inv.held j t h

/-- A step that only changes the session keeps the guards as they are. -/
theorem Inv.of_session (inv : Inv calls w) {session : Occupation} {signalled : List Ticket}
    (state : session.state = w.session.state ∨ session.state = .terminated)
    (owned : ∀ t, session.cancellation = some t ∨ session.kill = some t →
      ∃ l ∈ w.leases, l.ticket = t) :
    Inv calls { w with session := session, signalled := signalled } where
  single := inv.single
  idle h := by
    rcases state with same | ended
    · exact inv.idle (same ▸ h)
    · rw [ended] at h
      cases h
  active l mem := by
    rcases state with same | ended
    · rw [same]
      exact inv.active l mem
    · exact .inr ended
  free none := by
    rcases state with same | ended
    · rw [same]
      exact inv.free none
    · exact .inr ended
  owned := owned
  served := inv.served
  held := inv.held

theorem Inv.stopped (inv : Inv calls w) : Inv calls w.stopped := by
  refine inv.of_session (.inl rfl) fun t h => inv.owned t ?_
  simpa [Occupation.terminateCurrent] using h.imp_right (fun h => by cases h)

theorem Inv.beginning (inv : Inv calls w) {r : Request} {activity : Activity}
    {session : Occupation} (serves : calls k = .serve r) (fits : r.activity? = some activity)
    (called : w.phase k = .called)
    (begins : w.session.begin? activity r.activeFile? = .ok session) :
    Inv calls (w.beginning k activity session) := by
  obtain ⟨idle, rfl⟩ := begin?_eq_ok begins
  have none := inv.idle idle
  -- Nobody else holds a guard, as nobody holds one.
  have others : ∀ j, j ≠ k → (w.phase j).ticket? = Option.none := by
    intro j _
    rw [Option.eq_none_iff_forall_ne_some]
    intro t h
    obtain ⟨l, mem, -⟩ := inv.held j t h
    simp [none] at mem
  have busy := state_activity activity
  constructor
  case single => simp [Traffic.beginning, none]
  case idle => exact fun h => absurd h busy.1
  case active => simp [Traffic.beginning, none]
  case free => simp [Traffic.beginning]
  case owned =>
    intro t h
    obtain ⟨l, mem, -⟩ := inv.owned t h
    simp [none] at mem
  case served =>
    intro l mem
    simp only [Traffic.beginning, none, List.mem_singleton] at mem
    subst mem
    exact ⟨by simp [Phase.ticket?], r, serves, fits⟩
  case held =>
    intro j t h
    by_cases same : j = k
    · subst same
      simp only [phase_beginning, phase_goto_self, Phase.ticket?, Option.some.injEq] at h
      exact ⟨_, List.mem_cons_self .., rfl, h⟩
    · rw [phase_beginning, phase_goto_of_ne _ _ _ same, others j same] at h
      cases h

theorem Inv.arming (inv : Inv calls w) {t : Ticket} {activity : Activity} {job : Job}
    (prepared : w.phase k = .prepared t job) : Inv calls (w.arming k ⟨t, activity⟩ job) := by
  have holds : (w.phase k).ticket? = some t := by rw [prepared]; rfl
  obtain ⟨l, mem, -, ticket⟩ := inv.held k t holds
  have moved : Inv calls (w.goto k (.working t job job.checkpoints [] false)) :=
    inv.goto holds.symm
  refine moved.of_session (.inl (install_state _ _)) fun t' h => ?_
  rcases install_owned _ _ h with rfl | h
  · exact ⟨l, mem, ticket⟩
  · exact inv.owned t' h

/-- The guard of a call is the only one, so that none is left once it is given back. -/
theorem leases_leaving (inv : Inv calls w) {t : Ticket} (holds : (w.phase k).ticket? = some t)
    (body : EventBody) : (w.leaving k body).leases = [] := by
  obtain ⟨l, mem, call, -⟩ := inv.held k t holds
  simp [Traffic.leaving, inv.single l mem, call]

theorem Inv.leaving (inv : Inv calls w) {t : Ticket} {body : EventBody}
    (phase : w.phase k = .leaving t body) : Inv calls (w.leaving k body) := by
  have holds : (w.phase k).ticket? = some t := by rw [phase]; rfl
  have none := leases_leaving inv holds body
  obtain ⟨l, mem, call, -⟩ := inv.held k t holds
  constructor
  case single => simp [none]
  case idle => exact fun _ => none
  case active => simp [none]
  case free =>
    intro _
    simp only [Traffic.leaving, Occupation.finish]
    split
    · exact .inr rfl
    · exact .inl rfl
  case owned => simp [Traffic.leaving, Occupation.finish]
  case served => simp [none]
  case held =>
    intro j t' h
    by_cases same : j = k
    · subst same
      simp [Phase.ticket?] at h
    · rw [phase_leaving, phase_goto_of_ne _ _ _ same] at h
      obtain ⟨l', mem', call', -⟩ := inv.held j t' h
      rw [inv.single l mem, List.mem_singleton] at mem'
      exact absurd (call'.symm.trans (mem' ▸ call)) same

theorem ticket?_concluded (settings : Settings) (t : Ticket) (params : CompileParams) (late : Bool)
    (outcome : Except Failure Pipeline.Result) :
    (Phase.concluded settings t params late outcome).ticket? = some t := by
  unfold Phase.concluded
  split
  · rfl
  · split
    · rfl
    · split <;> rfl

theorem Inv.step (inv : Inv calls w) (takes : Takes calls w s w') : Inv calls w' := by
  cases takes with
  | refuse _ phase _ _ => exact inv.goto (by rw [phase]; rfl)
  | begin serves phase fits begins => exact inv.beginning serves fits phase begins
  | prepare _ phase _ => exact inv.goto (by rw [phase]; rfl)
  | giveUp _ phase _ => exact inv.goto (by rw [phase]; rfl)
  | arm _ _ phase => exact inv.arming phase
  | check phase => exact inv.goto (by rw [phase]; rfl)
  | expire phase => exact { inv.goto (by rw [phase]; rfl) with }
  | conclude _ phase => exact inv.goto (by rw [phase, ticket?_concluded]; rfl)
  | crash _ phase => exact inv.goto (by rw [phase, ticket?_concluded]; rfl)
  | exit _ phase => exact inv.goto (by rw [phase]; rfl)
  | store _ phase => exact inv.goto (by rw [phase]; rfl)
  | leave phase => exact inv.leaving phase
  | bar _ phase _ _ => exact inv.goto (by rw [phase]; rfl)
  | pass _ phase _ _ => exact inv.goto (by rw [phase]; rfl)
  | browse _ phase => exact inv.goto (by rw [phase]; rfl)
  | terminate _ phase => exact inv.stopped.goto (by rw [phase_stopped, phase]; rfl)
  | stop _ phase => exact inv.stopped.goto (by rw [phase_stopped, phase]; rfl)
  | close phase =>
      refine Inv.of_session (inv.goto ?_) (.inr rfl) inv.owned
      rw [phase]
      rfl

theorem Run.inv (run : Run calls trace w) : Inv calls w :=
  run.induction (motive := fun _ w => Inv calls w) inv_opened fun _ inv takes => inv.step takes

/-! ### The end is final -/

theorem terminated_of_begin? {session session' : Occupation} {activity : Activity}
    {file : Option String} (h : session.begin? activity file = .ok session') :
    session.state ≠ .terminated ∧ session'.state ≠ .terminated := by
  obtain ⟨idle, rfl⟩ := begin?_eq_ok h
  exact ⟨by simp [idle], (state_activity activity).2⟩

/-- Only the last step of the end of a session makes it terminated, and nothing makes it another. -/
theorem terminated_step (takes : Takes calls w s w') :
    w'.session.state = .terminated ↔ w.session.state = .terminated ∨ s.move = .close := by
  cases takes with
  | begin _ _ _ begins =>
      have := terminated_of_begin? begins
      simp [Traffic.beginning, this.1, this.2]
  | arm _ _ _ => simp [Traffic.arming, install_state]
  | leave _ =>
      simp only [Traffic.leaving, Occupation.finish, reduceCtorEq, or_false]
      split
      · next h => simp [h]
      · next h => simp [h]
  | close _ => simp [Occupation.close]
  | _ => simp

theorem Run.terminated_iff (run : Run calls trace w) :
    w.session.state = .terminated ↔ Ended trace := by
  refine run.induction (motive := fun trace w => w.session.state = .terminated ↔ Ended trace)
    ?_ ?_
  · simp [opened, Occupation.opened, Ended]
  · intro trace w s w' _ ih takes
    rw [terminated_step takes, ih, ended_append_singleton]

/-! ### Refusals -/

/-- Why a session that is not idle begins no activity. -/
def refusal : State → Failure
  | .terminated => .terminated
  | state => .busy state

theorem begin?_of_not_idle {session : Occupation} (h : session.state ≠ .idle) (activity : Activity)
    (file : Option String) : session.begin? activity file = .error (refusal session.state) := by
  unfold Occupation.begin? refusal
  cases state : session.state <;> simp_all

/-- A call that cannot begin returns at once and leaves everything else as it is. -/
theorem begin_of_not_idle {r : Request} {activity : Activity} (serves : calls k = .serve r)
    (fits : r.activity? = some activity) (busy : w.session.state ≠ .idle)
    (takes : Takes calls w ⟨k, .begin⟩ w') :
    w' = w.goto k (.returned (.failed (refusal w.session.state))) := by
  have refused := begin?_of_not_idle busy activity r.activeFile?
  cases takes with
  | refuse serves' _ fits' begins =>
      cases serves.symm.trans serves'
      cases fits.symm.trans fits'
      cases refused.symm.trans begins
      rfl
  | begin serves' _ fits' begins =>
      cases serves.symm.trans serves'
      cases fits.symm.trans fits'
      cases refused.symm.trans begins
  | bar serves' _ onFiles _ =>
      cases serves.symm.trans serves'
      simp [Request.isOnFiles, fits] at onFiles
  | pass serves' _ onFiles _ =>
      cases serves.symm.trans serves'
      simp [Request.isOnFiles, fits] at onFiles

/-! ### Exclusive sessions -/

/-- What holds of a session however its calls go on. -/
structure Exclusive (calls : Nat → Call) (trace : List Step) (w : Traffic) : Prop where
  one : w.leases.length ≤ 1
  idle_iff : w.session.state = .idle ↔ w.leases = [] ∧ ¬ Ended trace
  busy : ¬ Ended trace → ∀ l ∈ w.leases, w.session.state = l.activity.state
  ended_iff : w.session.state = .terminated ↔ Ended trace
  final : w.session.state = .terminated →
    ∀ steps w', Leads calls w steps w' → w'.session.state = .terminated
  owned : ∀ t, w.session.cancellation = some t ∨ w.session.kill = some t →
    ∃ l ∈ w.leases, l.ticket = t
  refused : w.session.state ≠ .idle → ∀ k r activity w', calls k = .serve r →
    r.activity? = some activity → Takes calls w ⟨k, .begin⟩ w' →
    w' = w.goto k (.returned (.failed (refusal w.session.state)))
  returned : ∀ k body, w.phase k = .returned body → ∀ l ∈ w.leases, l.call ≠ k

theorem Inv.length_le_one (inv : Inv calls w) : w.leases.length ≤ 1 := by
  cases h : w.leases with
  | nil => simp
  | cons l rest =>
      have mem : l ∈ w.leases := by simp [h]
      rw [← h, inv.single l mem]
      simp

theorem Inv.idle_iff (inv : Inv calls w) :
    w.session.state = .idle ↔ w.leases = [] ∧ w.session.state ≠ .terminated := by
  constructor
  · intro idle
    exact ⟨inv.idle idle, by simp [idle]⟩
  · rintro ⟨none, goes⟩
    exact (inv.free none).resolve_right goes

theorem terminated_of_leads {steps : List Step} (ended : w.session.state = .terminated)
    (leads : Leads calls w steps w') : w'.session.state = .terminated := by
  induction leads with
  | refl => exact ended
  | snoc _ takes ih => exact (terminated_step takes).2 (.inl ih)

theorem Inv.not_held_of_returned (inv : Inv calls w) {body : EventBody}
    (returned : w.phase k = .returned body) : ∀ l ∈ w.leases, l.call ≠ k := by
  rintro l mem rfl
  have holds := (inv.served l mem).1
  rw [returned] at holds
  cases holds

theorem exclusive_of_run (run : Run calls trace w) : Exclusive calls trace w := by
  have inv := run.inv
  have ended := run.terminated_iff
  exact {
    one := inv.length_le_one
    idle_iff := by rw [inv.idle_iff, ne_eq, ended]
    busy := fun goes l mem => (inv.active l mem).resolve_right (mt ended.1 goes)
    ended_iff := ended
    final := fun h _ _ leads => terminated_of_leads h leads
    owned := inv.owned
    refused := fun busy _ _ _ _ serves fits takes => begin_of_not_idle serves fits busy takes
    returned := fun _ _ returned => inv.not_held_of_returned returned }

/-- A compilation of a file that is missing, a command of a terminal, and the end of the session. -/
def sampleCalls : Nat → Call
  | 0 => .serve (.compile ⟨"a", .debug, none, none, none⟩)
  | 1 => .serve (.terminal "ls" none)
  | _ => .shutdown

/-- The command comes while the compilation looks at its file, and the end of the session too. -/
theorem exclusive_of_run_sample : ∃ trace w, Run sampleCalls trace w ∧ Ended trace ∧
    w.phase 0 = .returned (.failed (.notFound "a")) ∧
    w.phase 1 = .returned (.failed (.busy .compiling)) ∧ Exclusive sampleCalls trace w := by
  have first : Leads sampleCalls (opened .standard "") [⟨0, .begin⟩] _ :=
    .single (.begin rfl rfl rfl rfl)
  have busy : Leads sampleCalls _ ([⟨0, .begin⟩] ++ [⟨1, .begin⟩]) _ :=
    first.snoc (.refuse rfl rfl rfl rfl)
  have stopped := busy.snoc (.stop (k := 2) rfl rfl)
  have missing := stopped.snoc (.giveUp (k := 0) rfl rfl (.unreadable _ (.notFound "a")))
  have closed := missing.snoc (.close (k := 2) rfl)
  have left := closed.snoc (.leave (k := 0) rfl)
  have run : Run sampleCalls _ _ := ⟨_, _, left⟩
  exact ⟨_, _, run, by simp [Ended], rfl, rfl, exclusive_of_run run⟩

end Workbench.Session.Traffic
