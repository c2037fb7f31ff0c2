import Workbench.Proofs.Pipeline.Cancellation
import Workbench.Proofs.Session.Exclusivity

/-!
# Requests to terminate

A request to terminate reaches an activity by the handle that the activity has installed. Between
its begin and the installation of its handle a session is busy already, but nothing can be signalled
then, and the installation asks only whether the session has ended. So an activity is told to stop
exactly if it installs its handle in an ended session, or is stopped after that. A request that
comes earlier is answered, and the activity goes on.

A compilation that is told to stop with a checkpoint ahead of it does not succeed.
-/

namespace Workbench.Session.Traffic

open World (begin?_eq_ok install_now install_handle mem_tickets_terminateCurrent)

variable {calls : Nat → Call} {w w' : Traffic} {s : Step} {trace : List Step} {k : Nat}

/-! ### Heeded activities -/

/-- The steps that signal the activity of a call if its handle is installed. -/
def Stops (s : Step) (k : Nat) : Prop :=
  s.move = .terminate ∨ s.move = .stop ∨ s = ⟨k, .expire⟩

/-- The call installs the handle of its activity in an ended session, or is stopped after that. -/
def Heeded (trace : List Step) (k : Nat) : Prop :=
  ∃ before after, trace = before ++ ⟨k, .arm⟩ :: after ∧
    (Ended before ∨ ∃ s ∈ after, Stops s k)

theorem Heeded.arm_mem (h : Heeded trace k) : ⟨k, .arm⟩ ∈ trace := by
  obtain ⟨before, after, rfl, -⟩ := h
  simp

theorem heeded_append_singleton : Heeded (trace ++ [s]) k ↔
    Heeded trace k ∨ (s = ⟨k, .arm⟩ ∧ Ended trace) ∨ (⟨k, .arm⟩ ∈ trace ∧ Stops s k) := by
  constructor
  · rintro ⟨before, after, split, why⟩
    -- The handle is installed by the last step or before it.
    rcases List.eq_nil_or_concat after with rfl | ⟨after, last, rfl⟩
    · obtain ⟨rfl, same⟩ := List.append_inj' split rfl
      cases same
      exact .inr (.inl ⟨rfl, by simpa using why⟩)
    · rw [List.concat_eq_append, ← List.cons_append, ← List.append_assoc] at split
      obtain ⟨rfl, same⟩ := List.append_inj' split rfl
      cases same
      rcases why with ended | ⟨s', mem, stops⟩
      · exact .inl ⟨before, after, rfl, .inl ended⟩
      · rw [List.concat_eq_append, List.mem_append, List.mem_singleton] at mem
        rcases mem with mem | rfl
        · exact .inl ⟨before, after, rfl, .inr ⟨s', mem, stops⟩⟩
        · exact .inr (.inr ⟨by simp, stops⟩)
  · rintro (⟨before, after, rfl, why⟩ | ⟨rfl, ended⟩ | ⟨armed, stops⟩)
    · refine ⟨before, after ++ [s], by simp, why.imp_right ?_⟩
      rintro ⟨s', mem, stops⟩
      exact ⟨s', List.mem_append_left _ mem, stops⟩
    · exact ⟨trace, [], rfl, .inl ended⟩
    · obtain ⟨before, after, rfl⟩ := List.append_of_mem armed
      exact ⟨before, after ++ [s], by simp, .inr ⟨s, by simp, stops⟩⟩

/-! ### What steps leave alone -/

theorem phase_of_takes (takes : Takes calls w s w') (other : k ≠ s.call) :
    w'.phase k = w.phase k := by
  cases takes with
  | _ => exact phase_goto_of_ne _ _ _ other

theorem signalled_of_takes (takes : Takes calls w s w') {t : Ticket} (mem : t ∈ w.signalled) :
    t ∈ w'.signalled := by
  cases takes with
  | arm _ _ _ =>
      simp only [arming]
      split
      · exact List.mem_cons_of_mem _ mem
      · exact mem
  | expire _ => exact List.mem_cons_of_mem _ mem
  | terminate _ _ => exact List.mem_append_right _ mem
  | stop _ _ => exact List.mem_append_right _ mem
  | _ => exact mem

/-- Only one call holds a guard. -/
theorem Inv.holder (inv : Inv calls w) {j : Nat} {t t' : Ticket}
    (one : (w.phase j).ticket? = some t) (other : (w.phase k).ticket? = some t') : j = k := by
  obtain ⟨l, mem, rfl, -⟩ := inv.held j t one
  obtain ⟨l', mem', rfl, -⟩ := inv.held k t' other
  rw [inv.single l mem, List.mem_singleton] at mem'
  rw [mem']

/-! ### Tickets -/

/-- Every ticket in use has been drawn. -/
structure Drawn (w : Traffic) : Prop where
  held : ∀ l ∈ w.leases, l.ticket ≤ w.begun
  signalled : ∀ t ∈ w.signalled, t ≤ w.begun

/-- A step that draws no ticket and signals none but those in use. -/
theorem Drawn.keep (drawn : Drawn w) (begun : w'.begun = w.begun)
    (leases : ∀ l ∈ w'.leases, l ∈ w.leases)
    (signalled : ∀ t ∈ w'.signalled, t ∈ w.signalled ∨ ∃ l ∈ w.leases, l.ticket = t) :
    Drawn w' where
  held l mem := begun ▸ drawn.held l (leases l mem)
  signalled t mem := by
    rw [begun]
    rcases signalled t mem with mem | ⟨l, mem, ticket⟩
    · exact drawn.signalled t mem
    · exact ticket ▸ drawn.held l mem

theorem Inv.mem_signalled_stopped (inv : Inv calls w) {t : Ticket} (mem : t ∈ w.stopped.signalled) :
    t ∈ w.signalled ∨ ∃ l ∈ w.leases, l.ticket = t := by
  rcases List.mem_append.1 mem with mem | mem
  · exact .inr (inv.owned t (mem_tickets_terminateCurrent.1 mem))
  · exact .inl mem

theorem Drawn.step (inv : Inv calls w) (drawn : Drawn w) (takes : Takes calls w s w') :
    Drawn w' := by
  cases takes with
  | begin _ _ _ begins =>
      have none := inv.idle (begin?_eq_ok begins).1
      exact ⟨by simp [beginning, none], fun t mem => Nat.le_succ_of_le (drawn.signalled t mem)⟩
  | @arm k _ t _ _ _ _ phase =>
      refine drawn.keep rfl (fun _ mem => mem) fun t' mem => ?_
      have here : t' = t ∨ t' ∈ w.signalled := by
        revert mem
        simp only [arming]
        split <;> simp +contextual
      rcases here with rfl | mem
      · obtain ⟨l, mem, -, ticket⟩ := inv.held k t' (by rw [phase]; rfl)
        exact .inr ⟨l, mem, ticket⟩
      · exact .inl mem
  | @expire k t _ _ _ _ phase =>
      refine drawn.keep rfl (fun _ mem => mem) fun t' mem => ?_
      rcases List.mem_cons.1 mem with rfl | mem
      · obtain ⟨l, mem, -, ticket⟩ := inv.held k t' (by rw [phase]; rfl)
        exact .inr ⟨l, mem, ticket⟩
      · exact .inl mem
  | leave _ =>
      exact drawn.keep rfl (fun _ mem => (List.mem_filter.1 mem).1) fun _ mem => .inl mem
  | terminate _ _ =>
      exact drawn.keep rfl (fun _ mem => mem) fun _ mem => inv.mem_signalled_stopped mem
  | stop _ _ =>
      exact drawn.keep rfl (fun _ mem => mem) fun _ mem => inv.mem_signalled_stopped mem
  | _ => exact drawn.keep rfl (fun _ mem => mem) fun _ mem => .inl mem

/-! ### What a call has been told -/

/-- No handle is installed, and the ticket has not been signalled. -/
structure Silent (trace : List Step) (w : Traffic) (k : Nat) (t : Ticket) : Prop where
  unarmed : ⟨k, .arm⟩ ∉ trace
  unsignalled : t ∉ w.signalled
  cancellation : w.session.cancellation = none
  kill : w.session.kill = none

/-- The handle is installed, or has been used. -/
structure Reachable (trace : List Step) (w : Traffic) (k : Nat) (t : Ticket) : Prop where
  armed : ⟨k, .arm⟩ ∈ trace
  handle : w.session.cancellation = some t ∨ w.session.kill = some t ∨ t ∈ w.signalled
  told : t ∈ w.signalled ↔ Heeded trace k

/-- What is known of the activity of a call at the point that the call has reached. -/
def Known (trace : List Step) (w : Traffic) (k : Nat) : Phase → Prop
  | .called => ⟨k, .arm⟩ ∉ trace
  | .preparing t | .prepared t _ => Silent trace w k t
  | .working t .. => Reachable trace w k t
  | _ => True

theorem not_mem_append {s' : Step} (fresh : s' ∉ trace) (other : s ≠ s') :
    s' ∉ trace ++ [s] := by
  simp [fresh, Ne.symm other]

theorem known_concluded {settings : Settings} {t : Ticket} {params : CompileParams} {late : Bool}
    {outcome : Except Failure Pipeline.Result} :
    Known trace w k (.concluded settings t params late outcome) := by
  unfold Phase.concluded
  split
  · trivial
  · split
    · trivial
    · split <;> trivial

/-- A step that neither changes handles nor signals, and is nothing that a call has to know of. -/
theorem Known.keep {p : Phase} (known : Known trace w k p)
    (cancellation : w'.session.cancellation = w.session.cancellation)
    (kill : w'.session.kill = w.session.kill) (signalled : w'.signalled = w.signalled)
    (arm : s ≠ ⟨k, .arm⟩) (quiet : ¬ Stops s k) : Known (trace ++ [s]) w' k p := by
  have silent : ∀ t, Silent trace w k t → Silent (trace ++ [s]) w' k t := by
    intro t h
    exact ⟨not_mem_append h.unarmed arm, signalled ▸ h.unsignalled, cancellation ▸ h.cancellation,
      kill ▸ h.kill⟩
  cases p with
  | called => exact not_mem_append known arm
  | preparing t => exact silent t known
  | prepared t job => exact silent t known
  | working t job ahead noticed late =>
      refine ⟨List.mem_append_left _ known.armed, ?_, ?_⟩
      · rw [cancellation, kill, signalled]
        exact known.handle
      · rw [signalled, known.told, heeded_append_singleton]
        simp [arm, quiet]
  | _ => trivial

/-- When the session is stopped, an activity is told to stop if it has installed its handle. -/
theorem Known.stopped {j : Nat} {p p' : Phase} (known : Known trace w k p) (arm : s ≠ ⟨k, .arm⟩)
    (stops : Stops s k) : Known (trace ++ [s]) (w.stopped.goto j p') k p := by
  have silent : ∀ t, Silent trace w k t → Silent (trace ++ [s]) (w.stopped.goto j p') k t := by
    intro t h
    refine ⟨not_mem_append h.unarmed arm, ?_, h.cancellation, rfl⟩
    simp [Traffic.stopped, mem_tickets_terminateCurrent, h.cancellation, h.kill, h.unsignalled]
  cases p with
  | called => exact not_mem_append known arm
  | preparing t => exact silent t known
  | prepared t job => exact silent t known
  | working t job ahead noticed late =>
      have told : t ∈ w.stopped.signalled := by
        apply List.mem_append.2
        rw [mem_tickets_terminateCurrent, or_assoc]
        exact known.handle
      refine ⟨List.mem_append_left _ known.armed, .inr (.inr told), ?_⟩
      rw [heeded_append_singleton]
      exact ⟨fun _ => .inr (.inr ⟨known.armed, stops⟩), fun _ => told⟩
  | _ => trivial

theorem Silent.arming {t : Ticket} {activity : Activity} {job : Job} (h : Silent trace w k t)
    (run : Run calls trace w) :
    Reachable (trace ++ [⟨k, .arm⟩]) (w.arming k ⟨t, activity⟩ job) k t := by
  have ended := run.terminated_iff
  have before : ¬ Heeded trace k := fun heeded => h.unarmed heeded.arm_mem
  have told : t ∈ (w.arming k ⟨t, activity⟩ job).signalled ↔ w.session.state = .terminated := by
    simp only [Traffic.arming, install_now]
    by_cases terminated : w.session.state = .terminated
    · simp [terminated]
    · simp [terminated, h.unsignalled]
  constructor
  case armed => simp
  case handle =>
    rcases install_handle w.session ⟨t, activity⟩ with cancellation | kill | terminated
    · exact .inl cancellation
    · exact .inr (.inl kill)
    · exact .inr (.inr (told.2 terminated))
  case told =>
    rw [told, ended, heeded_append_singleton]
    simp [before, h.unarmed]

/-- A step of a call keeps what is known of the call itself. -/
theorem Known.own (run : Run calls trace w) (drawn : Drawn w)
    (known : Known trace w s.call (w.phase s.call)) (takes : Takes calls w s w') :
    Known (trace ++ [s]) w' s.call (w'.phase s.call) := by
  have inv := run.inv
  cases takes with
  | begin _ phase _ begins =>
      obtain ⟨idle, rfl⟩ := begin?_eq_ok begins
      have none := inv.idle idle
      -- Whatever is installed would be owned by a lease, and there is none.
      have free : ∀ t, ¬ (w.session.cancellation = some t ∨ w.session.kill = some t) := by
        intro t h
        obtain ⟨l, mem, -⟩ := inv.owned t h
        simp [none] at mem
      simp only [phase] at known
      simp only [phase_beginning, phase_goto_self]
      refine ⟨by simpa [Known] using known, ?_, ?_, ?_⟩
      · intro mem
        exact absurd (drawn.signalled _ mem) (Nat.not_succ_le_self _)
      · exact Option.eq_none_iff_forall_ne_some.2 fun t h => free t (.inl h)
      · exact Option.eq_none_iff_forall_ne_some.2 fun t h => free t (.inr h)
  | prepare _ phase _ =>
      simp only [phase] at known
      simp only [phase_goto_self]
      exact Known.keep (p := .prepared _ _) known rfl rfl rfl (by simp) (by simp [Stops])
  | arm _ _ phase =>
      simp only [phase] at known
      simp only [phase_arming, phase_goto_self]
      exact Silent.arming known run
  | check phase =>
      simp only [phase] at known
      simp only [phase_goto_self]
      exact Known.keep (p := .working _ _ _ _ _) known rfl rfl rfl (by simp) (by simp [Stops])
  | expire phase =>
      simp only [phase] at known
      simp only [phase_goto_self]
      refine ⟨List.mem_append_left _ known.armed, .inr (.inr (List.mem_cons_self ..)), ?_⟩
      rw [heeded_append_singleton]
      exact ⟨fun _ => .inr (.inr ⟨known.armed, .inr (.inr rfl)⟩), fun _ => List.mem_cons_self ..⟩
  | conclude _ phase => simpa only [phase_goto_self] using known_concluded ..
  | crash _ phase => simpa only [phase_goto_self] using known_concluded ..
  | _ =>
      simp only [phase_goto_self, phase_leaving]
      trivial

/-- A call without a guard has installed nothing if it has not begun. -/
theorem Known.append_of_free {p : Phase} (known : Known trace w k p) (free : p.ticket? = none)
    (arm : s ≠ ⟨k, .arm⟩) : Known (trace ++ [s]) w' k p := by
  cases p with
  | called => exact not_mem_append known arm
  | returned | browsing | halfway => trivial
  | _ => cases free

/-- A step of a call keeps what is known of the others. -/
theorem Known.other (inv : Inv calls w) (known : Known trace w k (w.phase k))
    (takes : Takes calls w s w') (other : k ≠ s.call) :
    Known (trace ++ [s]) w' k (w'.phase k) := by
  rw [phase_of_takes takes other]
  have arm : s ≠ ⟨k, .arm⟩ := fun h => other (by rw [h])
  cases holds : (w.phase k).ticket? with
  | none => exact known.append_of_free holds arm
  | some t =>
      -- As this call holds the guard, the step is none of a call that holds it.
      have alone : ∀ {j t'}, (w.phase j).ticket? = some t' → j = k := fun h => inv.holder h holds
      cases takes with
      | begin _ _ _ begins =>
          obtain ⟨l, mem, -⟩ := inv.held k t holds
          simp [inv.idle (begin?_eq_ok begins).1] at mem
      | terminate _ _ => exact known.stopped arm (.inl rfl)
      | stop _ _ => exact known.stopped arm (.inr (.inl rfl))
      | arm _ _ phase => exact absurd (alone (by rw [phase]; rfl)).symm other
      | expire phase => exact absurd (alone (by rw [phase]; rfl)).symm other
      | leave phase => exact absurd (alone (by rw [phase]; rfl)).symm other
      | _ => exact known.keep rfl rfl rfl arm (by simp [Stops])

theorem Run.known (run : Run calls trace w) :
    Drawn w ∧ ∀ k, Known trace w k (w.phase k) := by
  refine run.induction (motive := fun trace w => Drawn w ∧ ∀ k, Known trace w k (w.phase k)) ?_ ?_
  · intro settings root
    refine ⟨⟨by simp [opened], by simp [opened]⟩, ?_⟩
    simp [opened, Known]
  · rintro trace w s w' run ⟨drawn, known⟩ takes
    refine ⟨drawn.step run.inv takes, fun k => ?_⟩
    by_cases own : k = s.call
    · subst own
      exact Known.own run drawn (known _) takes
    · exact (known k).other run.inv takes own

/-! ### Compilations that are told to stop -/

/-- Whether an answer tells of a compilation that succeeded. -/
def Succeeds : EventBody → Prop
  | .compileResult outcome => outcome.result.success
  | _ => False

/-- A compilation that has noticed its cancellation, or is going to. -/
def Doomed (w : Traffic) : Phase → Prop
  | .working t (.compile ..) ahead noticed late =>
      (t ∈ w.signalled ∧ ahead ≠ []) ∨ noticed ≠ [] ∨ late
  | .leaving _ body | .returned body => ¬ Succeeds body
  | _ => False

theorem doomed_concluded {settings : Settings} {t : Ticket} {params : CompileParams} {late : Bool}
    {outcome : Except Failure Pipeline.Result}
    (fails : late ∨ ∀ result, outcome = .ok result → ¬ result.success) :
    Doomed w (.concluded settings t params late outcome) := by
  unfold Phase.concluded
  split
  · exact id
  · next inTime =>
      have fails := fails.resolve_left inTime
      cases outcome with
      | error failure => exact id
      | ok result =>
          have := fails result rfl
          simp [this, Doomed, Succeeds]

theorem not_success_outcome {params : CompileParams} {pipeline : Pipeline.Compiler}
    {source : String} {noticed : List Pipeline.Checkpoint} (some : noticed ≠ [])
    {result : Pipeline.Result} (h : params.outcome pipeline source noticed = .ok result) :
    ¬ result.success := by
  intro success
  obtain ⟨c, mem⟩ := List.exists_mem_of_ne_nil noticed some
  unfold CompileParams.outcome at h
  cases compiles : (pipeline.compile (params.request source) fun c => decide (c ∈ noticed)).1 with
  | error refusal =>
      rw [compiles] at h
      cases h
  | ok result' =>
      rw [compiles] at h
      cases h
      have := Pipeline.Compiler.unnoticed_of_success compiles success c
      simp [mem] at this

theorem Doomed.own (doomed : Doomed w (w.phase s.call)) (takes : Takes calls w s w') :
    Doomed w' (w'.phase s.call) := by
  cases takes with
  | @check k t job c ahead noticed late phase =>
      simp only [phase] at doomed
      simp only [phase_goto_self]
      cases job with
      | process activity spawn => exact doomed
      | compile params source =>
          rcases doomed with ⟨signalled, -⟩ | doomed | doomed
          · -- The checkpoint notices the cancellation, so it does not matter whether it is the last.
            simp [Doomed, signalled]
          · refine .inr (.inl ?_)
            split
            · simp
            · exact doomed
          · exact .inr (.inr doomed)
  | expire phase =>
      simp only [phase_goto_self]
      exact .inr (.inr rfl)
  | conclude pipeline phase =>
      simp only [phase] at doomed
      simp only [phase_goto_self]
      apply doomed_concluded
      rcases doomed with ⟨-, done⟩ | noticed | late
      · exact absurd rfl done
      · exact .inr fun result h => not_success_outcome noticed h
      · exact .inl late
  | crash reason phase =>
      simp only [phase_goto_self]
      exact doomed_concluded (.inr fun result h => by cases h)
  | leave phase =>
      simp only [phase] at doomed
      simpa only [phase_leaving, phase_goto_self, Doomed] using doomed
  | _ =>
      -- At no other point a compilation is doomed.
      rename_i phase
      simp_all [Doomed]

theorem Doomed.mono {p : Phase} (doomed : Doomed w p)
    (signalled : ∀ t ∈ w.signalled, t ∈ w'.signalled) : Doomed w' p := by
  cases p with
  | working t job ahead noticed late =>
      cases job with
      | process activity spawn => exact doomed
      | compile params source => exact doomed.imp_left (.imp_left (signalled t))
  | leaving t body => exact doomed
  | returned body => exact doomed
  | _ => exact doomed.elim

theorem Doomed.leads {steps : List Step} (doomed : Doomed w (w.phase k))
    (leads : Leads calls w steps w') : Doomed w' (w'.phase k) := by
  induction leads with
  | refl => exact doomed
  | @snoc _ s w₁ w₂ _ takes ih =>
      by_cases own : k = s.call
      · subst own
        exact ih.own takes
      · rw [phase_of_takes takes own]
        exact ih.mono fun _ => signalled_of_takes takes

/-! ### Requests to terminate -/

/-- As long as an activity has not installed its handle, stopping the session changes nothing. -/
theorem Silent.stopped_eq {t : Ticket} (h : Silent trace w k t) : w.stopped = w := by
  have session : w.session.terminateCurrent.1 = w.session := by
    simp [Occupation.terminateCurrent, ← h.kill]
  have signals : w.session.terminateCurrent.2.1.tickets = [] := by
    simp [Occupation.terminateCurrent, Occupation.Signals.tickets, h.cancellation, h.kill]
  rw [Traffic.stopped, session, signals, List.nil_append]

/-- What becomes of the requests to terminate that come in while an activity is on. -/
structure Termination (calls : Nat → Call) (trace : List Step) (w : Traffic) : Prop where
  /-- Before the handle is installed, they come to nothing. -/
  early : ∀ k t, (w.phase k = .preparing t ∨ ∃ job, w.phase k = .prepared t job) → w.stopped = w
  told : ∀ k t job ahead noticed late, w.phase k = .working t job ahead noticed late →
    (t ∈ w.signalled ↔ Heeded trace k)
  /-- A compilation that is told with a checkpoint ahead does not succeed, whatever comes after. -/
  fails : ∀ k t params source ahead noticed late,
    w.phase k = .working t (.compile params source) ahead noticed late → Heeded trace k →
    ahead ≠ [] → ∀ steps w' body, Leads calls w steps w' → w'.phase k = .returned body →
    ¬ Succeeds body

theorem termination_of_run (run : Run calls trace w) : Termination calls trace w := by
  obtain ⟨-, known⟩ := run.known
  have told : ∀ k t job ahead noticed late, w.phase k = .working t job ahead noticed late →
      (t ∈ w.signalled ↔ Heeded trace k) := by
    intro k t job ahead noticed late working
    have known := known k
    rw [working] at known
    exact known.told
  constructor
  case early =>
    rintro k t (preparing | ⟨job, prepared⟩)
    · have known := known k
      rw [preparing] at known
      exact Silent.stopped_eq known
    · have known := known k
      rw [prepared] at known
      exact Silent.stopped_eq known
  case told => exact told
  case fails =>
    intro k t params source ahead noticed late working heeded more steps w' body leads returned
    have doomed : Doomed w (w.phase k) := by
      rw [working]
      exact .inl ⟨(told _ _ _ _ _ _ working).2 heeded, more⟩
    have := doomed.leads leads
    rwa [returned] at this

/-! ### A request that comes too early -/

theorem goto_phase (w : Traffic) (k : Nat) : w.goto k (w.phase k) = w := by
  have same : (fun j => if j = k then w.phase k else w.phase j) = w.phase := by
    funext j
    split
    · next h => rw [h]
    · rfl
  simp [goto, same]

theorem goto_goto (w : Traffic) (k : Nat) (p p' : Phase) :
    (w.goto k p).goto k p' = w.goto k p' := by
  have same : (fun j => if j = k then p' else if j = k then p else w.phase j) =
      fun j => if j = k then p' else w.phase j := by
    funext j
    split <;> rfl
  simp [goto, same]

/-- A compilation that has not been signalled can pass its next checkpoints. -/
theorem leads_checks {t : Ticket} {job : Job} {noticed : List Pipeline.Checkpoint} {late : Bool}
    (silent : t ∉ w.signalled) (passed ahead : List Pipeline.Checkpoint)
    (working : w.phase k = .working t job (passed ++ ahead) noticed late) :
    Leads calls w (List.replicate passed.length ⟨k, .check⟩)
      (w.goto k (.working t job ahead noticed late)) := by
  induction passed generalizing w with
  | nil =>
      rw [← List.nil_append ahead, ← working, goto_phase]
      exact .refl
  | cons c passed ih =>
      have first : Leads calls w _ _ := .single (.check working)
      rw [if_neg silent] at first
      have rest := ih (w := w.goto k (.working t job (passed ++ ahead) noticed late)) silent
        (by simp)
      rw [goto_goto] at rest
      simpa [List.replicate_succ] using first.trans rest

/-- A compilation of an empty contract, and a request to terminate. -/
def lateCalls : Nat → Call
  | 0 => .serve (.compile ⟨"a", .test, none, none, none⟩)
  | _ => .serve .terminate

/-- The request comes when the compilation has installed its handle. -/
theorem termination_of_run_armed : ∃ trace w, Run lateCalls trace w ∧ Heeded trace 0 ∧
    (∃ source, w.phase 0 = .working 1 (.compile ⟨"a", .test, none, none, none⟩ source)
      checkpoints [] false) ∧ Termination lateCalls trace w := by
  have begun : Leads lateCalls (opened .standard "") [⟨0, .begin⟩] _ :=
    .single (.begin rfl rfl rfl rfl)
  have prepared := begun.snoc (.prepare (k := 0) rfl rfl (.loaded _ "contract T { }"))
  have armed := prepared.snoc (.arm (k := 0) rfl rfl rfl)
  have told := armed.snoc (.terminate (k := 1) rfl rfl)
  have run : Run lateCalls _ _ := ⟨_, _, told⟩
  exact ⟨_, _, run, ⟨[⟨0, .begin⟩, ⟨0, .prepare⟩], [⟨1, .terminate⟩], rfl, by simp [Stops]⟩,
    ⟨_, rfl⟩, termination_of_run run⟩

theorem outcome_empty_contract : ∃ result : Pipeline.Result,
    CompileParams.outcome ⟨"a", .test, none, none, none⟩ (.standard .standard) "contract T { }" [] =
      .ok result ∧ result.success := by
  have succeeds : ((CompileParams.outcome ⟨"a", .test, none, none, none⟩ (.standard .standard)
      "contract T { }" []).map (·.success)).toOption = some true := by decide +kernel
  revert succeeds
  cases CompileParams.outcome ⟨"a", .test, none, none, none⟩ (.standard .standard)
      "contract T { }" [] with
  | error failure => simp [Except.map, Except.toOption]
  | ok result => simp [Except.map, Except.toOption]

/-- The session when the compilation has begun. -/
def begunLate : Traffic :=
  (opened .standard "").beginning 0 .compile ⟨.compiling, some "a", none, none⟩

/-- The request comes while the compilation looks at its file. It is answered, nothing is signalled,
and the compilation, none of whose stages had started, succeeds. -/
theorem terminate_lost : ∃ before after w, Run lateCalls before begunLate ∧
    begunLate.session.state = .compiling ∧ begunLate.phase 0 = .preparing 1 ∧
    Leads lateCalls begunLate (⟨1, .terminate⟩ :: after) w ∧ w.signalled = [] ∧
    ∃ body, w.phase 0 = .returned body ∧ Succeeds body := by
  obtain ⟨result, compiles, success⟩ := outcome_empty_contract
  have begun : Run lateCalls [⟨0, .begin⟩] begunLate :=
    ⟨.standard, "", .single (.begin rfl rfl rfl rfl)⟩
  have asked : Leads lateCalls begunLate [⟨1, .terminate⟩] _ := .single (.terminate rfl rfl)
  have prepared := asked.snoc (.prepare (k := 0) rfl rfl (.loaded _ "contract T { }"))
  have armed := prepared.snoc (.arm (k := 0) rfl rfl rfl)
  have passed := armed.trans (leads_checks (t := 1) (k := 0) List.not_mem_nil checkpoints [] rfl)
  have concluded := passed.snoc (.conclude (k := 0) (.standard .standard) rfl)
  have answer (settings : Settings) : Phase.concluded settings 1 ⟨"a", .test, none, none, none⟩
      false (CompileParams.outcome ⟨"a", .test, none, none, none⟩ (.standard .standard)
        "contract T { }" []) = .leaving 1 (.compileResult ⟨"a", result, none, 0⟩) := by
    simp [Phase.concluded, compiles, Pipeline.Mode.isStored]
  have left := concluded.snoc (.leave (k := 0) (answer .standard))
  exact ⟨_, _, _, begun, rfl, rfl, left, rfl, _, rfl, success⟩

end Workbench.Session.Traffic
