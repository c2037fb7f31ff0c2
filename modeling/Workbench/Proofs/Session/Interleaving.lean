import Workbench.Session.Activity

/-!
# Interleaved requests

A session is shared by any number of requests, and each request goes through its steps at its own
pace: it begins an activity, installs the handle by which the activity can be stopped, and finishes.
Requests to terminate come in between, and so do the two steps of the end of the session. A `Run` is
any order of all these steps; what holds after every run holds however requests interleave.
-/

namespace Workbench.Session

/-! ### Steps -/

/-- An activity that has begun. -/
structure Guard where
  ticket : Ticket
  activity : Activity
  deriving DecidableEq, Repr

/-- How far the end of the session has come. -/
inductive Closing where
  | awaited
  | halfway
  | returned
  deriving DecidableEq, Repr

/-- What runs without interruption. -/
inductive Step where
  | begin (activity : Activity) (file : Option String)
  /-- An activity installs its handle. -/
  | arm (guard : Guard)
  /-- A compilation that takes too long is cancelled by its own request. -/
  | expire (guard : Guard)
  | finish (guard : Guard)
  | terminate
  /-- The end of the session stops what the session is busy with, … -/
  | stop
  /-- … and then, in a step of its own, ends it. -/
  | close
  deriving DecidableEq, Repr

/-- The session and all that the requests know of it. -/
structure World where
  session : Occupation
  begun : Nat
  /-- The activities that have not finished. -/
  guards : List Guard
  /-- The tickets whose handle has been installed. -/
  armed : List Ticket
  signalled : List Ticket
  closing : Closing
  deriving DecidableEq, Repr

/-- Installs the handle of an activity. -/
def Occupation.install (s : Occupation) (g : Guard) : Occupation × Bool :=
  match g.activity with
  | .compile => s.installCancellation g.ticket
  | _ => s.installKill g.ticket

/-- The tickets that have been signalled, in no order. -/
def Occupation.Signals.tickets (s : Occupation.Signals) : List Ticket :=
  s.cancelled.toList ++ s.killed.toList

namespace World

def opened : World := ⟨.opened, 0, [], [], [], .awaited⟩

/-- Stops what the session is busy with. -/
def stopped (w : World) : World :=
  { w with
    session := w.session.terminateCurrent.1
    signalled := w.session.terminateCurrent.2.1.tickets ++ w.signalled }

/-- The steps that can be taken, and the world after each. -/
inductive Takes (w : World) : Step → World → Prop
  | refuse {activity : Activity} {file : Option String} {failure : Failure} :
      w.session.begin? activity file = .error failure → Takes w (.begin activity file) w
  | begin {activity : Activity} {file : Option String} {session : Occupation} :
      w.session.begin? activity file = .ok session →
      Takes w (.begin activity file)
        { w with
          session := session
          begun := w.begun + 1
          guards := ⟨w.begun + 1, activity⟩ :: w.guards }
  | arm {g : Guard} : g ∈ w.guards → g.ticket ∉ w.armed →
      Takes w (.arm g)
        { w with
          session := (w.session.install g).1
          armed := g.ticket :: w.armed
          signalled := if (w.session.install g).2 then g.ticket :: w.signalled else w.signalled }
  | expire {g : Guard} : g ∈ w.guards → g.ticket ∈ w.armed → g.activity = .compile →
      Takes w (.expire g) { w with signalled := g.ticket :: w.signalled }
  | finish {g : Guard} : g ∈ w.guards →
      Takes w (.finish g) { w with session := w.session.finish, guards := w.guards.erase g }
  | terminate : Takes w .terminate w.stopped
  | stop : w.closing = .awaited → Takes w .stop { w.stopped with closing := .halfway }
  | close : w.closing = .halfway →
      Takes w .close { w with session := w.session.close, closing := .returned }

/-- What any order of steps can lead to, and the steps, the last one at the end. -/
inductive Run : World → List Step → Prop
  | opened : Run opened []
  | step {w w' : World} {trace : List Step} {s : Step} :
      Run w trace → w.Takes s w' → Run w' (trace ++ [s])

/-! ### What every step keeps -/

/-- At most one activity is on at a time, the state of the session is that of the activity, and what
is installed is the handle of that activity. -/
structure Inv (w : World) : Prop where
  closed : w.session.state = .terminated ↔ w.closing = .returned
  idle : w.session.state = .idle → w.guards = []
  single : ∀ g ∈ w.guards, w.guards = [g]
  free : w.guards = [] → w.session.cancellation = none ∧ w.session.kill = none
  drawn : ∀ g ∈ w.guards, g.ticket ≤ w.begun
  known : ∀ t ∈ w.armed, t ≤ w.begun
  earned : ∀ t ∈ w.signalled, t ∈ w.armed
  /-- The handle of a compilation stays installed, that of a process until it is signalled. -/
  handle : ∀ g ∈ w.guards, g.ticket ∈ w.armed →
    w.session.cancellation = some g.ticket ∨ w.session.kill = some g.ticket ∨
      g.ticket ∈ w.signalled
  owned : ∀ t, w.session.cancellation = some t ∨ w.session.kill = some t → t ∈ w.armed

theorem inv_opened : Inv opened where
  closed := by decide
  idle := fun _ => rfl
  single := by simp [opened]
  free := fun _ => ⟨rfl, rfl⟩
  drawn := by simp [opened]
  known := by simp [opened]
  earned := by simp [opened]
  handle := by simp [opened]
  owned := by simp [opened, Occupation.opened]

variable {w w' : World} {g : Guard}

theorem begin?_eq_ok {s s' : Occupation} {activity : Activity} {file : Option String}
    (h : s.begin? activity file = .ok s') : s.state = .idle ∧
      s' = { s with state := activity.state, activeFile := file <|> s.activeFile } := by
  unfold Occupation.begin? at h
  split at h
  · next idle =>
      cases h
      exact ⟨idle, rfl⟩
  · cases h
  · cases h

theorem state_activity (activity : Activity) :
    activity.state ≠ .idle ∧ activity.state ≠ .terminated := by
  cases activity <;> decide

theorem inv_begin (inv : Inv w) {activity : Activity} {file : Option String}
    {session : Occupation} (begins : w.session.begin? activity file = .ok session) :
    Inv { w with
      session := session
      begun := w.begun + 1
      guards := ⟨w.begun + 1, activity⟩ :: w.guards } := by
  obtain ⟨idle, rfl⟩ := begin?_eq_ok begins
  have none := inv.idle idle
  have open_ : w.closing ≠ .returned := fun h => by
    have := inv.closed.2 h
    rw [idle] at this
    cases this
  have busy := state_activity activity
  constructor
  case closed => simp [busy.2, open_]
  case idle => exact fun h => absurd h busy.1
  case single => simp [none]
  case free => simp
  case drawn => simp [none]
  case known => exact fun t mem => Nat.le_succ_of_le (inv.known t mem)
  case earned => exact inv.earned
  case handle =>
    -- The ticket is a new one.
    intro g mem armed
    simp only [none, List.mem_singleton] at mem
    have := inv.known g.ticket armed
    rw [mem] at this
    exact absurd this (Nat.not_succ_le_self _)
  case owned => exact inv.owned

theorem install_state (s : Occupation) (g : Guard) : (s.install g).1.state = s.state := by
  unfold Occupation.install
  cases g.activity with
  | compile => rfl
  | _ =>
      simp only [Occupation.installKill]
      split <;> rfl

/-- The handle is signalled at once if the session has ended, and else it is installed. -/
theorem install_now (s : Occupation) (g : Guard) :
    (s.install g).2 = (s.state == .terminated) := by
  unfold Occupation.install
  cases g.activity with
  | compile => rfl
  | _ =>
      simp only [Occupation.installKill]
      split
      · next h => simp [h]
      · next h => simp [h]

theorem install_handle (s : Occupation) (g : Guard) :
    (s.install g).1.cancellation = some g.ticket ∨ (s.install g).1.kill = some g.ticket ∨
      s.state = .terminated := by
  unfold Occupation.install
  cases g.activity with
  | compile => exact .inl rfl
  | _ =>
      simp only [Occupation.installKill]
      split
      · next h => exact .inr (.inr h)
      · exact .inr (.inl rfl)

theorem install_owned (s : Occupation) (g : Guard) {t : Ticket}
    (h : (s.install g).1.cancellation = some t ∨ (s.install g).1.kill = some t) :
    t = g.ticket ∨ s.cancellation = some t ∨ s.kill = some t := by
  revert h
  unfold Occupation.install
  cases g.activity with
  | compile =>
      simp only [Occupation.installCancellation, Option.some.injEq]
      rintro (rfl | h)
      · exact .inl rfl
      · exact .inr (.inr h)
  | _ =>
      simp only [Occupation.installKill]
      split
      · exact .inr
      · simp only [Option.some.injEq]
        rintro (h | rfl)
        · exact .inr (.inl h)
        · exact .inl rfl

theorem inv_arm (inv : Inv w) (live : g ∈ w.guards) :
    Inv { w with
      session := (w.session.install g).1
      armed := g.ticket :: w.armed
      signalled := if (w.session.install g).2 then g.ticket :: w.signalled else w.signalled } := by
  have only := inv.single g live
  constructor
  case closed => simpa [install_state] using inv.closed
  case idle => simpa [install_state] using inv.idle
  case single => exact inv.single
  case free => simp [only]
  case drawn => exact inv.drawn
  case known =>
    have := inv.drawn g live
    simpa [this] using inv.known
  case earned =>
    intro t mem
    have : t = g.ticket ∨ t ∈ w.signalled := by
      revert mem
      simp only
      split <;> simp +contextual
    rcases this with rfl | mem
    · simp
    · exact List.mem_cons_of_mem _ (inv.earned t mem)
  case handle =>
    intro g' mem _
    simp only [only, List.mem_singleton] at mem
    subst mem
    simp only [install_now]
    rcases install_handle w.session g' with h | h | h
    · exact .inl h
    · exact .inr (.inl h)
    · refine .inr (.inr ?_)
      simp [h]
  case owned =>
    intro t h
    rcases install_owned w.session g h with rfl | h
    · simp
    · exact List.mem_cons_of_mem _ (inv.owned t h)

theorem inv_expire (inv : Inv w) (armed : g.ticket ∈ w.armed) :
    Inv { w with signalled := g.ticket :: w.signalled } :=
  { inv with
    earned := by simpa [armed] using inv.earned
    handle := fun g mem armed => (inv.handle g mem armed).imp id
      (.imp id (List.mem_cons_of_mem _)) }

theorem inv_finish (inv : Inv w) (live : g ∈ w.guards) :
    Inv { w with session := w.session.finish, guards := w.guards.erase g } := by
  have none : w.guards.erase g = [] := by simp [inv.single g live]
  constructor
  case closed =>
    simp only [Occupation.finish]
    split
    · next h => simpa [h] using inv.closed
    · next h => simpa [h] using inv.closed
  case idle => exact fun _ => none
  case free => exact fun _ => ⟨rfl, rfl⟩
  case known => exact inv.known
  case earned => exact inv.earned
  case owned => simp [Occupation.finish]
  all_goals simp [none]

theorem mem_tickets_terminateCurrent {s : Occupation} {t : Ticket} :
    t ∈ s.terminateCurrent.2.1.tickets ↔ s.cancellation = some t ∨ s.kill = some t := by
  simp [Occupation.terminateCurrent, Occupation.Signals.tickets]

/-- Whatever is on is stopped, unless its handle is not installed yet. -/
theorem mem_signalled_stopped (inv : Inv w) (live : g ∈ w.guards) (armed : g.ticket ∈ w.armed) :
    g.ticket ∈ w.stopped.signalled := by
  apply List.mem_append.2
  rw [mem_tickets_terminateCurrent, or_assoc]
  exact inv.handle g live armed

theorem inv_stopped (inv : Inv w) : Inv w.stopped where
  closed := inv.closed
  idle := inv.idle
  single := inv.single
  free none := ⟨(inv.free none).1, rfl⟩
  drawn := inv.drawn
  known := inv.known
  earned := by
    intro t mem
    rcases List.mem_append.1 mem with mem | mem
    · exact inv.owned t (mem_tickets_terminateCurrent.1 mem)
    · exact inv.earned t mem
  handle g live armed := .inr (.inr (mem_signalled_stopped inv live armed))
  owned := by
    intro t h
    apply inv.owned t
    simpa [stopped, Occupation.terminateCurrent] using h.imp_right (fun h => by cases h)

theorem inv_step (inv : Inv w) {s : Step} (h : w.Takes s w') : Inv w' := by
  cases h with
  | refuse _ => exact inv
  | begin begins => exact inv_begin inv begins
  | arm live _ => exact inv_arm inv live
  | expire _ armed _ => exact inv_expire inv armed
  | finish live => exact inv_finish inv live
  | terminate => exact inv_stopped inv
  | stop awaited =>
      have closed := inv.closed
      rw [awaited] at closed
      exact { inv_stopped inv with
        closed := by simpa [stopped, Occupation.terminateCurrent] using closed }
  | close _ =>
      exact { inv with
        closed := by simp [Occupation.close]
        idle := fun h => by cases h }

theorem Run.inv {trace : List Step} (run : Run w trace) : Inv w := by
  induction run with
  | opened => exact inv_opened
  | step _ h ih => exact inv_step ih h

end World

end Workbench.Session
