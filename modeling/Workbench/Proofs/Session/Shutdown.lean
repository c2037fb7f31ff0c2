import Workbench.Proofs.Session.Interleaving

/-!
# The end of a session

The end of a session is made of two steps, and other requests may run between them. A handle that is
installed before the first step is signalled by it, and one that is installed after the second is
signalled at once. In between neither is the case, and such an activity goes on after the session
has ended unless something else stops it. No other activity does.
-/

namespace Workbench.Session.World

variable {w w' : World} {trace : List Step} {s : Step} {g : Guard}

/-! ### Exposed activities -/

/-- The activity installs its handle while the session has not ended, and nothing stops it after. -/
def Exposed (trace : List Step) (g : Guard) : Prop :=
  ∃ before after, trace = before ++ .arm g :: after ∧ .close ∉ before ∧
    .terminate ∉ after ∧ .stop ∉ after ∧ .expire g ∉ after

/-- The activity installs its handle between the two steps of the end of the session, and nothing
stops it after. -/
def ArmedBetween (trace : List Step) (g : Guard) : Prop :=
  ∃ before after, trace = before ++ .arm g :: after ∧ .stop ∈ before ∧ .close ∈ after ∧
    .terminate ∉ after ∧ .expire g ∉ after

/-- The steps that signal an activity if its handle is installed. -/
def Stops (s : Step) (g : Guard) : Prop :=
  s = .terminate ∨ s = .stop ∨ s = .expire g

theorem exposed_append_singleton : Exposed (trace ++ [s]) g ↔
    (s = .arm g ∧ .close ∉ trace) ∨ (Exposed trace g ∧ ¬ Stops s g) := by
  constructor
  · rintro ⟨before, after, split, open_, terminate, stop, expire⟩
    -- The handle is installed by the last step or before it.
    rcases List.eq_nil_or_concat after with rfl | ⟨after, last, rfl⟩
    · obtain ⟨rfl, same⟩ := List.append_inj' split rfl
      cases same
      exact .inl ⟨rfl, open_⟩
    · rw [List.concat_eq_append, ← List.cons_append, ← List.append_assoc] at split
      obtain ⟨rfl, same⟩ := List.append_inj' split rfl
      cases same
      simp only [List.concat_eq_append, List.mem_append, List.mem_singleton, not_or]
        at terminate stop expire
      refine .inr ⟨⟨before, after, rfl, open_, terminate.1, stop.1, expire.1⟩, ?_⟩
      rintro (rfl | rfl | rfl)
      · exact terminate.2 rfl
      · exact stop.2 rfl
      · exact expire.2 rfl
  · rintro (⟨rfl, open_⟩ | ⟨⟨before, after, rfl, open_, terminate, stop, expire⟩, goes⟩)
    · exact ⟨trace, [], rfl, open_, by simp, by simp, by simp⟩
    · refine ⟨before, after ++ [s], by simp, open_, ?_, ?_, ?_⟩
      all_goals simp only [List.mem_append, List.mem_singleton, not_or]
      · exact ⟨terminate, fun h => goes (.inl h.symm)⟩
      · exact ⟨stop, fun h => goes (.inr (.inl h.symm))⟩
      · exact ⟨expire, fun h => goes (.inr (.inr h.symm))⟩

/-! ### What the steps tell -/

/-- What the steps of a run tell of the world after them. -/
structure Traced (w : World) (trace : List Step) : Prop where
  stops : trace.count .stop = if w.closing = .awaited then 0 else 1
  closes : trace.count .close = if w.closing = .returned then 1 else 0
  armed : ∀ g, .arm g ∈ trace → g.ticket ∈ w.armed

theorem Traced.close_mem (h : Traced w trace) : .close ∈ trace ↔ w.closing = .returned := by
  rw [← List.count_pos_iff, h.closes]
  split <;> simp [*]

/-- A step that neither ends the session nor installs a handle. -/
theorem Traced.append_other (h : Traced w trace) (stop : s ≠ .stop) (close : s ≠ .close)
    (arm : ∀ g, s ≠ .arm g) (closing : w'.closing = w.closing) (armed : w'.armed = w.armed) :
    Traced w' (trace ++ [s]) := by
  constructor
  case stops => simp [h.stops, closing, stop]
  case closes => simp [h.closes, closing, close]
  case armed =>
    intro g mem
    rcases List.mem_append.1 mem with mem | mem
    · exact armed ▸ h.armed g mem
    · exact absurd (List.mem_singleton.1 mem).symm (arm g)

theorem Traced.step (h : Traced w trace) (takes : w.Takes s w') : Traced w' (trace ++ [s]) := by
  cases takes with
  | arm live fresh =>
      refine ⟨by simp [h.stops], by simp [h.closes], ?_⟩
      intro g mem
      rcases List.mem_append.1 mem with mem | mem
      · exact List.mem_cons_of_mem _ (h.armed g mem)
      · cases List.mem_singleton.1 mem
        exact List.mem_cons_self ..
  | stop awaited =>
      exact ⟨by simp [h.stops, awaited], by simp [h.closes, awaited],
        fun g mem => h.armed g (by simpa using mem)⟩
  | close halfway =>
      exact ⟨by simp [h.stops, halfway], by simp [h.closes, halfway],
        fun g mem => h.armed g (by simpa using mem)⟩
  | _ => exact h.append_other (by simp) (by simp) (by simp) rfl rfl

theorem Run.traced (run : Run w trace) : Traced w trace := by
  induction run with
  | opened => exact ⟨by decide, by decide, by simp⟩
  | step _ takes ih => exact ih.step takes

theorem Traced.exposed_iff (traced : Traced w trace) (returned : w.closing = .returned) :
    Exposed trace g ↔ ArmedBetween trace g := by
  have stops : trace.count .stop = 1 := by simp [traced.stops, returned]
  have closes : trace.count .close = 1 := by simp [traced.closes, returned]
  constructor
  · rintro ⟨before, after, rfl, open_, terminate, stop, expire⟩
    refine ⟨before, after, rfl, ?_, ?_, terminate, expire⟩
    · have none := List.count_eq_zero.2 stop
      rw [List.count_append, List.count_cons, none] at stops
      exact List.count_pos_iff.1 (by simp at stops; omega)
    · have none := List.count_eq_zero.2 open_
      rw [List.count_append, List.count_cons, none] at closes
      exact List.count_pos_iff.1 (by simp at closes; omega)
  · rintro ⟨before, after, rfl, stop, close, terminate, expire⟩
    have once := List.count_pos_iff.2 stop
    have late := List.count_pos_iff.2 close
    rw [List.count_append, List.count_cons] at stops closes
    refine ⟨before, after, rfl, ?_, terminate, ?_, expire⟩
    · exact List.count_eq_zero.1 (by omega)
    · exact List.count_eq_zero.1 (by omega)

/-! ### Signals -/

/-- Every activity whose handle is installed has been signalled, the exposed ones excepted. -/
def Told (w : World) (trace : List Step) : Prop :=
  ∀ g ∈ w.guards, g.ticket ∈ w.armed → (g.ticket ∈ w.signalled ↔ ¬ Exposed trace g)

theorem told_arm (inv : Inv w) (traced : Traced w trace) (fresh : g.ticket ∉ w.armed) :
    g.ticket ∈ (if (w.session.install g).2 then g.ticket :: w.signalled else w.signalled) ↔
      ¬ Exposed (trace ++ [.arm g]) g := by
  have silent : g.ticket ∉ w.signalled := fun mem => fresh (inv.earned _ mem)
  have first : ¬ Exposed trace g := by
    rintro ⟨before, after, rfl, -⟩
    exact fresh (traced.armed g (by simp))
  have ended : w.session.state = .terminated ↔ .close ∈ trace := by
    rw [inv.closed, traced.close_mem]
  rw [exposed_append_singleton, install_now]
  by_cases terminated : w.session.state = .terminated
  · have closed := ended.1 terminated
    simp [terminated, closed, first]
  · have open_ := mt ended.2 terminated
    simp [terminated, open_, silent]

theorem told_step (inv : Inv w) (traced : Traced w trace) (told : Told w trace)
    (takes : w.Takes s w') : Told w' (trace ++ [s]) := by
  intro g live armed
  cases takes with
  | refuse _ => simpa [exposed_append_singleton, Stops] using told g live armed
  | begin begins =>
      -- The new activity has installed nothing yet.
      have none := inv.idle (begin?_eq_ok begins).1
      simp only [none, List.mem_singleton] at live
      have := inv.known g.ticket armed
      rw [live] at this
      exact absurd this (Nat.not_succ_le_self _)
  | @arm g' live' fresh =>
      simp only [inv.single g' live', List.mem_singleton] at live
      subst live
      exact told_arm inv traced fresh
  | @expire g' live' _ _ =>
      simp only [inv.single g' live', List.mem_singleton] at live
      subst live
      simp [exposed_append_singleton, Stops]
  | @finish g' live' =>
      simp [inv.single g' live'] at live
  | terminate =>
      have signalled := mem_signalled_stopped inv live armed
      simp [exposed_append_singleton, Stops, signalled]
  | stop _ =>
      have signalled := mem_signalled_stopped inv live armed
      simp [exposed_append_singleton, Stops, signalled]
  | close _ => simpa [exposed_append_singleton, Stops] using told g live armed

theorem Run.told (run : Run w trace) : Told w trace := by
  induction run with
  | opened => simp [Told, World.opened]
  | step run takes ih => exact told_step run.inv run.traced ih takes

/-! ### After the end -/

/-- The end of a session is its two steps, one after the other. -/
theorem session_stop_close {w₁ w₂ : World} (stop : w.Takes .stop w₁) (close : w₁.Takes .close w₂) :
    w₂.session = w.session.shutdown.1 := by
  cases stop
  cases close
  rfl

/-- Once the session has ended, the handle of an activity that is still on is signalled, unless it
was installed between the two steps of the end and nothing stopped the activity since. -/
theorem signalled_after_end_iff (run : Run w trace) (returned : w.closing = .returned)
    (live : g ∈ w.guards) (armed : g.ticket ∈ w.armed) :
    g.ticket ∈ w.signalled ↔ ¬ ArmedBetween trace g := by
  rw [run.told g live armed, run.traced.exposed_iff returned]

/-- A compilation that begins and installs its handle between the two steps. -/
theorem run_between : Run
    ⟨⟨.terminated, none, some 1, none⟩, 1, [⟨1, .compile⟩], [1], [], .returned⟩
    [.stop, .begin .compile none, .arm ⟨1, .compile⟩, .close] := by
  have stopped : Run _ [.stop] := Run.opened.step (.stop rfl)
  have begun : Run _ [.stop, .begin .compile none] := stopped.step (.begin rfl)
  have armed : Run _ [.stop, .begin .compile none, .arm ⟨1, .compile⟩] :=
    begun.step (.arm (List.mem_cons_self ..) (by decide))
  exact armed.step (.close rfl)

theorem signalled_after_end_iff_between : ∃ w, ∃ g ∈ w.guards, w.closing = .returned ∧
    g.ticket ∈ w.armed ∧ ∃ trace, Run w trace ∧
    (g.ticket ∈ w.signalled ↔ ¬ ArmedBetween trace g) :=
  ⟨_, _, List.mem_cons_self .., rfl, List.mem_cons_self .., _, run_between,
    signalled_after_end_iff run_between rfl (List.mem_cons_self ..) (List.mem_cons_self ..)⟩

/-- That compilation is still on after the end, and nobody has told it to stop. -/
theorem live_unsignalled_after_end : ∃ w trace, Run w trace ∧ w.closing = .returned ∧
    ∃ g ∈ w.guards, g.ticket ∈ w.armed ∧ g.ticket ∉ w.signalled :=
  ⟨_, _, run_between, rfl, ⟨1, .compile⟩, by decide, by decide, by decide⟩

end Workbench.Session.World
