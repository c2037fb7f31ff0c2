import Workbench.Session.Coordinator

/-!
# What serving a request leaves behind

No request changes the settings. Work that waits keeps its session busy, and a busy session answers
every other request at once, as whatever else could wait cannot begin.
-/

namespace Workbench.Session.Coordinator

open Pipeline (Result)

variable {c c' : Coordinator} {r : Progress × Coordinator}

/-- What is done to the files changes only the files. -/
theorem perform_keeps {α : Type} {act : Action α} {answer : Except Failure α}
    (h : c.perform act = (answer, c')) :
    c'.settings = c.settings ∧ c'.session = c.session := by
  have changed : (c.perform act).2 = c' := by rw [h]
  subst changed
  exact ⟨rfl, rfl⟩

/-! ### Answers -/

/-- The request is answered, and the settings are as they were. -/
structure Answers (c : Coordinator) (r : Progress × Coordinator) : Prop where
  answered : ∃ body, r.1 = .answered body
  settings : r.2.settings = c.settings

theorem answers_finishWith (body : EventBody) (same : c'.settings = c.settings) :
    Answers c (c'.finishWith body) :=
  ⟨⟨body, rfl⟩, same⟩

theorem answers_onFiles {α : Type} (act : Action α) (body : α → EventBody) :
    Answers c (c.onFiles act body) := by
  unfold onFiles
  split
  · exact ⟨⟨_, rfl⟩, rfl⟩
  · exact ⟨⟨_, rfl⟩, rfl⟩

theorem answers_finishCompile (params : CompileParams) (result : Result)
    (same : c'.settings = c.settings) : Answers c (c'.finishCompile params result) := by
  unfold finishCompile
  split
  · split
    · next h => exact answers_finishWith _ ((perform_keeps h).1.trans same)
    · next h => exact answers_finishWith _ ((perform_keeps h).1.trans same)
  · exact answers_finishWith _ same

theorem answers_finishSealing (c : Coordinator) (s : Sealing) : Answers c (c.finishSealing s) := by
  have same : (if s.draft.wantsSeal then { c with pipeline := c.pipeline.afterSealing }
      else c).settings = c.settings := by
    split <;> rfl
  unfold finishSealing
  dsimp only
  split
  · exact answers_finishWith _ same
  · exact answers_finishCompile _ _ same

theorem answers_endProcess (c : Coordinator) (activity : Activity)
    (outcome : Except Failure ProcessOutput) : Answers c (c.endProcess activity outcome) :=
  answers_finishWith _ rfl

/-! ### Requests -/

/-- The settings are as they were, and if work waits now, the session is busy. -/
structure Serves (c : Coordinator) (r : Progress × Coordinator) : Prop where
  settings : r.2.settings = c.settings
  busy : ∀ work, r.1 = .pending work → r.2.session.state ≠ .idle

theorem Answers.serves (answers : Answers c r) : Serves c r where
  settings := answers.settings
  busy work pending := by
    obtain ⟨body, answered⟩ := answers.answered
    rw [answered] at pending
    cases pending

theorem serves_beginThen {activity : Activity} {file : Option String}
    {next : Coordinator → Progress × Coordinator}
    (serves : ∀ c', c'.settings = c.settings → c'.session.state ≠ .idle → Serves c (next c')) :
    Serves c (c.beginThen activity file next) := by
  unfold beginThen
  split
  · exact ⟨rfl, fun _ h => by cases h⟩
  · next session begins =>
      refine serves _ rfl ?_
      unfold Occupation.begin? at begins
      split at begins
      · cases begins
        cases activity <;> simp [Activity.state]
      · cases begins
      · cases begins

theorem serves_compileSource (params : CompileParams) (source : String) (cancelled : Bool)
    (same : c'.settings = c.settings) (busy : c'.session.state ≠ .idle) :
    Serves c (c'.compileSource params source cancelled) := by
  unfold compileSource
  dsimp only
  split
  · exact (answers_finishWith _ same).serves
  · exact (answers_finishCompile _ _ same).serves
  · next draft _ =>
      split
      · exact ⟨same, fun _ _ => busy⟩
      · have answers := answers_finishSealing c' ⟨params, draft, cancelled, 0⟩
        exact { answers.serves with settings := answers.settings.trans same }

theorem serves_startProcess (activity : Activity) (spawn : Spawn)
    (same : c'.settings = c.settings) (busy : c'.session.state ≠ .idle) :
    Serves c (c'.startProcess activity spawn) := by
  have state : (c'.session.installKill c'.begun).1.state = c'.session.state := by
    unfold Occupation.installKill
    split <;> rfl
  unfold startProcess
  dsimp only
  split
  · refine (answers_finishWith _ ?_).serves
    exact same
  · refine ⟨same, fun _ _ => ?_⟩
    rw [state]
    exact busy

theorem serves_compile (c : Coordinator) (params : CompileParams) :
    Serves c (c.compile params) := by
  refine serves_beginThen fun c' same busy => ?_
  split
  · next h => exact (answers_finishWith _ ((perform_keeps h).1.trans same)).serves
  · next file c₁ h =>
      obtain ⟨settings, session⟩ := perform_keeps h
      have busy : (c₁.session.installCancellation c₁.begun).1.state ≠ .idle := by
        rw [session]
        exact busy
      exact serves_compileSource _ _ _ (settings.trans same) busy

theorem serves_launch (c : Coordinator) (activity : Activity) (command : Command)
    (params : RunParams) : Serves c (c.launch activity command params) := by
  refine serves_beginThen fun c' same busy => ?_
  split
  · exact (answers_finishWith _ same).serves
  · split
    · next h =>
        obtain ⟨settings, session⟩ := perform_keeps h
        rw [← session] at busy
        exact serves_startProcess _ _ (settings.trans same) busy
    · next h =>
        exact (answers_finishWith _ ((perform_keeps h).1.trans same)).serves

theorem serves_terminal (c : Coordinator) (command : String) (timeout : Option Nat) :
    Serves c (c.terminal command timeout) :=
  serves_beginThen fun _ same busy => serves_startProcess _ _ same busy

theorem serves_handle (c : Coordinator) (request : Request) : Serves c (c.handle request) := by
  cases request with
  | saveFile | loadFile | createFile | deleteFile | getFiles =>
      rw [handle]
      exact (answers_onFiles _ _).serves
  | compile params => exact serves_compile c params
  | run params | debug params => exact serves_launch c _ _ params
  | terminal command timeout => exact serves_terminal c command timeout
  | terminate => exact ⟨rfl, fun _ h => by cases h⟩

/-! ### Busy sessions -/

theorem beginThen_of_busy (busy : c.session.state ≠ .idle) (activity : Activity)
    (file : Option String) (next : Coordinator → Progress × Coordinator) :
    ∃ failure, c.beginThen activity file next = (.answered (.failed failure), c) := by
  unfold beginThen
  split
  · exact ⟨_, rfl⟩
  · next session begins =>
      unfold Occupation.begin? at begins
      split at begins
      · contradiction
      · cases begins
      · cases begins

theorem onFiles_answered {α : Type} (c : Coordinator) (act : Action α) (body : α → EventBody) :
    ∃ answer, (c.onFiles act body).1 = .answered answer ∧
      (c.onFiles act body).2.session = c.session := by
  unfold onFiles
  split
  · exact ⟨_, rfl, rfl⟩
  · exact ⟨_, rfl, rfl⟩

theorem handle_of_busy (busy : c.session.state ≠ .idle) (request : Request) :
    ∃ body, (c.handle request).1 = .answered body ∧
      (c.handle request).2.session.state = c.session.state := by
  have refused : ∀ activity file next, ∃ body,
      (c.beginThen activity file next).1 = .answered body ∧
        (c.beginThen activity file next).2.session.state = c.session.state := by
    intro activity file next
    obtain ⟨failure, refused⟩ := beginThen_of_busy busy activity file next
    exact ⟨_, by rw [refused], by rw [refused]⟩
  cases request with
  | saveFile | loadFile | createFile | deleteFile | getFiles =>
      rw [handle]
      obtain ⟨answer, answered, session⟩ := onFiles_answered c _ _
      exact ⟨answer, answered, congrArg Occupation.state session⟩
  | compile | run | debug | terminal => exact refused ..
  | terminate => exact ⟨_, rfl, rfl⟩

end Workbench.Session.Coordinator
