import Workbench.Proofs.Loader.Plan
import Workbench.Proofs.Session.Termination

/-!
# Calls that nothing comes in between

A coordinator serves a request in one go as far as it can, and goes on when what it waits for has
come. Each of these is what the steps of the call alone lead to, so the coordinator goes through one
of the runs that are allowed.
-/

namespace Workbench.Session

/-! ### The root of a store -/

/-- The action leaves the root where it is. -/
def Action.KeepsRoot {α : Type} (x : Action α) : Prop :=
  ∀ s, (x s).2.root = s.root

namespace Loader

open Session.Action (KeepsRoot)

variable {α β : Type}

theorem keepsRoot_pure (a : α) : KeepsRoot (pure a) :=
  fun _ => rfl

theorem keepsRoot_get : KeepsRoot get :=
  fun _ => rfl

theorem keepsRoot_query (look : Files.Disk → Except Files.Fault α) :
    KeepsRoot (Action.query look) :=
  fun _ => rfl

theorem keepsRoot_change (act : Files.Disk → Nat → Except Files.Fault Files.Disk) :
    KeepsRoot (Action.change act) :=
  fun _ => rfl

theorem keepsRoot_orFail (place : Files.Place) (answer : Except Files.Fault α) :
    KeepsRoot (Action.orFail place answer) := by
  intro s
  rw [orFail_apply]
  cases answer <;> rfl

theorem keepsRoot_bind {x : Action α} {f : α → Action β} (first : KeepsRoot x)
    (second : ∀ a, KeepsRoot (f a)) : KeepsRoot (x >>= f) := by
  intro s
  have first := first s
  rw [bind_apply]
  rcases equal : x s with ⟨failure | a, s'⟩ <;> rw [equal] at first
  · exact first
  · exact (second a s').trans first

theorem keepsRoot_of_map (f : α → β) {x : Action α} (h : KeepsRoot (f <$> x)) : KeepsRoot x := by
  intro s
  have same : ((f <$> x) s).2 = (x s).2 := by
    rw [map_apply]
    rcases x s with ⟨failure | a, s'⟩ <;> rfl
  rw [← same]
  exact h s

theorem Plan.root_run (place : Files.Place) (plan : Plan) (s : Store) :
    (plan.run place s).2.root = s.root := by
  induction plan generalizing s with
  | done | commit | forget => rfl
  | stat next ih | read next ih | change act next ih => exact ih _ _

theorem Operation.keepsRoot_action (o : Operation) : KeepsRoot o.action := by
  intro s
  rw [o.action_eq_perform, perform]
  split
  · rfl
  · exact Plan.root_run ..

theorem keepsRoot_load (path : String) : KeepsRoot (Loader.load path) :=
  keepsRoot_of_map Reply.content (Operation.load path).keepsRoot_action

theorem keepsRoot_save (path content : String) (base : Option Nat) :
    KeepsRoot (Loader.save path content base) :=
  keepsRoot_of_map Reply.version (Operation.save path content base).keepsRoot_action

theorem keepsRoot_create (path : String) : KeepsRoot (Loader.create path) :=
  keepsRoot_of_map Reply.version (Operation.create path).keepsRoot_action

theorem keepsRoot_delete (path : String) : KeepsRoot (Loader.delete path) :=
  keepsRoot_of_map Reply.version (Operation.delete path).keepsRoot_action

theorem keepsRoot_list : KeepsRoot Loader.list :=
  keepsRoot_bind keepsRoot_get fun _ =>
    keepsRoot_bind (keepsRoot_query _) fun _ => keepsRoot_orFail _ _

end Loader

namespace Coordinator

open Session.Action (KeepsRoot)
open Loader (keepsRoot_bind keepsRoot_get keepsRoot_change keepsRoot_pure)

theorem keepsRoot_changeAt (place? : Option Files.Place) (shown : String)
    (act : Files.Place → Files.Disk → Nat → Except Files.Fault Files.Disk) :
    KeepsRoot (changeAt place? shown act) := by
  cases place? with
  | none => exact keepsRoot_pure ()
  | some place =>
      refine keepsRoot_bind (keepsRoot_change _) fun answer => ?_
      rcases answer with fault | u
      · exact fun _ => rfl
      · exact fun _ => rfl

theorem keepsRoot_persist (settings : Settings) (filePath : String) (result : Pipeline.Result) :
    KeepsRoot (persist settings filePath result) :=
  keepsRoot_bind keepsRoot_get fun _ =>
    keepsRoot_bind (keepsRoot_changeAt _ _ _) fun _ =>
      keepsRoot_bind (keepsRoot_changeAt _ _ _) fun _ =>
        keepsRoot_bind (keepsRoot_changeAt _ _ _) fun _ => keepsRoot_pure _

theorem keepsRoot_existsAt (place : Files.Place) : KeepsRoot (existsAt place) := by
  refine keepsRoot_bind (Loader.keepsRoot_query _) fun answer => ?_
  cases answer with
  | error fault => exact keepsRoot_pure false
  | ok entry => exact keepsRoot_pure true

end Coordinator

/-! ### What the steps of one call lead to -/

open Pipeline (Compiler)

/-- The call has come as far as the coordinator with its request. -/
inductive Phase.At : Phase → Progress → Prop
  | returned (body : EventBody) : At (.returned body) (.answered body)
  | process (t : Ticket) (activity : Activity) (spawn : Spawn) :
      At (.working t (.process activity spawn) [] [] false) (.pending (.process activity spawn))
  | sealing (t : Ticket) {p : Compiler} {s : Sealing} {source : String} :
      p.start (s.params.request source) (fun _ => false) = .ok (.ok s.draft) →
      s.cancelled = false → s.waited = 0 →
      At (.working t (.compile s.params source) [.sealed] [] false) (.pending (.sealing s))

namespace Traffic

variable {calls : Nat → Call} {w w' : Traffic} {c c' : Coordinator} {k : Nat} {t : Ticket}
  {r : Progress × Coordinator}

/-- The coordinator is where the traffic is. -/
structure Shows (c : Coordinator) (w : Traffic) : Prop where
  settings : w.settings = c.settings
  root : w.root = c.store.root
  session : w.session = c.session
  begun : w.begun = c.begun
  known : ∀ t ∈ w.signalled, t ≤ w.begun
  owned : ∀ t, w.session.cancellation = some t ∨ w.session.kill = some t → t ≤ w.begun
  held : ∀ j t, (w.phase j).ticket? = some t → t ≤ w.begun

theorem shows_opened (settings : Settings) (pipeline : Compiler) (store : Store)
    (holdsSeals : Bool) :
    Shows (.opened settings pipeline store holdsSeals) (opened settings store.root) where
  settings := rfl
  root := rfl
  session := rfl
  begun := rfl
  known t h := by simp [opened] at h
  owned t h := by simp [opened, Occupation.opened] at h
  held j t h := by cases h

theorem Shows.goto (shows : Shows c w) {p : Phase} (held : ∀ t, p.ticket? = some t → t ≤ w.begun) :
    Shows c (w.goto k p) := by
  refine { shows with held := fun j t h => ?_ }
  by_cases same : j = k
  · subst same
    rw [phase_goto_self] at h
    exact held t h
  · rw [phase_goto_of_ne _ _ _ same] at h
    exact shows.held j t h

/-- A call goes on with its guard. -/
theorem Shows.along (shows : Shows c w) {p : Phase} (holds : (w.phase k).ticket? = some t)
    (keeps : p.ticket? = some t) : Shows c (w.goto k p) := by
  refine shows.goto fun t' h => ?_
  rw [keeps] at h
  cases h
  exact shows.held k t holds

/-- Nothing but the files has changed, and the root is where it was. -/
theorem Shows.perform (shows : Shows c w) {α : Type} {act : Action α} {answer : Except Failure α}
    (keeps : act.KeepsRoot) (h : c.perform act = (answer, c')) : Shows c' w := by
  have changed : (c.perform act).2 = c' := by rw [h]
  subst changed
  exact { shows with root := shows.root.trans (keeps c.store).symm }

/-- The steps of a call alone lead to where the coordinator is. -/
def Reaches (calls : Nat → Call) (w : Traffic) (k : Nat) (r : Progress × Coordinator) : Prop :=
  ∃ steps w', Leads calls w steps w' ∧ (∀ s ∈ steps, s.call = k) ∧ Shows r.2 w' ∧
    (w'.phase k).At r.1 ∧ ∀ j, j ≠ k → w'.phase j = w.phase j

theorem Reaches.here (shows : Shows r.2 w) (arrived : (w.phase k).At r.1) : Reaches calls w k r :=
  ⟨[], w, .refl, by simp, shows, arrived, fun _ _ => rfl⟩

theorem Reaches.leads {steps : List Step} (first : Leads calls w steps w')
    (own : ∀ s ∈ steps, s.call = k) (same : ∀ j, j ≠ k → w'.phase j = w.phase j)
    (rest : Reaches calls w' k r) : Reaches calls w k r := by
  obtain ⟨more, w₂, leads, own', shows, arrived, others⟩ := rest
  refine ⟨steps ++ more, w₂, first.trans leads, ?_, shows, arrived,
    fun j other => (others j other).trans (same j other)⟩
  intro s mem
  exact (List.mem_append.1 mem).elim (own s) (own' s)

theorem Reaches.head {move : Move} (first : Takes calls w ⟨k, move⟩ w')
    (same : ∀ j, j ≠ k → w'.phase j = w.phase j) (rest : Reaches calls w' k r) :
    Reaches calls w k r :=
  rest.leads (.single first) (by simp) same

theorem Reaches.goto {move : Move} {p : Phase} (first : Takes calls w ⟨k, move⟩ (w.goto k p))
    (rest : Reaches calls (w.goto k p) k r) : Reaches calls w k r :=
  rest.head first fun _ other => phase_goto_of_ne w k _ other

/-- A call that knows its answer gives its guard back. -/
theorem reaches_leave (shows : Shows c w) {body : EventBody}
    (leaving : w.phase k = .leaving t body) : Reaches calls w k (c.finishWith body) := by
  refine Reaches.head (.leave leaving) (fun j other => phase_goto_of_ne w k _ other)
    (.here ?_ ?_)
  · have gone := shows.goto (k := k) (p := .returned body) (fun _ h => by cases h)
    refine { gone with session := ?_, owned := ?_ }
    · exact congrArg Occupation.finish shows.session
    · rintro t (h | h) <;> cases h
  · rw [phase_leaving, phase_goto_self]
    exact .returned body

/-! ### Compilations -/

theorem reaches_finishCompile (shows : Shows c w) {params : CompileParams} {source : String}
    {noticed : List Pipeline.Checkpoint}
    (working : w.phase k = .working t (.compile params source) [] noticed false) (p : Compiler)
    {result : Pipeline.Result} (compiles : params.outcome p source noticed = .ok result) :
    Reaches calls w k (c.finishCompile params result) := by
  have holds : (w.phase k).ticket? = some t := by rw [working]; rfl
  have concludes : Takes calls w _ _ := .conclude p working
  rw [compiles] at concludes
  refine Reaches.goto concludes ?_
  unfold Coordinator.finishCompile
  by_cases stored : result.success && params.mode.isStored
  · have point : Phase.concluded w.settings t params false (.ok result) =
        .storing t params result := by simp [Phase.concluded, stored]
    rw [point, if_pos stored]
    rcases answers : c.perform (Coordinator.persist c.settings params.filePath result) with
      ⟨answer, c'⟩
    have shows : Shows c' (w.goto k (.storing t params result)) :=
      (shows.along holds rfl).perform (Coordinator.keepsRoot_persist _ _ _) answers
    refine Reaches.goto (.store answer (phase_goto_self ..)) ?_
    have left := shows.along (p := .leaving t (storedBody params result answer))
      (by rw [phase_goto_self]; rfl) rfl
    cases answer with
    | error failure => exact reaches_leave left (phase_goto_self ..)
    | ok artifacts => exact reaches_leave left (phase_goto_self ..)
  · have point : Phase.concluded w.settings t params false (.ok result) =
        .leaving t (.compileResult ⟨params.filePath, result, none, 0⟩) := by
      simp [Phase.concluded, stored]
    rw [point, if_neg stored]
    exact reaches_leave (shows.along holds rfl) (phase_goto_self ..)

/-- A compilation that has taken too long ends without a result. -/
theorem reaches_timeout (shows : Shows c w) {params : CompileParams} {source : String}
    {ahead noticed : List Pipeline.Checkpoint} (p : Compiler)
    (working : w.phase k = .working t (.compile params source) ahead noticed true) :
    Reaches calls w k (c.finishWith (.failed (.compileTimeout c.settings.compileTimeout))) := by
  have holds : (w.phase k).ticket? = some t := by rw [working]; rfl
  induction ahead generalizing w noticed with
  | nil =>
      have concludes : Takes calls w _ _ := .conclude p working
      have point : Phase.concluded w.settings t params true (params.outcome p source noticed) =
          .leaving t (.failed (.compileTimeout c.settings.compileTimeout)) := by
        simp [Phase.concluded, shows.settings]
      rw [point] at concludes
      exact Reaches.goto concludes (reaches_leave (shows.along holds rfl) (phase_goto_self ..))
  | cons c ahead ih =>
      exact Reaches.goto (.check working)
        (ih (shows.along holds rfl) (phase_goto_self ..) (by rw [phase_goto_self]; rfl))

/-- The module is sealed, or the compilation has taken too long. -/
theorem reaches_finishSealing (shows : Shows c w) {s : Sealing} {source : String} {p : Compiler}
    (working : w.phase k = .working t (.compile s.params source) [.sealed] [] false)
    (starts : p.start (s.params.request source) (fun _ => false) = .ok (.ok s.draft))
    (told : s.cancelled = true ↔ t ∈ w.signalled) :
    Reaches calls w k (c.finishSealing s) := by
  have holds : (w.phase k).ticket? = some t := by rw [working]; rfl
  obtain ⟨c', pipeline, settings, sealed⟩ : ∃ c' : Coordinator,
      (if s.draft.wantsSeal then { c with pipeline := c.pipeline.afterSealing } else c) = c' ∧
        c'.settings = c.settings ∧ Shows c' w := by
    refine ⟨_, rfl, ?_, ?_⟩
    · split <;> rfl
    · split
      · exact { shows with }
      · exact shows
  unfold Coordinator.finishSealing
  dsimp only
  rw [pipeline, ← settings]
  split
  · -- Its own call has cancelled it before it passes its last checkpoint.
    have along := sealed.along (p := .working t (.compile s.params source) [.sealed] [] true)
      holds rfl
    refine Reaches.head (.expire working) (fun _ other => phase_goto_of_ne w k _ other)
      (reaches_timeout { along with known := ?_ } p (phase_goto_self w k _))
    intro t' mem
    rcases List.mem_cons.1 mem with rfl | mem
    · exact shows.held k t' holds
    · exact shows.known t' mem
  · -- The draft was made with the settings of then, and is sealed with the scheme of now.
    let p' : Compiler := { p with scheme := c.pipeline.scheme, schedule := c.pipeline.schedule }
    refine Reaches.goto (.check working)
      (reaches_finishCompile (sealed.along holds rfl) (phase_goto_self ..) p' ?_)
    have unnoticed : p'.start (s.params.request source)
        (fun c => decide (c ∈ if t ∈ w.signalled then [Pipeline.Checkpoint.sealed] else [])) =
          .ok (.ok s.draft) := by
      rw [← starts]
      refine p.start_congr _ fun c early => ?_
      split <;> simp [early]
    have cancelled : decide (Pipeline.Checkpoint.sealed ∈
        if t ∈ w.signalled then [Pipeline.Checkpoint.sealed] else []) = s.cancelled := by
      by_cases signalled : t ∈ w.signalled
      · simp [signalled, told.2 signalled]
      · simp [signalled, mt told.1 signalled]
    simp only [CompileParams.outcome, Compiler.compile, unnoticed, cancelled]
    rfl

/-- A compilation that nobody cancels, from its first checkpoint on. -/
theorem reaches_compileSource (shows : Shows c w) {params : CompileParams} {source : String}
    (working : w.phase k = .working t (.compile params source) checkpoints [] false)
    (silent : t ∉ w.signalled) : Reaches calls w k (c.compileSource params source false) := by
  have holds : (w.phase k).ticket? = some t := by rw [working]; rfl
  have passes : ∀ passed ahead, checkpoints = passed ++ ahead → ∀ r,
      Reaches calls (w.goto k (.working t (.compile params source) ahead [] false)) k r →
        Reaches calls w k r := by
    intro passed ahead split r rest
    refine rest.leads (leads_checks silent passed ahead (by rw [working, split])) ?_
      fun _ other => phase_goto_of_ne w k _ other
    intro s mem
    rw [(List.mem_replicate.1 mem).2]
  unfold Coordinator.compileSource
  dsimp only
  split
  -- Without a module to seal, all checkpoints are passed at once.
  · next refusal starts =>
      refine passes checkpoints [] rfl _ ?_
      have refused : params.outcome c.pipeline source [] = .error (.refused refusal) := by
        have starts : c.pipeline.start (params.request source) (fun _ => false) =
          .error refusal := starts
        simp only [CompileParams.outcome, Compiler.compile, List.not_mem_nil, decide_false, starts]
        rfl
      have concludes : Takes calls
          (w.goto k (.working t (.compile params source) [] [] false)) _ _ :=
        .conclude c.pipeline (phase_goto_self ..)
      rw [refused] at concludes
      exact Reaches.goto concludes (reaches_leave
        ((shows.along holds rfl).along (by rw [phase_goto_self]; rfl) rfl) (phase_goto_self ..))
  · next result starts =>
      refine passes checkpoints [] rfl _ (reaches_finishCompile (shows.along holds rfl)
        (phase_goto_self ..) c.pipeline ?_)
      have starts : c.pipeline.start (params.request source) (fun _ => false) =
        .ok (.error result) := starts
      simp only [CompileParams.outcome, Compiler.compile, List.not_mem_nil, decide_false, starts]
      rfl
  · next draft starts =>
      refine passes [.grammar, .semantic, .security, .optimization, .codegen] [.sealed] rfl _ ?_
      have along := shows.along (p := .working t (.compile params source) [.sealed] [] false)
        holds rfl
      split
      · refine .here along ?_
        rw [phase_goto_self]
        exact Phase.At.sealing t (p := c.pipeline) (s := ⟨params, draft, false, 0⟩) starts rfl rfl
      · refine reaches_finishSealing (s := ⟨params, draft, false, 0⟩) along (phase_goto_self ..)
          starts ⟨fun cancelled => ?_, fun signalled => absurd signalled silent⟩
        cases cancelled

/-! ### Activities -/

/-- An activity that has begun. -/
structure Begun (c : Coordinator) (w : Traffic) (k : Nat) (activity : Activity) : Prop where
  shows : Shows c w
  phase : w.phase k = .preparing c.begun
  state : c.session.state = activity.state
  silent : c.begun ∉ w.signalled

theorem Begun.holds {activity : Activity} (begun : Begun c w k activity) :
    (w.phase k).ticket? = some c.begun := by
  rw [begun.phase]
  rfl

/-- An activity begins, or cannot. -/
theorem reaches_beginThen (shows : Shows c w) {request : Request}
    (serves : calls k = .serve request) (called : w.phase k = .called) {activity : Activity}
    (fits : request.activity? = some activity) {next : Coordinator → Progress × Coordinator}
    (rest : ∀ c' w', Begun c' w' k activity → c'.settings = c.settings →
      Reaches calls w' k (next c')) :
    Reaches calls w k (c.beginThen activity request.activeFile? next) := by
  unfold Coordinator.beginThen
  rw [← shows.session]
  split
  · next failure begins =>
      refine Reaches.goto (.refuse serves called fits begins) (.here ?_ ?_)
      · exact shows.goto fun _ h => by cases h
      · rw [phase_goto_self]
        exact .returned _
  · next session begins =>
      obtain ⟨-, rfl⟩ := World.begin?_eq_ok begins
      refine Reaches.head (.begin serves called fits begins)
        (fun _ other => phase_goto_of_ne w k _ other) (rest _ _ ⟨?_, ?_, rfl, ?_⟩ rfl)
      · refine { shows with session := rfl, begun := ?_, known := ?_, owned := ?_, held := ?_ }
        · exact congrArg (· + 1) shows.begun
        · exact fun t mem => Nat.le_succ_of_le (shows.known t mem)
        · exact fun t h => Nat.le_succ_of_le (shows.owned t h)
        · intro j t h
          by_cases same : j = k
          · subst same
            rw [phase_beginning, phase_goto_self] at h
            cases h
            exact Nat.le_refl _
          · rw [phase_beginning, phase_goto_of_ne _ _ _ same] at h
            exact Nat.le_succ_of_le (shows.held j t h)
      · rw [phase_beginning, phase_goto_self, shows.begun]
      · intro mem
        have := shows.known _ mem
        rw [shows.begun] at this
        exact absurd this (Nat.not_succ_le_self _)

/-- Nothing but the files has changed. -/
theorem Begun.perform {activity : Activity} (begun : Begun c w k activity) {α : Type}
    {act : Action α} {answer : Except Failure α} (keeps : act.KeepsRoot)
    (h : c.perform act = (answer, c')) : Begun c' w k activity ∧ c'.settings = c.settings := by
  have shows := begun.shows.perform keeps h
  have changed : (c.perform act).2 = c' := by rw [h]
  subst changed
  exact ⟨⟨shows, begun.phase, begun.state, begun.silent⟩, rfl⟩

/-- An activity whose files are not as they should be is over. -/
theorem reaches_giveUp {activity : Activity} (begun : Begun c w k activity) {request : Request}
    (serves : calls k = .serve request) {failure : Failure}
    (finds : Prepares w.settings w.root request (.error failure)) :
    Reaches calls w k (c.finishWith (.failed failure)) :=
  Reaches.goto (.giveUp serves begun.phase finds)
    (reaches_leave (begun.shows.along begun.holds rfl) (phase_goto_self ..))

/-- The handle of the activity is installed, and nobody has used it. -/
theorem Begun.arm {activity : Activity} (begun : Begun c w k activity) {request : Request}
    (serves : calls k = .serve request) (fits : request.activity? = some activity) {job : Job}
    (finds : Prepares w.settings w.root request (.ok job))
    (rest : ∀ w', Shows { c with session := (c.session.install ⟨c.begun, activity⟩).1 } w' →
      w'.phase k = .working c.begun job job.checkpoints [] false → c.begun ∉ w'.signalled →
      Reaches calls w' k r) :
    Reaches calls w k r := by
  have installs : (w.session.install ⟨c.begun, activity⟩).2 = false := by
    rw [World.install_now, begun.shows.session, begun.state]
    cases activity <;> rfl
  have prepared := begun.shows.along (p := .prepared c.begun job) begun.holds rfl
  have armed := prepared.along (p := .working c.begun job job.checkpoints [] false)
    (by rw [phase_goto_self]; rfl) rfl
  refine Reaches.goto (.prepare serves begun.phase finds)
    (Reaches.head (.arm serves fits (phase_goto_self ..))
      (fun _ other => phase_goto_of_ne _ k _ other) (rest _ ?_ ?_ ?_))
  · refine { armed with session := ?_, known := ?_, owned := ?_ }
    · exact congrArg (fun s : Occupation => (s.install _).1) begun.shows.session
    · simpa [Traffic.arming, installs] using begun.shows.known
    · intro t h
      rcases World.install_owned _ _ h with rfl | h
      · exact Nat.le_of_eq begun.shows.begun.symm
      · exact begun.shows.owned t h
  · rw [phase_arming, phase_goto_self]
  · simpa [Traffic.arming, installs] using begun.silent

theorem reaches_compile (shows : Shows c w) {params : CompileParams}
    (serves : calls k = .serve (.compile params)) (called : w.phase k = .called) :
    Reaches calls w k (c.compile params) := by
  refine reaches_beginThen shows serves called rfl fun c w begun _ => ?_
  rcases loads : c.perform (Loader.load params.filePath) with ⟨answer, c'⟩
  obtain ⟨begun, -⟩ := begun.perform (Loader.keepsRoot_load _) loads
  cases answer with
  | error failure => exact reaches_giveUp begun serves (.unreadable params failure)
  | ok file =>
      refine begun.arm serves rfl (.loaded params file.content) fun w shows working silent => ?_
      have unnoticed : (c'.session.installCancellation c'.begun).2 = false := by
        simp [Occupation.installCancellation, begun.state, Activity.state]
      dsimp only
      rw [unnoticed]
      exact reaches_compileSource shows working silent

theorem reaches_startProcess {activity : Activity} (begun : Begun c w k activity)
    {request : Request} (serves : calls k = .serve request)
    (fits : request.activity? = some activity) (process : activity ≠ .compile) {spawn : Spawn}
    (finds : Prepares w.settings w.root request (.ok (.process activity spawn))) :
    Reaches calls w k (c.startProcess activity spawn) := by
  have installs : c.session.install ⟨c.begun, activity⟩ = c.session.installKill c.begun := by
    cases activity with
    | compile => exact absurd rfl process
    | _ => rfl
  have alive : (c.session.installKill c.begun).2 = false := by
    rw [← installs, World.install_now, begun.state]
    cases activity <;> rfl
  unfold Coordinator.startProcess
  dsimp only
  rw [alive, if_neg Bool.false_ne_true]
  refine begun.arm serves fits finds fun w shows working _ => .here ?_ ?_
  · rw [installs] at shows
    exact { shows with }
  · rw [working]
    exact .process _ activity spawn

theorem reaches_terminal (shows : Shows c w) {command : String} {timeout : Option Nat}
    (serves : calls k = .serve (.terminal command timeout)) (called : w.phase k = .called) :
    Reaches calls w k (c.terminal command timeout) := by
  refine reaches_beginThen shows serves called rfl fun c w begun _ =>
    reaches_startProcess begun serves rfl (by decide) ?_
  rw [begun.shows.settings, begun.shows.root]
  exact .terminal command timeout

theorem of_launch? {request : Request} {settings : Settings} {activity : Activity}
    {command : Command} {params : RunParams}
    (launches : request.launch? settings = some (activity, command, params)) :
    request.activity? = some activity ∧ request.activeFile? = some params.filePath ∧
      activity ≠ .compile := by
  cases request with
  | run | debug =>
      cases launches
      exact ⟨rfl, rfl, by decide⟩
  | _ => cases launches

theorem reaches_launch (shows : Shows c w) {request : Request} {activity : Activity}
    {command : Command} {params : RunParams}
    (launches : request.launch? c.settings = some (activity, command, params))
    (serves : calls k = .serve request) (called : w.phase k = .called) :
    Reaches calls w k (c.launch activity command params) := by
  obtain ⟨fits, file, process⟩ := of_launch? launches
  unfold Coordinator.launch
  rw [← file]
  refine reaches_beginThen shows serves called fits fun c₁ w begun same => ?_
  have launches : request.launch? w.settings = some (activity, command, params) := by
    rw [begun.shows.settings, same, launches]
  dsimp only
  cases placed : Files.confine? params.filePath with
  | none => exact reaches_giveUp begun serves (.misplaced launches placed)
  | some place =>
      dsimp only
      rcases finds : c₁.perform (Coordinator.existsAt place) with ⟨answer, c₂⟩
      obtain ⟨begun, -⟩ := begun.perform (Coordinator.keepsRoot_existsAt place) finds
      cases answer with
      | error failure => exact reaches_giveUp begun serves (.missing launches placed)
      | ok found =>
          cases found with
          | false => exact reaches_giveUp begun serves (.missing launches placed)
          | true =>
              refine reaches_startProcess begun serves fits process ?_
              have prepares : Prepares w.settings w.root request _ := .found launches placed
              rw [begun.shows.settings, begun.shows.root] at prepares ⊢
              exact prepares

/-! ### Requests -/

/-- A request on files is answered at once. -/
theorem reaches_onFiles (shows : Shows c w) {request : Request}
    (serves : calls k = .serve request) (called : w.phase k = .called)
    (onFiles : request.isOnFiles) {α : Type} {act : Action α} (keeps : act.KeepsRoot)
    (body : α → EventBody) : Reaches calls w k (c.onFiles act body) := by
  unfold Coordinator.onFiles
  split
  · next terminated =>
      rw [← shows.session] at terminated
      refine Reaches.goto (.bar serves called onFiles terminated) (.here ?_ ?_)
      · exact shows.goto fun _ h => by cases h
      · rw [phase_goto_self]
        exact .returned _
  · next open_ =>
      rw [← shows.session] at open_
      rcases answers : c.perform act with ⟨answer, c'⟩
      refine Reaches.goto (.pass serves called onFiles open_)
        (Reaches.goto (.browse (Coordinator.eventOf body answer) (phase_goto_self ..))
          (.here ?_ ?_))
      · exact ((shows.perform keeps answers).goto fun _ h => by cases h).goto
          fun _ h => by cases h
      · rw [phase_goto_self]
        exact .returned _

/-- Stopping what the session is busy with does not concern the calls. -/
theorem Shows.stopped (shows : Shows c w) :
    Shows { c with session := c.session.terminateCurrent.1 } w.stopped := by
  refine { shows with session := ?_, known := ?_, owned := ?_ }
  · exact congrArg (fun s : Occupation => s.terminateCurrent.1) shows.session
  · intro t mem
    rcases List.mem_append.1 mem with mem | mem
    · exact shows.owned t (World.mem_tickets_terminateCurrent.1 mem)
    · exact shows.known t mem
  · rintro t (h | h)
    · exact shows.owned t (.inl h)
    · cases h

theorem reaches_terminate (shows : Shows c w) (serves : calls k = .serve .terminate)
    (called : w.phase k = .called) :
    Reaches calls w k (.answered (.terminateResult c.terminate.2.1), c.terminate.2.2) := by
  refine Reaches.head (.terminate serves called) (fun _ other => phase_goto_of_ne _ k _ other)
    (.here (shows.stopped.goto fun _ h => by cases h) ?_)
  rw [phase_goto_self, shows.session]
  exact .returned _

/-- The end of the session, with nothing between its two steps. -/
theorem reaches_shutdown (shows : Shows c w) (ends : calls k = .shutdown)
    (called : w.phase k = .called) :
    Reaches calls w k (.answered (.terminateResult c.shutdown.2.1), c.shutdown.2.2) := by
  have halfway := shows.stopped.goto (k := k) (p := .halfway w.session.terminateCurrent.2.2)
    fun _ h => by cases h
  refine Reaches.head (.stop ends called) (fun _ other => phase_goto_of_ne _ k _ other)
    (Reaches.head (.close (phase_goto_self ..)) (fun _ other => phase_goto_of_ne _ k _ other)
      (.here ?_ ?_))
  · have closed := halfway.goto (k := k) fun t (h : Phase.ticket? (.returned
      (.terminateResult { w.session.terminateCurrent.2.2 with state := .terminated })) = some t) =>
        by cases h
    exact { closed with
      session := congrArg (fun s : Occupation => s.terminateCurrent.1.close) shows.session }
  · have arrived := Phase.At.returned (.terminateResult c.shutdown.2.1)
    rw [phase_goto_self, shows.session]
    exact arrived

/-- A request is served by the steps of its call. -/
theorem reaches_handle (shows : Shows c w) {request : Request}
    (serves : calls k = .serve request) (called : w.phase k = .called) :
    Reaches calls w k (c.handle request) := by
  cases request with
  | saveFile path content base =>
      exact reaches_onFiles shows serves called rfl (Loader.keepsRoot_save path content base) _
  | loadFile path => exact reaches_onFiles shows serves called rfl (Loader.keepsRoot_load path) _
  | createFile path =>
      exact reaches_onFiles shows serves called rfl (Loader.keepsRoot_create path) _
  | deleteFile path =>
      exact reaches_onFiles shows serves called rfl (Loader.keepsRoot_delete path) _
  | getFiles => exact reaches_onFiles shows serves called rfl Loader.keepsRoot_list _
  | compile params => exact reaches_compile shows serves called
  | run params => exact reaches_launch shows rfl serves called
  | debug params => exact reaches_launch shows rfl serves called
  | terminal command timeout => exact reaches_terminal shows serves called
  | terminate => exact reaches_terminate shows serves called

/-- Requests that are served one after the other, whatever waits behind them. -/
theorem exists_leads_requests (requests : List Request) (shows : Shows c w) (first : Nat)
    (serves : ∀ i r, requests[i]? = some r → calls (first + i) = .serve r)
    (called : ∀ j, first ≤ j → w.phase j = .called) :
    ∃ steps w', Leads calls w steps w' ∧
      Shows (requests.foldl (fun c r => (c.handle r).2) c) w' := by
  induction requests generalizing c w first with
  | nil => exact ⟨[], w, .refl, shows⟩
  | cons request rest ih =>
      obtain ⟨steps, w₁, leads, -, shows₁, -, others⟩ :=
        reaches_handle shows (serves 0 request rfl) (called first (Nat.le_refl _))
      -- The calls behind this one have not taken any step.
      have later : ∀ j, first + 1 ≤ j → w₁.phase j = .called := by
        intro j after
        rw [others j (by omega)]
        exact called j (by omega)
      obtain ⟨more, w₂, leads₂, shows₂⟩ := ih shows₁ (first + 1) (fun i r there => by
        rw [Nat.add_assoc, Nat.add_comm 1]
        exact serves (i + 1) r there) later
      exact ⟨steps ++ more, w₂, leads.trans leads₂, shows₂⟩

/-- A coordinator that has served any requests is where some run has led. -/
theorem exists_run_requests (settings : Settings) (pipeline : Compiler) (store : Store)
    (holdsSeals : Bool) (requests : List Request)
    (serves : ∀ i r, requests[i]? = some r → calls i = .serve r) :
    ∃ trace w, Run calls trace w ∧
      Shows (requests.foldl (fun c r => (c.handle r).2)
        (.opened settings pipeline store holdsSeals)) w := by
  obtain ⟨trace, w, leads, shows⟩ := exists_leads_requests requests
    (shows_opened settings pipeline store holdsSeals) 0
    (fun i r there => by rw [Nat.zero_add]; exact serves i r there) fun _ _ => rfl
  exact ⟨trace, w, ⟨settings, store.root, leads⟩, shows⟩

/-- The process that a call waits for comes to its end. -/
theorem reaches_endProcess (shows : Shows c w) {activity : Activity} {spawn : Spawn}
    (waits : (w.phase k).At (.pending (.process activity spawn)))
    (outcome : Except Failure ProcessOutput) :
    Reaches calls w k (c.endProcess activity outcome) := by
  obtain ⟨t, working⟩ : ∃ t, w.phase k = .working t (.process activity spawn) [] [] false := by
    generalize w.phase k = p at waits
    cases waits
    exact ⟨_, rfl⟩
  have holds : (w.phase k).ticket? = some t := by rw [working]; rfl
  exact Reaches.goto (.exit outcome working)
    (reaches_leave (shows.along holds rfl) (phase_goto_self ..))

end Traffic

end Workbench.Session
