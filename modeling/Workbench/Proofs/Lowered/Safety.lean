import Workbench.Proofs.Lowered.Fuel
import Workbench.Proofs.Lowered.Watching

/-!
# Typed contracts do not go wrong

Whatever is noted of a run of a typed contract is sound, with the meaning that the run has without
notes. As for freedom from being stuck, which words count as values of a type is left open. The
locals that the notes say to have been given a value are compared with those that typing takes to
have one: there are at least as many.
-/

namespace Workbench.Lowered

open Lang (Ty Word Host Halt Builtin Eval Flow Watch)
open Lang.Eval (note)
open Lang.Watch (Sees Shows)
open Lang.Watch.Sees (Ends)

variable {State : Type}

/-! ### What is expected -/

/-- What is expected of the runs of a contract: steps of its functions, all of them sound. -/
def Contract.expects (c : Contract) (host : Host State) (V : Ty → Word → Prop)
    (Inv : State → Prop) : Watch State (Function × Step State) where
  inv := Inv
  good step := step.1 ∈ c.functions ∧ step.2.Sound c host V step.1
  traps step := ∃ cause, step.2 = .traps cause

/-- Calls under watch give what calls give, which is of the types that they are declared with. -/
def CallsShow (c : Contract) (host : Host State) (V : Ty → Word → Prop) (Inv : State → Prop)
    (watched : WatchedCalls State) (calls : Calls State) : Prop :=
  ∀ function sig args, (c.functions.map (·.signature))[function]? = some sig →
    ArgsFit V sig.params args →
    (c.expects host V Inv).Shows (Fits V sig.result) (watched function args) (calls function args)

/-- The locals are the same, and those with a value are among those that have been given one. -/
structure Tracks (V : Ty → Word → Prop) (Γ : Context) (live : List Nat) (vars : Tracked)
    (locals : Locals) : Prop where
  same : vars.locals = locals
  holds : Holds V Γ live locals
  given : live ⊆ vars.given

section

variable {V : Ty → Word → Prop} {Inv : State → Prop} {c : Contract} {f : Function}
  {host : Host State} {watched : WatchedCalls State} {calls : Calls State} {live : List Nat}
  {vars : Tracked} {locals : Locals}

theorem Tracks.weaken {Γ : Context} {live' : List Nat} (h : Tracks V Γ live' vars locals)
    (sub : live ⊆ live') : Tracks V Γ live vars locals :=
  ⟨h.same, h.holds.weaken sub, fun _ mem => h.given (sub mem)⟩

/-! ### Expressions -/

/-- A request gets an answer of a kind, within the invariant, or is refused. -/
theorem watchAsk_shows (mem : f ∈ c.functions) {kind : Builtin} {args : List Word}
    {P : Word → Prop}
    (serves : ∀ state, Inv state → Inv (host.serve ⟨kind, args⟩ state).2 ∧
      ∀ answer, (host.serve ⟨kind, args⟩ state).1 = some answer → P answer) :
    (c.expects host V Inv).Shows P (watchAsk host f kind args) (Eval.ask host kind args) :=
  Shows.asking serves (fun _ refused => ⟨mem, refused⟩) fun _ => ⟨_, rfl⟩

theorem giving_shows (mem : f ∈ c.functions) {e : Expr}
    {x : Eval (State × Log State) (Option Word)} {y : Eval State (Option Word)}
    (h : (c.expects host V Inv).Shows (Fits V e.type) x y) :
    (c.expects host V Inv).Shows (Fits V e.type) (giving f e x) y :=
  h.noting fun _ fits => ⟨mem, fits⟩

/-- What has a value under watch is known to have one without. -/
theorem needed_shows {W : Watch State (Function × Step State)} {type : Ty}
    {x : Eval (State × Log State) (Option Word)} {y : Eval State (Option Word)}
    (has : type.hasValue) (h : W.Shows (Fits V type) x y) :
    W.Shows (V type) (do Eval.needed (← x)) (do Eval.needed (← y)) := by
  refine h.bind fun value fits => ?_
  obtain ⟨w, rfl, hw⟩ := fits.exists_of_hasValue has
  exact Shows.pure hw

/-- Only a division or a remainder has no value for its operands. -/
theorem combine?_eq_none {op : Lang.BinaryOp} {a b : Word} (h : op.combine? a b = none) :
    op = .div ∨ op = .rem := by
  cases op <;> first | exact .inl rfl | exact .inr rfl | cases h

theorem watchArgs_shows {W : Watch State (Function × Step State)} {args : List Expr}
    {params : List Ty}
    (each : ∀ a ∈ args, a.Typed (c.context f) live →
      W.Shows (Fits V a.type) (watchExpr host watched f vars a)
        (evalExpr host calls vars.locals a))
    (typed : ArgsTyped (c.context f) live args params) :
    W.Shows (ArgsFit V params) (watchArgs host watched f vars args)
      (evalArgs host calls vars.locals args) := by
  induction typed using ArgsTyped.induction with
  | nil => exact Shows.pure ArgsFit.nil
  | cons he has rest ih =>
      obtain ⟨first, others⟩ := List.forall_mem_cons.1 each
      rw [watchArgs, evalArgs]
      refine (first he).bind fun value fits => ?_
      obtain ⟨w, rfl, hw⟩ := fits.exists_of_hasValue has
      exact (Shows.pure hw).bind fun w hw =>
        (ih others).bind fun ws hws => Shows.pure (hws.cons hw)

/-- A typed expression has its value under watch, and its steps are sound. -/
theorem watchExpr_shows (admits : Admits V) (hostKeeps : HostKeeps V Inv (c.context f).storage host)
    (mem : f ∈ c.functions) (callsShow : CallsShow c host V Inv watched calls)
    (holds : Holds V (c.context f) live vars.locals) (given : live ⊆ vars.given) {e : Expr}
    (typed : e.Typed (c.context f) live) :
    (c.expects host V Inv).Shows (Fits V e.type) (watchExpr host watched f vars e)
      (evalExpr host calls vars.locals e) := by
  induction e with
  | int value span =>
      rw [watchExpr]
      exact giving_shows mem (Shows.pure ⟨rfl, admits.int _⟩)
  | bool value span =>
      rw [watchExpr]
      exact giving_shows mem (Shows.pure ⟨rfl, admits.truth _⟩)
  | var index type span =>
      obtain ⟨known, declared, has⟩ := typed
      obtain ⟨w, stored, hw⟩ := holds.value index known type declared
      rw [watchExpr, evalExpr, stored]
      refine giving_shows mem (Sees.note_bind ?_ ?_)
      · exact ⟨mem, given known⟩
      · exact (Shows.pure hw).bind fun w hw => Shows.pure ⟨has, hw⟩
  | slot index type span =>
      rw [watchExpr, evalExpr, Eval.map_eq_bind, Eval.map_eq_bind]
      exact giving_shows mem
        ((watchAsk_shows mem fun state inv => hostKeeps.load state index type inv typed.1).bind
          fun w hw => Shows.pure ⟨typed.2, hw⟩)
  | unary op operand span ih =>
      rw [watchExpr, evalExpr]
      refine giving_shows mem ((ih typed.1).bind fun value fits => ?_)
      obtain ⟨w, rfl, hw⟩ := fits.exists_of_hasValue (typed.2 ▸ hasValue_unaryType op)
      exact (Shows.pure hw).bind fun w _ =>
        Shows.pure ⟨hasValue_unaryType op, apply_admits admits w⟩
  | binary op lhs rhs span ihl ihr =>
      obtain ⟨hl, hr, operands⟩ := typed
      obtain ⟨hasl, hasr⟩ := operands.hasValue
      rw [watchExpr, evalExpr]
      refine giving_shows mem (Shows.bind (P := V (binaryType op)) ?_ fun w hw =>
        Shows.pure ⟨hasValue_binaryType op, hw⟩)
      refine Shows.evaluate (needed_shows hasl (ihl hl)) (needed_shows hasr (ihr hr))
        (fun a w => settled?_admits admits) (fun a b w hb => combine?_admits admits operands hb)
        (fun a b none => ?_) fun a b => ⟨_, rfl⟩
      exact ⟨mem, combine?_eq_none none, none⟩
  | shl value amount span ih =>
      rw [watchExpr, evalExpr]
      refine giving_shows mem ((ih typed.1).bind fun value fits => ?_)
      obtain ⟨w, rfl, hw⟩ := fits.exists_of_hasValue (by rw [typed.2.1]; rfl)
      exact (Shows.pure hw).bind fun w _ => Shows.pure ⟨rfl, admits.int _⟩
  | call function args result span ih =>
      obtain ⟨params, declared, argsTyped⟩ := typed
      rw [watchExpr, evalExpr]
      exact giving_shows mem ((watchArgs_shows ih argsTyped).bind fun ws fit =>
        callsShow function _ ws declared fit)
  | builtin kind args span ih =>
      obtain ⟨callable, argsTyped⟩ := typed
      rw [watchExpr, evalExpr]
      refine giving_shows mem ((watchArgs_shows ih argsTyped).bind fun ws _ => ?_)
      refine (watchAsk_shows mem (P := fun _ => True) fun state inv =>
        ⟨hostKeeps.call state kind ws inv callable, fun _ _ => trivial⟩).bind fun w _ => ?_
      refine Shows.pure ?_
      cases kind <;>
        first
        | exact ⟨rfl, admits.int w⟩
        | rfl

/-- A typed expression that has a value has it under watch. -/
theorem watchWord_shows (admits : Admits V) (hostKeeps : HostKeeps V Inv (c.context f).storage host)
    (mem : f ∈ c.functions) (callsShow : CallsShow c host V Inv watched calls)
    (tracks : Tracks V (c.context f) live vars locals) {e : Expr}
    (typed : e.Typed (c.context f) live) (has : e.type.hasValue) :
    (c.expects host V Inv).Shows (V e.type) (watchWord host watched f vars e)
      (evalWord host calls locals e) := by
  obtain ⟨rfl, holds, given⟩ := tracks
  exact needed_shows has (watchExpr_shows admits hostKeeps mem callsShow holds given typed)

/-- The literal truth is not zero, which the notes say too. -/
theorem watchWord_isTrue (admits : Admits V) (mem : f ∈ c.functions) {e : Expr} (h : e.isTrue) :
    (c.expects host V Inv).Shows (· ≠ 0) (watchWord host watched f vars e)
      (evalWord host calls locals e) := by
  cases e with
  | bool value span =>
      cases value with
      | false => contradiction
      | true =>
          rw [watchWord, evalWord, watchExpr, evalExpr]
          refine Shows.bind (P := (· = some 1)) ?_ fun value same => ?_
          · exact Shows.noting (Shows.pure rfl) fun _ same => same ▸ ⟨mem, rfl, admits.truth true⟩
          · subst same
            exact Shows.pure (by decide)
  | _ => contradiction

/-! ### Statements -/

/-- Control comes to the end of a nested block only where typing says so, and the block gives values
to no variable of the blocks around it. -/
theorem ending_sees {body : List Stmt} {diverges : Bool} {P : Option Word → Prop}
    {x : Eval (State × Log State) (Flow Tracked)} {y : Eval State (Flow Locals)}
    (mem : f ∈ c.functions) (less : diverges = true → Stmt.anyDiverges body = true)
    (h : (c.expects host V Inv).Sees (Ends (Tracks V (c.context f) (liveAfter live body)) P
      (Stmt.anyDiverges body)) x y) :
    (c.expects host V Inv).Sees (Ends (Tracks V (c.context f) live) P diverges)
      (do (← x).andThen (ending f body)) y := by
  refine h.bind_left fun flow flow' ends => ?_
  have ends' := ends.weaken (fun _ _ tracks => tracks.weaken (subset_liveAfter live body)) less
  cases ends with
  | next passes tracks =>
      exact Sees.note_bind ⟨mem, passes⟩ (Sees.pure ends')
  | returned result => exact Sees.pure ends'

theorem watchStmts_sees_of_forall (mem : f ∈ c.functions) {rounds : Nat} {body : List Stmt}
    {P : Option Word → Prop}
    (each : ∀ s ∈ body, ∀ live vars locals, Tracks V (c.context f) live vars locals →
      s.Typed (c.context f) live → (c.expects host V Inv).Sees
        (Ends (Tracks V (c.context f) (s.declares ++ live)) P s.diverges)
        (watchStmt host watched f rounds vars s) (evalStmt host calls rounds locals s))
    {live : List Nat} {vars : Tracked} {locals : Locals}
    (tracks : Tracks V (c.context f) live vars locals)
    (typed : StmtsTyped (c.context f) live body) :
    (c.expects host V Inv).Sees
      (Ends (Tracks V (c.context f) (liveAfter live body)) P (Stmt.anyDiverges body))
      (watchStmts host watched f rounds vars body) (evalStmts host calls rounds locals body) := by
  induction body generalizing live vars locals with
  | nil => exact Sees.pure (.next rfl tracks)
  | cons s rest ih =>
      obtain ⟨first, others⟩ := List.forall_mem_cons.1 each
      rw [watchStmts, evalStmts, Stmt.anyDiverges]
      refine (first live vars locals tracks typed.1).bind fun flow flow' ends => ?_
      exact Sees.andThen ends fun _ _ passes tracks =>
        Sees.note_bind ⟨mem, passes⟩ (ih others tracks typed.2)

/-- A typed statement ends under watch as typing says, and its steps are sound. -/
theorem watchStmt_sees (admits : Admits V) (hostKeeps : HostKeeps V Inv (c.context f).storage host)
    (mem : f ∈ c.functions) (callsShow : CallsShow c host V Inv watched calls) {rounds : Nat}
    {s : Stmt} :
    ∀ live vars locals, Tracks V (c.context f) live vars locals → s.Typed (c.context f) live →
      (c.expects host V Inv).Sees
        (Ends (Tracks V (c.context f) (s.declares ++ live)) (Fits V f.result) s.diverges)
        (watchStmt host watched f rounds vars s) (evalStmt host calls rounds locals s) := by
  have word {live : List Nat} {vars : Tracked} {locals : Locals}
      (tracks : Tracks V (c.context f) live vars locals) {e : Expr}
      (typed : e.Typed (c.context f) live) (has : e.type.hasValue) :
      (c.expects host V Inv).Shows (V e.type) (watchWord host watched f vars e)
        (evalWord host calls locals e) :=
    watchWord_shows admits hostKeeps mem callsShow tracks typed has
  have truth {live : List Nat} {vars : Tracked} {locals : Locals}
      (tracks : Tracks V (c.context f) live vars locals) {cond : Expr}
      (typed : cond.Has (c.context f) live .bool) :
      (c.expects host V Inv).Shows (V .bool) (watchWord host watched f vars cond)
        (evalWord host calls locals cond) :=
    typed.2 ▸ word tracks typed.1 (by rw [typed.2]; rfl)
  induction s with
  | letIn index value span =>
      intro live vars locals tracks typed
      rw [watchStmt, evalStmt]
      refine (word tracks typed.1 typed.2.2).bind fun w hw => ?_
      refine Sees.note_bind ⟨mem, _, typed.2.1, hw⟩
        (Sees.pure (.next rfl ?_))
      exact ⟨by rw [tracks.same], tracks.holds.set typed.2.1 hw,
        List.cons_subset_cons index tracks.given⟩
  | set index value span =>
      intro live vars locals tracks typed
      rw [watchStmt, evalStmt]
      refine (word tracks typed.1 typed.2.2).bind fun w hw => ?_
      refine Sees.note_bind ⟨mem, _, typed.2.1, hw⟩
        (Sees.pure (.next rfl ?_))
      exact ⟨by rw [tracks.same],
        (tracks.holds.set typed.2.1 hw).weaken (List.subset_cons_self index live), tracks.given⟩
  | store slot value span =>
      intro live vars locals tracks typed
      rw [watchStmt, evalStmt]
      refine (word tracks typed.1 typed.2.2).bind fun w hw => ?_
      refine Sees.note_bind ⟨mem, _, typed.2.1, hw⟩ ?_
      refine (watchAsk_shows mem (P := fun _ => True) fun state inv =>
        ⟨hostKeeps.store state slot _ w inv typed.2.1 hw, fun _ _ => trivial⟩).bind fun _ _ => ?_
      exact Sees.pure (.next rfl tracks)
  | ifThen cond yes no span ihy ihn =>
      intro live vars locals tracks typed
      rw [watchStmt, evalStmt]
      refine (truth tracks typed.1).bind fun w _ => ?_
      split
      · exact ending_sees mem (by simp [Stmt.diverges])
          (watchStmts_sees_of_forall mem ihn tracks typed.2.2)
      · exact ending_sees mem (by simp +contextual [Stmt.diverges])
          (watchStmts_sees_of_forall mem ihy tracks typed.2.1)
  | whileDo cond body span ih =>
      intro live vars locals tracks typed
      rw [watchStmt, evalStmt]
      refine Sees.loop (fun vars locals tracks => ?_) (fun vars locals tracks => ?_) rounds tracks
      · -- A loop on the literal truth diverges, so its condition has to be known not to fail.
        by_cases endless : cond.isTrue
        · exact (watchWord_isTrue admits mem endless).weaken fun _ h _ => h
        · exact (truth tracks typed.1).weaken fun _ _ h => absurd h endless
      · exact ending_sees mem (by simp)
          (watchStmts_sees_of_forall mem ih tracks typed.2)
  | returns value span =>
      intro live vars locals tracks typed
      cases value with
      | none =>
          rw [watchStmt, evalStmt]
          exact Sees.pure (.returned typed)
      | some value =>
          obtain ⟨rfl, holds, given⟩ := tracks
          rw [watchStmt, evalStmt]
          have shows := watchExpr_shows admits hostKeeps mem callsShow holds given typed.1.1
          rw [typed.1.2] at shows
          exact shows.bind fun v fits => Sees.pure (.returned fits)
  | require cond span =>
      intro live vars locals tracks typed
      rw [watchStmt, evalStmt]
      refine (truth tracks typed).bind fun w _ => ?_
      split
      case isTrue zero => exact Sees.trapped ⟨mem, zero⟩ ⟨_, rfl⟩
      case isFalse => exact Sees.pure (.next rfl tracks)
  | eval value span =>
      intro live vars locals tracks typed
      obtain ⟨same, holds, given⟩ := tracks
      rw [watchStmt, evalStmt]
      subst same
      exact (watchExpr_shows admits hostKeeps mem callsShow holds given typed).bind fun _ _ =>
        Sees.pure (.next rfl ⟨rfl, holds, given⟩)

/-- Typed statements end under watch as typing says, and their steps are sound. -/
theorem watchStmts_sees (admits : Admits V) (hostKeeps : HostKeeps V Inv (c.context f).storage host)
    (mem : f ∈ c.functions) (callsShow : CallsShow c host V Inv watched calls) {rounds : Nat}
    {body : List Stmt} (tracks : Tracks V (c.context f) live vars locals)
    (typed : StmtsTyped (c.context f) live body) :
    (c.expects host V Inv).Sees
      (Ends (Tracks V (c.context f) (liveAfter live body)) (Fits V f.result)
        (Stmt.anyDiverges body))
      (watchStmts host watched f rounds vars body) (evalStmts host calls rounds locals body) :=
  watchStmts_sees_of_forall mem (fun _ _ => watchStmt_sees admits hostKeeps mem callsShow) tracks
    typed

/-! ### Functions -/

/-- A function that returns a value of its type gives it. -/
theorem resultOf_returned {Vars : Type} {type : Ty} {value : Option Word}
    (fits : Fits V type value) :
    (Lang.resultOf type.hasValue (.returned value : Flow Vars) : Eval State (Option Word)) =
      pure value := by
  rw [← fits.isSome_eq]
  cases value <;> rfl

/-- A typed function gives its result under watch, and its steps are sound. -/
theorem watch_shows (admits : Admits V) (typed : c.TypedFunction f)
    (hostKeeps : HostKeeps V Inv (c.context f).storage host) (mem : f ∈ c.functions)
    (callsShow : CallsShow c host V Inv watched calls) {rounds : Nat} {args : List Word}
    (fit : ArgsFit V f.signature.params args) :
    (c.expects host V Inv).Shows (Fits V f.result) (f.watch host watched rounds args)
      (f.eval host calls rounds args) := by
  have count : args.length = f.paramCount := fit.1.trans (Function.length_signature typed)
  have tracks : Tracks V (c.context f) (List.range f.paramCount)
      ⟨f.entry args, List.range f.paramCount⟩ (f.entry args) :=
    ⟨rfl, entry_holds typed fit, fun _ known => known⟩
  unfold Function.watch Function.eval
  rw [if_neg (fun h => h count), if_neg (fun h => h count)]
  refine Sees.note_bind ⟨mem, fit⟩ ?_
  refine (watchStmts_sees admits hostKeeps mem callsShow tracks typed.body).bind
    fun flow flow' ends => ?_
  have leaves {value : Option Word} (fits : Fits V f.result value) :
      (c.expects host V Inv).Shows (Fits V f.result)
        (do note (f, .leaves value); return value) (pure value) :=
    Sees.note_bind ⟨mem, fits⟩ (Shows.pure fits)
  cases ends with
  | next passes tracks =>
      -- The end of the body is reached, so by typing no value is owed.
      have owed : f.result.hasValue = false := by
        cases has : f.result.hasValue with
        | false => rfl
        | true => exact absurd (typed.returns has) (by simp [passes])
      have unit : Fits V f.result none := by
        revert owed
        cases f.result <;> simp [Fits, Ty.hasValue]
      rw [owed]
      simp only [Flow.andThen, bind_assoc, pure_bind]
      refine Sees.note_bind ⟨mem, passes⟩ (Sees.note_bind ⟨mem, owed⟩ ?_)
      exact leaves unit
  | returned fits =>
      simp only [Flow.andThen, pure_bind, resultOf_returned fits]
      exact leaves fits

end

/-- Calls of a typed contract under watch give what calls give, and all steps are sound. -/
theorem call_shows {V : Ty → Word → Prop} {Inv : State → Prop} {host : Host State}
    (admits : Admits V) {c : Contract} (typed : c.Typed)
    (hostKeeps : HostKeeps V Inv (c.storage.map (·.type)) host) (fuel : Nat) :
    CallsShow c host V Inv (c.watch host fuel) (c.call host fuel) := by
  induction fuel with
  | zero => exact fun _ _ _ _ _ => Sees.outOfFuel
  | succ fuel ih =>
      intro function sig args declared fit
      rw [List.getElem?_map, Option.map_eq_some_iff] at declared
      obtain ⟨f, found, rfl⟩ := declared
      have mem := List.mem_of_getElem? found
      rw [Contract.watch, Contract.call, found]
      exact watch_shows admits (typed f mem) hostKeeps mem ih fit

/-! ### Runs -/

/-- A call of a function has ended like this, with these notes, and nothing has gone wrong. -/
structure Contract.Safe {State : Type} (c : Contract) (host : Host State) (V : Ty → Word → Prop)
    (f : Function) (result : Except Halt (Option Word)) (log : Log State) : Prop where
  steps : ∀ step ∈ log, step.1 ∈ c.functions ∧ step.2.Sound c host V step.1
  notStuck : result ≠ .error .stuck
  value : ∀ value, result = .ok value → Fits V f.result value
  /-- A trap is the last step. -/
  trap : result = .error .trapped → ∃ g cause, log.getLast? = some (g, .traps cause)

/-- A call of a typed contract under watch comes to what it comes to, and nothing goes wrong. -/
theorem watch_safe {V : Ty → Word → Prop} {Inv : State → Prop} {host : Host State}
    (admits : Admits V) {c : Contract} (typed : c.Typed)
    (hostKeeps : HostKeeps V Inv (c.storage.map (·.type)) host) {index : Nat} {f : Function}
    (found : c.functions[index]? = some f) {args : List Word}
    (fit : ArgsFit V f.signature.params args) {state : State} (inv : Inv state) (fuel : Nat) :
    ∃ result final log, (c.watch host fuel index args).outcome (state, []) = (result, final, log) ∧
      (c.call host fuel index args).outcome state = (result, final) ∧
      c.Safe host V f result log := by
  obtain ⟨log, result, result', final, watched, called, -, good, ends⟩ :=
    call_shows admits typed hostKeeps fuel index _ args (getElem?_signatures found) fit state [] inv
  cases ends with
  | value related =>
      obtain ⟨rfl, fits⟩ := related
      refine ⟨_, final, log, watched, called, good, by simp, ?_, fun h => (nomatch h)⟩
      rintro _ ⟨⟩
      exact fits
  | trapped last trap =>
      obtain ⟨cause, traps⟩ := trap
      refine ⟨_, final, log, watched, called, good, by simp, fun _ h => (nomatch h), fun _ => ?_⟩
      exact ⟨_, cause, by rw [last, ← traps]⟩
  | outOfFuel =>
      exact ⟨_, final, log, watched, called, good, by simp, fun _ h => (nomatch h),
        fun h => (nomatch h)⟩

end Workbench.Lowered
