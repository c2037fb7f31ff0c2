import Workbench.Proofs.Lowered.Soundness

/-!
# More fuel

Fuel is no part of the meaning of a contract: with more of it an evaluation that has come to its end
comes to the same end. The statements are about typed code under an invariant of the host, as are
those on freedom from being stuck, so that calls have to be compared on proper arguments only.
-/

namespace Workbench.Lowered

open Lang (Ty UnaryOp BinaryOp Word Host Eval Flow)
open Lang.Eval (Keeps Approximates Compares)

variable {State : Type} {V : Ty → Word → Prop} {Inv : State → Prop}

/-! ### Comparing by parts -/

section

variable {R : ∀ {α : Type}, Eval State α → Eval State α → Prop}

theorem needed_congr (c : Compares Inv R) {type : Ty} {x y : Eval State (Option Word)} (h : R x y)
    (hy : Keeps Inv (Fits V type) y) : R (do Eval.needed (← x)) (do Eval.needed (← y)) :=
  c.bind h hy fun _ _ => c.refl _

theorem evaluate_congr (c : Compares Inv R) {op : BinaryOp} {left right : Ty}
    {lhs lhs' rhs rhs' : Eval State Word} (hl : R lhs lhs') (keepsl : Keeps Inv (V left) lhs')
    (hr : R rhs rhs') (keepsr : Keeps Inv (V right) rhs') :
    R (op.evaluate lhs rhs) (op.evaluate lhs' rhs') := by
  unfold Lang.BinaryOp.evaluate
  refine c.bind hl keepsl fun a _ => ?_
  cases op.settled? a with
  | some w => exact c.refl _
  | none => exact c.bind hr keepsr fun _ _ => c.refl _

theorem andThen_congr (c : Compares Inv R) {Γ : Context} {live : List Nat} {diverges : Bool}
    {flow : Flow Locals} {next next' : Locals → Eval State (Flow Locals)}
    (h : FlowFits V Γ live diverges flow)
    (hn : ∀ locals, diverges = false → Holds V Γ live locals → R (next locals) (next' locals)) :
    R (flow.andThen next) (flow.andThen next') := by
  cases flow with
  | next locals => exact hn locals h.1 h.2
  | returned value => exact c.refl _

end

/-! ### Calls with more fuel -/

/-- Calls come to the same as other calls on proper arguments, unless they run out of fuel. -/
def CallsApproximate (V : Ty → Word → Prop) (Inv : State → Prop) (signatures : List Signature)
    (calls calls' : Calls State) : Prop :=
  ∀ function sig args, signatures[function]? = some sig → ArgsFit V sig.params args →
    Approximates Inv (calls function args) (calls' function args)

section

variable {host : Host State} {calls calls' : Calls State} {Γ : Context} {live : List Nat}
  {locals : Locals}

/-! ### Expressions -/

theorem evalArgs_approximates (admits : Admits V) (hostKeeps : HostKeeps V Inv Γ.storage host)
    (callsKeep : CallsKeep V Inv Γ.signatures calls') (holds : Holds V Γ live locals)
    {args : List Expr} {params : List Ty}
    (each : ∀ a ∈ args, a.Typed Γ live →
      Approximates Inv (evalExpr host calls locals a) (evalExpr host calls' locals a))
    (typed : ArgsTyped Γ live args params) :
    Approximates Inv (evalArgs host calls locals args) (evalArgs host calls' locals args) := by
  have keeps {e : Expr} (typed : e.Typed Γ live) :
      Keeps Inv (Fits V e.type) (evalExpr host calls' locals e) :=
    evalExpr_keeps admits hostKeeps callsKeep holds typed
  induction typed using ArgsTyped.induction with
  | nil => exact Approximates.refl _
  | cons he has rest ih =>
      obtain ⟨first, others⟩ := List.forall_mem_cons.1 each
      rw [evalArgs, evalArgs]
      refine (first he).bind (keeps he) fun value fits => ?_
      obtain ⟨w, rfl, hw⟩ := fits.exists_of_hasValue has
      refine (Approximates.refl _).bind (Keeps.needed hw) fun w _ => ?_
      refine (ih others).bind (evalArgs_keeps (fun _ _ => keeps) rest) fun _ _ => ?_
      exact Approximates.refl _

theorem evalExpr_approximates (admits : Admits V) (hostKeeps : HostKeeps V Inv Γ.storage host)
    (callsKeep : CallsKeep V Inv Γ.signatures calls')
    (less : CallsApproximate V Inv Γ.signatures calls calls') (holds : Holds V Γ live locals)
    {e : Expr} (typed : e.Typed Γ live) :
    Approximates Inv (evalExpr host calls locals e) (evalExpr host calls' locals e) := by
  have keeps {e : Expr} (typed : e.Typed Γ live) :
      Keeps Inv (Fits V e.type) (evalExpr host calls' locals e) :=
    evalExpr_keeps admits hostKeeps callsKeep holds typed
  induction e with
  | int value span => exact Approximates.refl _
  | bool value span => exact Approximates.refl _
  | var index type span => exact Approximates.refl _
  | slot index type span => exact Approximates.refl _
  | unary op operand span ih =>
      rw [evalExpr, evalExpr]
      exact (ih typed.1).bind (keeps typed.1) fun _ _ => Approximates.refl _
  | binary op lhs rhs span ihl ihr =>
      obtain ⟨hl, hr, operands⟩ := typed
      obtain ⟨hasl, hasr⟩ := operands.hasValue
      have keepsl := needed_keeps hasl (keeps hl)
      have keepsr := needed_keeps hasr (keeps hr)
      rw [evalExpr, evalExpr]
      have left := needed_congr Approximates.compares (ihl hl) (keeps hl)
      have right := needed_congr Approximates.compares (ihr hr) (keeps hr)
      refine Approximates.bind (evaluate_congr Approximates.compares left keepsl right keepsr)
        (evaluate_keeps admits operands keepsl keepsr) fun _ _ => Approximates.refl _
  | shl value amount span ih =>
      rw [evalExpr, evalExpr]
      exact (ih typed.1).bind (keeps typed.1) fun _ _ => Approximates.refl _
  | call function args result span ih =>
      obtain ⟨params, declared, argsTyped⟩ := typed
      rw [evalExpr, evalExpr]
      exact (evalArgs_approximates admits hostKeeps callsKeep holds ih argsTyped).bind
        (evalArgs_keeps (fun _ _ => keeps) argsTyped) fun ws fit => less function _ ws declared fit
  | builtin kind args span ih =>
      rw [evalExpr, evalExpr]
      exact (evalArgs_approximates admits hostKeeps callsKeep holds ih typed.2).bind
        (evalArgs_keeps (fun _ _ => keeps) typed.2) fun _ _ => Approximates.refl _

theorem evalWord_approximates (admits : Admits V) (hostKeeps : HostKeeps V Inv Γ.storage host)
    (callsKeep : CallsKeep V Inv Γ.signatures calls')
    (less : CallsApproximate V Inv Γ.signatures calls calls') (holds : Holds V Γ live locals)
    {e : Expr} (typed : e.Typed Γ live) :
    Approximates Inv (evalWord host calls locals e) (evalWord host calls' locals e) :=
  needed_congr Approximates.compares
    (evalExpr_approximates admits hostKeeps callsKeep less holds typed)
    (evalExpr_keeps admits hostKeeps callsKeep holds typed)

/-! ### Statements -/

theorem loop_approximates {test test' : Locals → Eval State Word}
    {body body' : Locals → Eval State (Flow Locals)}
    (ht : ∀ locals, Holds V Γ live locals → Approximates Inv (test locals) (test' locals))
    (keepst : ∀ locals, Holds V Γ live locals → Keeps Inv (fun _ => True) (test' locals))
    (hb : ∀ locals, Holds V Γ live locals → Approximates Inv (body locals) (body' locals))
    (keepsb : ∀ locals, Holds V Γ live locals →
      Keeps Inv (FlowFits V Γ live false) (body' locals))
    {rounds rounds' : Nat} (le : rounds ≤ rounds') (holds : Holds V Γ live locals) :
    Approximates Inv (Flow.loop test body rounds locals)
      (Flow.loop test' body' rounds' locals) := by
  induction rounds generalizing rounds' locals with
  | zero => exact Approximates.outOfFuel _
  | succ rounds ih =>
      obtain ⟨rounds', rfl⟩ : ∃ n, rounds' = n + 1 := ⟨rounds' - 1, by omega⟩
      rw [Flow.loop, Flow.loop]
      refine (ht locals holds).bind (keepst locals holds) fun w _ => ?_
      split
      · exact Approximates.refl _
      · refine (hb locals holds).bind (keepsb locals holds) fun flow fits => ?_
        exact andThen_congr Approximates.compares fits fun _ _ holds => ih (by omega) holds

theorem evalStmts_approximates_of_forall (admits : Admits V)
    (hostKeeps : HostKeeps V Inv Γ.storage host)
    (callsKeep : CallsKeep V Inv Γ.signatures calls') {rounds rounds' : Nat} {body : List Stmt}
    (each : ∀ s ∈ body, ∀ live locals, Holds V Γ live locals → s.Typed Γ live →
      Approximates Inv (evalStmt host calls rounds locals s)
        (evalStmt host calls' rounds' locals s))
    {live : List Nat} {locals : Locals} (holds : Holds V Γ live locals)
    (typed : StmtsTyped Γ live body) :
    Approximates Inv (evalStmts host calls rounds locals body)
      (evalStmts host calls' rounds' locals body) := by
  induction body generalizing live locals with
  | nil => exact Approximates.refl _
  | cons s rest ih =>
      obtain ⟨first, others⟩ := List.forall_mem_cons.1 each
      rw [evalStmts, evalStmts]
      refine (first live locals holds typed.1).bind
        (evalStmt_keeps admits hostKeeps callsKeep live locals holds typed.1) fun flow fits => ?_
      exact andThen_congr Approximates.compares fits fun _ _ holds => ih others holds typed.2

theorem evalStmt_approximates (admits : Admits V) (hostKeeps : HostKeeps V Inv Γ.storage host)
    (callsKeep : CallsKeep V Inv Γ.signatures calls')
    (less : CallsApproximate V Inv Γ.signatures calls calls') {rounds rounds' : Nat}
    (le : rounds ≤ rounds') {s : Stmt} :
    ∀ live locals, Holds V Γ live locals → s.Typed Γ live →
      Approximates Inv (evalStmt host calls rounds locals s)
        (evalStmt host calls' rounds' locals s) := by
  have word {live : List Nat} {locals : Locals} (holds : Holds V Γ live locals) {e : Expr}
      (typed : e.Typed Γ live) :
      Approximates Inv (evalWord host calls locals e) (evalWord host calls' locals e) :=
    evalWord_approximates admits hostKeeps callsKeep less holds typed
  have keeps {live : List Nat} {locals : Locals} (holds : Holds V Γ live locals) {e : Expr}
      (typed : e.Typed Γ live) (has : e.type.hasValue) :
      Keeps Inv (V e.type) (evalWord host calls' locals e) :=
    evalWord_keeps admits hostKeeps callsKeep holds typed has
  have truth {live : List Nat} {locals : Locals} (holds : Holds V Γ live locals) {cond : Expr}
      (typed : cond.Has Γ live .bool) :
      Keeps Inv (V .bool) (evalWord host calls' locals cond) :=
    typed.2 ▸ keeps holds typed.1 (by rw [typed.2]; rfl)
  induction s with
  | letIn index value span | set index value span =>
      intro live locals holds typed
      rw [evalStmt, evalStmt]
      exact (word holds typed.1).bind (keeps holds typed.1 typed.2.2) fun _ _ =>
        Approximates.refl _
  | store slot value span =>
      intro live locals holds typed
      rw [evalStmt, evalStmt]
      exact (word holds typed.1).bind (keeps holds typed.1 typed.2.2) fun _ _ =>
        Approximates.refl _
  | ifThen cond yes no span ihy ihn =>
      intro live locals holds typed
      rw [evalStmt, evalStmt]
      refine (word holds typed.1.1).bind (truth holds typed.1) fun w _ => ?_
      split
      · exact evalStmts_approximates_of_forall admits hostKeeps callsKeep ihn holds typed.2.2
      · exact evalStmts_approximates_of_forall admits hostKeeps callsKeep ihy holds typed.2.1
  | whileDo cond body span ih =>
      intro live locals holds typed
      rw [evalStmt, evalStmt]
      refine loop_approximates (fun locals holds => word holds typed.1.1) (fun locals holds => ?_)
        (fun locals holds => ?_) (fun locals holds => ?_) le holds
      · exact (truth holds typed.1).weaken fun _ _ => trivial
      · exact evalStmts_approximates_of_forall admits hostKeeps callsKeep ih holds typed.2
      · exact nested_keeps (by rintro ⟨⟩)
          (evalStmts_keeps admits hostKeeps callsKeep holds typed.2)
  | returns value span =>
      intro live locals holds typed
      cases value with
      | none => exact Approximates.refl _
      | some value =>
          rw [evalStmt, evalStmt]
          exact (evalExpr_approximates admits hostKeeps callsKeep less holds typed.1.1).bind
            (evalExpr_keeps admits hostKeeps callsKeep holds typed.1.1) fun _ _ =>
            Approximates.refl _
  | require cond span =>
      intro live locals holds typed
      rw [evalStmt, evalStmt]
      exact (word holds typed.1).bind (truth holds typed) fun _ _ => Approximates.refl _
  | eval value span =>
      intro live locals holds typed
      rw [evalStmt, evalStmt]
      exact (evalExpr_approximates admits hostKeeps callsKeep less holds typed).bind
        (evalExpr_keeps admits hostKeeps callsKeep holds typed) fun _ _ => Approximates.refl _

/-! ### Functions -/

/-- A function with more fuel for its loops and with calls that have more fuel. -/
theorem eval_approximates (admits : Admits V) {c : Contract} {f : Function}
    (typed : c.TypedFunction f) (hostKeeps : HostKeeps V Inv (c.context f).storage host)
    (callsKeep : CallsKeep V Inv (c.context f).signatures calls')
    (less : CallsApproximate V Inv (c.context f).signatures calls calls') {rounds rounds' : Nat}
    (le : rounds ≤ rounds') {args : List Word} (fit : ArgsFit V f.signature.params args) :
    Approximates Inv (f.eval host calls rounds args) (f.eval host calls' rounds' args) := by
  have count : args.length = f.paramCount := fit.1.trans (Function.length_signature typed)
  unfold Function.eval
  rw [if_neg (fun h => h count), if_neg (fun h => h count)]
  have holds := entry_holds typed fit
  exact (evalStmts_approximates_of_forall admits hostKeeps callsKeep
    (fun _ _ => evalStmt_approximates admits hostKeeps callsKeep less le) holds typed.body).bind
    (evalStmts_keeps admits hostKeeps callsKeep holds typed.body) fun _ _ => Approximates.refl _

end

/-- Calls with more fuel. -/
theorem call_approximates {host : Host State} (admits : Admits V) {c : Contract} (typed : c.Typed)
    (hostKeeps : HostKeeps V Inv (c.storage.map (·.type)) host) {fuel fuel' : Nat}
    (le : fuel ≤ fuel') :
    CallsApproximate V Inv (c.functions.map (·.signature)) (c.call host fuel)
      (c.call host fuel') := by
  induction fuel generalizing fuel' with
  | zero => exact fun _ _ _ _ _ => Approximates.outOfFuel _
  | succ fuel ih =>
      obtain ⟨fuel', rfl⟩ : ∃ n, fuel' = n + 1 := ⟨fuel' - 1, by omega⟩
      intro function sig args declared fit
      rw [List.getElem?_map, Option.map_eq_some_iff] at declared
      obtain ⟨f, found, rfl⟩ := declared
      rw [Contract.call, Contract.call, found]
      exact eval_approximates admits (typed f (List.mem_of_getElem? found)) hostKeeps
        (call_keeps admits typed hostKeeps fuel') (ih (by omega)) (by omega) fit

/-! ### Calls without fuel -/

/-- A call comes to an end: some fuel leads to it. -/
def Contract.Evaluates (c : Contract) (host : Host State) (index : Nat) (args : List Word)
    (state : State) (result : Except Lang.Halt (Option Word)) (state' : State) : Prop :=
  result ≠ .error .outOfFuel ∧ ∃ fuel, (c.call host fuel index args).outcome state = (result, state')

section

variable {c : Contract} {host : Host State} {index : Nat} {sig : Signature} {args : List Word}
  {state state' : State} {result : Except Lang.Halt (Option Word)}

/-- A result has a type, or there is a trap instead of it. -/
def EndFits (V : Ty → Word → Prop) (type : Ty) : Except Lang.Halt (Option Word) → Prop
  | .ok value => Fits V type value
  | .error halt => halt = .trapped

theorem getElem?_signatures {f : Function} (found : c.functions[index]? = some f) :
    (c.functions.map (·.signature))[index]? = some f.signature := by
  rw [List.getElem?_map, found]
  rfl

theorem any_argsFit {f : Function} (typed : c.TypedFunction f)
    (count : args.length = f.paramCount) : ArgsFit (fun _ _ => True) f.signature.params args :=
  ⟨count.trans (Function.length_signature typed).symm, fun _ _ _ _ _ => trivial⟩

/-- A call of a typed contract is never stuck, and a value has the type of the result. -/
theorem Contract.Evaluates.fits (admits : Admits V) (typed : c.Typed)
    (hostKeeps : HostKeeps V Inv (c.storage.map (·.type)) host)
    (declared : (c.functions.map (·.signature))[index]? = some sig)
    (fit : ArgsFit V sig.params args) (inv : Inv state)
    (h : c.Evaluates host index args state result state') : EndFits V sig.result result := by
  obtain ⟨notOut, fuel, outcome⟩ := h
  have keeps := (call_keeps admits typed hostKeeps fuel index sig args declared fit state inv).2
  rw [outcome] at keeps
  cases result with
  | ok value => exact keeps
  | error halt =>
      cases halt with
      | trapped => rfl
      | stuck => exact absurd rfl keeps
      | outOfFuel => exact absurd rfl notOut

/-- A call that some fuel leads to its end comes to the same with any more fuel. -/
theorem Contract.Evaluates.of_approximates {c' : Contract} (more : Nat → Nat)
    (h : ∀ fuel, CallsApproximate V Inv (c.functions.map (·.signature)) (c.call host fuel)
      (c'.call host (more fuel)))
    (declared : (c.functions.map (·.signature))[index]? = some sig)
    (fit : ArgsFit V sig.params args) (inv : Inv state)
    (evaluates : c.Evaluates host index args state result state') :
    c'.Evaluates host index args state result state' := by
  obtain ⟨notOut, fuel, outcome⟩ := evaluates
  refine ⟨notOut, more fuel, ?_⟩
  rcases h fuel index sig args declared fit state inv with out | same
  · rw [outcome] at out
    exact absurd out notOut
  · rw [← same, outcome]

/-- A call comes to one end only. -/
theorem Contract.Evaluates.unique (admits : Admits V) (typed : c.Typed)
    (hostKeeps : HostKeeps V Inv (c.storage.map (·.type)) host)
    (declared : (c.functions.map (·.signature))[index]? = some sig)
    (fit : ArgsFit V sig.params args) (inv : Inv state) {result' : Except Lang.Halt (Option Word)}
    {state'' : State} (h : c.Evaluates host index args state result state')
    (h' : c.Evaluates host index args state result' state'') :
    (result, state') = (result', state'') := by
  obtain ⟨notOut, fuel, outcome⟩ := h
  obtain ⟨notOut', fuel', outcome'⟩ := h'
  have more {n m : Nat} (le : n ≤ m) :=
    call_approximates admits typed hostKeeps le index sig args declared fit state inv
  rcases Nat.le_total fuel fuel' with le | le
  · rcases more le with out | same
    · rw [outcome] at out
      exact absurd out notOut
    · rw [← outcome, same, outcome']
  · rcases more le with out | same
    · rw [outcome'] at out
      exact absurd out notOut'
    · rw [← outcome', same, outcome]

end

end Workbench.Lowered
