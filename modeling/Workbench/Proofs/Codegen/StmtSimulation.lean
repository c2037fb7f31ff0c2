import Workbench.Proofs.Codegen.ExprSimulation

/-!
# The code of statements and functions

The code of a statement follows its evaluation: it goes on with the changed locals, or the function
returns. A loop is entered anew for every round, and so the number of rounds that an evaluation has
fuel for is also how often the run of its code has come back at least when the fuel is used up. The
same count carries the induction over nested calls.
-/

namespace Workbench.Codegen

open Source (Span)
open Lang (Ty Builtin Word Host Eval)
open Lang.Eval (Keeps)
open Lowered (Expr Stmt Function Contract Locals Calls StmtsTyped Holds Fits FlowFits CallsKeep
  evalExpr evalWord evalStmt evalStmts any_admits any_hostKeeps evalExpr_keeps evalWord_keeps
  evalStmt_keeps evalStmts_keeps)
open Wasm (Instr Instance Run)
open Wasm.Run (halted within Stalls)
open Wasm.Instance (leads_const leads_localSet leads_eqz leads_drop leads_ret leads_br leads_brIf
  leads_unreachable)

theorem zeroed_set (locals : Locals) (index : Nat) (w : Word) :
    zeroed (locals.set index (some w)) = (zeroed locals).set index w := by
  rw [zeroed, List.map_set]
  rfl

@[simp] theorem length_zeroed (locals : Locals) : (zeroed locals).length = locals.length :=
  List.length_map _

section

variable {State : Type} {host : Host State} {c : Contract} {layout : Layout}
  {inst : Instance State} {n : Nat} {calls : Calls State} {f : Function} {live : List Nat}
  {locals : Locals}

/-! ### What code is expected to do -/

/-- Code goes on with the changed locals, or the function returns with so many results. -/
def leaving (inst : Instance State) (results : Nat) (rest : List Instr) (stack : List Word) :
    Expected State (Lang.Flow Locals)
  | .next locals, state, y => y = inst.run rest ⟨stack, zeroed locals⟩ state
  | .returned value?, state, y =>
      ∃ act, act.stack.take results = value?.toList ∧ y = halted (.returned act state)

/-- The code of a statement follows its evaluation, wherever it stands. -/
def StmtFollows (host : Host State) (layout : Layout) (inst : Instance State) (results n : Nat)
    (calls : Calls State) (locals : Locals) (s : Stmt) : Prop :=
  ∀ (rest : List Instr) (stack : List Word) (state : State),
    Follows n (evalStmt host calls n locals s) state
      (inst.run (stmtCode layout s ++ rest) ⟨stack, zeroed locals⟩ state)
      (leaving inst results rest stack)

/-- The code of statements follows their evaluation, wherever it stands. -/
def BlockFollows (host : Host State) (layout : Layout) (inst : Instance State) (results n : Nat)
    (calls : Calls State) (locals : Locals) (body : List Stmt) : Prop :=
  ∀ (rest : List Instr) (stack : List Word) (state : State),
    Follows n (evalStmts host calls n locals body) state
      (inst.run (blockCode layout body ++ rest) ⟨stack, zeroed locals⟩ state)
      (leaving inst results rest stack)

/-! ### Branches and loops -/

/-- A branch of a conditional goes on behind it. -/
theorem block_in_branch_follows {results : Nat} {body : List Stmt}
    (h : BlockFollows host layout inst results n calls locals body) (rest : List Instr)
    (stack : List Word) (state : State) :
    Follows n (evalStmts host calls n locals body) state
      (within state 0 (inst.run (blockCode layout body) ⟨[], zeroed locals⟩ state)
        (inst.afterBranch rest stack 0))
      (leaving inst results rest stack) := by
  have inner := h [] [] state
  rw [List.append_nil] at inner
  refine Follows.weaken (inner.within_self (inst.passes_afterBranch rest stack 0) ?_)
    (Nat.le_succ n)
  intro flow state' y hy
  cases flow with
  | next locals' => exact ⟨_, hy.trans (inst.run_nil _ _), rfl⟩
  | returned value? =>
      obtain ⟨act, value, hy⟩ := hy
      exact ⟨_, hy, act, value, rfl⟩

/-- The code of one round of a loop, between the marks of the loop. -/
def roundCode (layout : Layout) (cond : Expr) (body : List Stmt) : List Instr :=
  exprCode layout cond ++ [.eqz, .brIf 1] ++ blockCode layout body ++ [.br 0]

/-- What one round of a loop comes to; nothing if the condition fails. -/
def round (host : Host State) (calls : Calls State) (n : Nat) (locals : Locals) (cond : Expr)
    (body : List Stmt) : Eval State (Option (Lang.Flow Locals)) := do
  if (← evalWord host calls locals cond) = 0 then return none
  else return some (← evalStmts host calls n locals body)

/-- The code of a round leaves the loop, comes back to it or returns. -/
def rounding (results : Nat) (locals : Locals) : Expected State (Option (Lang.Flow Locals))
  | none, state, y => ∃ act, act.locals = zeroed locals ∧ y = halted (.branch 1 act state)
  | some (.next locals'), state, y =>
      ∃ act, act.locals = zeroed locals' ∧ y = halted (.branch 0 act state)
  | some (.returned value?), state, y =>
      ∃ act, act.stack.take results = value?.toList ∧ y = halted (.returned act state)

/-- The code of a loop leaves the block around it or returns. -/
def looping (results : Nat) : Expected State (Lang.Flow Locals)
  | .next locals, state, y => ∃ act, act.locals = zeroed locals ∧ y = halted (.branch 0 act state)
  | .returned value?, state, y =>
      ∃ act, act.stack.take results = value?.toList ∧ y = halted (.returned act state)

theorem ofBool_eq_zero (w : Word) : (Word.ofBool (w == 0) = 0) ↔ ¬ w = 0 := by
  by_cases zero : w = 0
  · subst zero
    decide
  · rw [beq_eq_false_iff_ne.2 zero]
    exact ⟨fun _ => zero, fun _ => rfl⟩

theorem round_follows {results : Nat} {cond : Expr} {body : List Stmt}
    (hc : WordFollows inst n (zeroed locals) (evalWord host calls locals cond)
      (exprCode layout cond))
    (hb : BlockFollows host layout inst results n calls locals body) (state : State) :
    Follows n (round host calls n locals cond body) state
      (inst.run (roundCode layout cond body) ⟨[], zeroed locals⟩ state)
      (rounding results locals) := by
  have code : roundCode layout cond body =
      exprCode layout cond ++ .eqz :: .brIf 1 :: (blockCode layout body ++ [.br 0]) := by
    simp [roundCode]
  rw [code]
  refine (hc _ [] state).bind fun w state' y hy => ?_
  rw [hy]
  refine Follows.of_leads leads_eqz (Follows.of_leads leads_brIf ?_)
  by_cases zero : w = 0
  · rw [if_pos zero, if_neg (by rw [ofBool_eq_zero]; exact fun h => h zero)]
    exact Follows.pure ⟨_, rfl, rfl⟩
  · rw [if_neg zero, if_pos ((ofBool_eq_zero w).2 zero)]
    refine (hb _ [] state').bind fun flow state'' y hy => ?_
    cases flow with
    | next locals' =>
        rw [show y = _ from hy]
        exact Follows.of_leads leads_br (Follows.pure ⟨_, rfl, rfl⟩)
    | returned value? => exact Follows.pure hy

/-- A loop is a round, and then perhaps the loop again. -/
theorem loop_succ (r : Nat) (locals : Locals) (cond : Expr) (body : List Stmt) :
    Lang.Flow.loop (fun locals => evalWord host calls locals cond)
        (fun locals => evalStmts host calls n locals body) (r + 1) locals =
      round host calls n locals cond body >>= fun flow? =>
        match flow? with
        | none => pure (.next locals)
        | some flow => flow.andThen (Lang.Flow.loop
            (fun locals => evalWord host calls locals cond)
            (fun locals => evalStmts host calls n locals body) r) := by
  rw [Lang.Flow.loop, round, bind_assoc]
  congr 1
  funext w
  split
  · rfl
  · rw [bind_assoc]
    rfl

theorem stalls_zero (i : Instr) (rest : List Instr) (act : Wasm.Activation) (state : State) :
    (inst.run (i :: rest) act state).Stalls 0 := by
  intro fuel depth low
  obtain rfl : fuel = 0 := by omega
  exact trivial

/-- A loop with some rounds left stalls as long as there are rounds. -/
theorem loop_follows {results : Nat} {cond : Expr} {body : List Stmt}
    (hc : ∀ locals, Holds Any (c.context f) live locals →
      WordFollows inst n (zeroed locals) (evalWord host calls locals cond) (exprCode layout cond))
    (hb : ∀ locals, Holds Any (c.context f) live locals →
      BlockFollows host layout inst results n calls locals body)
    (keepsc : ∀ locals, Holds Any (c.context f) live locals →
      Keeps (fun _ => True) (fun _ => True) (evalWord host calls locals cond))
    (keepsb : ∀ locals, Holds Any (c.context f) live locals →
      Keeps (fun _ => True) (FlowFits Any (c.context f) live false)
        (evalStmts host calls n locals body))
    (r : Nat) (le : r ≤ n) (holds : Holds Any (c.context f) live locals) (state : State) :
    Follows r (Lang.Flow.loop (fun locals => evalWord host calls locals cond)
        (fun locals => evalStmts host calls n locals body) r locals) state
      (inst.run [.loop (roundCode layout cond body)] ⟨[], zeroed locals⟩ state)
      (looping results) := by
  induction r generalizing locals state with
  | zero => exact Follows.outOfFuel (stalls_zero _ _ _ _)
  | succ r ih =>
      have keeps : Keeps (fun _ => True)
          (fun flow? => ∀ locals', flow? = some (.next locals') →
            Holds Any (c.context f) live locals') (round host calls n locals cond body) := by
        refine (keepsc locals holds).bind fun w _ => ?_
        split
        · exact Keeps.pure fun _ h => nomatch h
        · refine (keepsb locals holds).bind fun flow fits => Keeps.pure fun locals' h => ?_
          cases h
          exact fits.2
      have follows := ((round_follows (hc locals holds) (hb locals holds) state).weaken
        (show r ≤ n by omega)).keeping keeps
      rw [loop_succ, inst.run_loop]
      refine follows.within (inst.passes_afterLoop [] [] _) fun flow? state' y hy => ?_
      obtain ⟨next, hy⟩ := hy
      rcases flow? with _ | ⟨locals'⟩ | value?
      · obtain ⟨act, same, rfl⟩ := hy
        exact ⟨_, rfl, Follows.pure ⟨act, same, rfl⟩⟩
      · obtain ⟨act, same, rfl⟩ := hy
        refine ⟨_, rfl, ?_⟩
        have again := ih (by omega) (next locals' rfl) state'
        rw [← same] at again
        exact again
      · obtain ⟨act, value, rfl⟩ := hy
        exact ⟨_, rfl, Follows.pure ⟨act, value, rfl⟩⟩

/-! ### Forms of statements -/

attribute [local simp] stmtCode

theorem store_follows (links : Links c host layout inst) {results slot : Nat} {value : Expr}
    {span : Span} (imported : Builtin.storageStore ∈ layout.imports)
    (hv : WordFollows inst n (zeroed locals) (evalWord host calls locals value)
      (exprCode layout value)) :
    StmtFollows host layout inst results n calls locals (.store slot value span) := by
  intro rest stack state
  rw [evalStmt, stmtCode, List.cons_append, List.append_assoc]
  refine Follows.of_leads leads_const ((hv _ _ state).bind fun w state' y hy => ?_)
  rw [hy]
  have count : [BitVec.ofNat 32 slot, w].length = Builtin.storageStore.params.length := rfl
  exact (ask_follows links imported count rest stack (zeroed locals) state').bind
    fun _ state'' y hy => Follows.pure hy

theorem ifThen_follows {results : Nat} {cond : Expr} {yes no : List Stmt} {span : Span}
    (hc : WordFollows inst n (zeroed locals) (evalWord host calls locals cond)
      (exprCode layout cond))
    (hy : BlockFollows host layout inst results n calls locals yes)
    (hn : BlockFollows host layout inst results n calls locals no) :
    StmtFollows host layout inst results n calls locals (.ifThen cond yes no span) := by
  intro rest stack state
  rw [evalStmt, stmtCode, List.append_assoc]
  refine (hc _ stack state).bind fun w state' y same => ?_
  rw [same]
  dsimp only [List.cons_append, List.nil_append]
  rw [inst.run_ifElse]
  by_cases zero : w = 0
  · rw [if_pos zero, if_pos zero]
    exact block_in_branch_follows hn rest stack state'
  · rw [if_neg zero, if_neg zero]
    exact block_in_branch_follows hy rest stack state'

/-- The code of a loop leaves the block around it behind. -/
theorem whileDo_follows {results : Nat} {cond : Expr} {body : List Stmt} {span : Span}
    (loop : ∀ state, Follows n (Lang.Flow.loop (fun locals => evalWord host calls locals cond)
        (fun locals => evalStmts host calls n locals body) n locals) state
      (inst.run [.loop (roundCode layout cond body)] ⟨[], zeroed locals⟩ state)
      (looping results)) :
    StmtFollows host layout inst results n calls locals (.whileDo cond body span) := by
  intro rest stack state
  rw [evalStmt, stmtCode, List.cons_append, List.nil_append, inst.run_block]
  refine Follows.weaken ((loop state).within_self (inst.passes_afterBlock rest stack) ?_)
    (Nat.le_succ n)
  intro flow state' y hy
  cases flow with
  | next locals' =>
      obtain ⟨act, same, rfl⟩ := hy
      refine ⟨_, rfl, ?_⟩
      rw [leaving, ← same]
      rfl
  | returned value? =>
      obtain ⟨act, value, rfl⟩ := hy
      exact ⟨_, rfl, act, value, rfl⟩

theorem returns_follows {value : Expr} {span : Span} (has : value.type.hasValue)
    (hv : ExprFollows host layout inst n calls locals value)
    (keeps : Keeps (fun _ => True) (Fits Any value.type) (evalExpr host calls locals value)) :
    StmtFollows host layout inst (words value.type) n calls locals
      (.returns (some value) span) := by
  intro rest stack state
  rw [evalStmt, stmtCode, List.append_assoc]
  refine ((hv _ stack state).keeping keeps).bind fun value? state' y hy => ?_
  obtain ⟨fits, rfl⟩ := hy
  obtain ⟨w, rfl, -⟩ := fits.exists_of_hasValue has
  refine Follows.of_leads leads_ret (Follows.pure ⟨_, ?_, rfl⟩)
  rw [words, if_pos has]
  rfl

/-- A requirement traps inside a branch that is otherwise empty. -/
theorem require_follows {results : Nat} {cond : Expr} {span : Span}
    (hc : WordFollows inst n (zeroed locals) (evalWord host calls locals cond)
      (exprCode layout cond)) :
    StmtFollows host layout inst results n calls locals (.require cond span) := by
  intro rest stack state
  have code : stmtCode layout (.require cond span) ++ rest =
      exprCode layout cond ++ .eqz :: .ifElse 0 [.unreachable] [] :: rest := by
    simp
  rw [evalStmt, code]
  refine (hc _ stack state).bind fun w state' y hy => ?_
  rw [hy]
  refine Follows.of_leads leads_eqz ?_
  rw [inst.run_ifElse]
  by_cases zero : w = 0
  · rw [if_pos zero, if_neg (by rw [ofBool_eq_zero]; exact fun h => h zero)]
    exact Follows.trapped (Run.leads_within (inst.passes_afterBranch rest stack 0)
      leads_unreachable) (by decide)
  · rw [if_neg zero, if_pos ((ofBool_eq_zero w).2 zero), inst.run_nil]
    exact Follows.of_leads (Run.leads_within (inst.passes_afterBranch rest stack 0)
      (Run.Leads.refl _)) (Follows.pure rfl)

theorem eval_follows {results : Nat} {value : Expr} {span : Span}
    (hv : ExprFollows host layout inst n calls locals value)
    (keeps : Keeps (fun _ => True) (Fits Any value.type) (evalExpr host calls locals value)) :
    StmtFollows host layout inst results n calls locals (.eval value span) := by
  intro rest stack state
  rw [evalStmt, stmtCode, List.append_assoc]
  refine ((hv _ stack state).keeping keeps).bind fun value? state' y hy => ?_
  obtain ⟨fits, rfl⟩ := hy
  rw [← fits.isSome_eq]
  cases value? with
  | none => exact Follows.pure rfl
  | some w => exact Follows.of_leads leads_drop (Follows.pure rfl)

/-! ### Statements -/

theorem block_follows_of_forall {results : Nat} {body : List Stmt}
    (each : ∀ s ∈ body, ∀ live locals, Holds Any (c.context f) live locals →
      s.Typed (c.context f) live → CoversStmt layout s →
      StmtFollows host layout inst results n calls locals s)
    (keeps : ∀ (s : Stmt) live locals, Holds Any (c.context f) live locals →
      s.Typed (c.context f) live →
      Keeps (fun _ => True) (FlowFits Any (c.context f) (s.declares ++ live) s.diverges)
        (evalStmt host calls n locals s))
    {live : List Nat} {locals : Locals} (holds : Holds Any (c.context f) live locals)
    (typed : StmtsTyped (c.context f) live body) (covers : CoversBlock layout body) :
    BlockFollows host layout inst results n calls locals body := by
  intro rest stack state
  induction body generalizing live locals stack state with
  | nil => exact Follows.pure rfl
  | cons s body ih =>
      obtain ⟨first, others⟩ := List.forall_mem_cons.1 each
      obtain ⟨coversFirst, coversOthers⟩ := covers.cons
      rw [blockCode, List.append_assoc, evalStmts]
      refine ((first live locals holds typed.1 coversFirst _ stack state).keeping
        (keeps s live locals holds typed.1)).bind fun flow state' y hy => ?_
      obtain ⟨fits, hy⟩ := hy
      cases flow with
      | next locals' =>
          rw [show y = _ from hy]
          exact ih others fits.2 typed.2 coversOthers stack state'
      | returned value? => exact Follows.pure hy

/-- The code of a typed statement follows its evaluation. -/
theorem stmt_follows (links : Links c host layout inst)
    (callsKeep : CallsKeep Any (fun _ => True) (c.context f).signatures calls)
    (callsFollow : CallsFollow c layout inst n calls) {s : Stmt} :
    ∀ live locals, Holds Any (c.context f) live locals → s.Typed (c.context f) live →
      CoversStmt layout s → StmtFollows host layout inst (words f.result) n calls locals s := by
  have expr {live : List Nat} {locals : Locals} (holds : Holds Any (c.context f) live locals)
      {e : Expr} (typed : e.Typed (c.context f) live) (covers : Covers layout e) :
      ExprFollows host layout inst n calls locals e :=
    expr_follows links callsKeep callsFollow holds typed covers
  have word {live : List Nat} {locals : Locals} (holds : Holds Any (c.context f) live locals)
      {e : Expr} (typed : e.Typed (c.context f) live) (covers : Covers layout e) :
      WordFollows inst n (zeroed locals) (evalWord host calls locals e) (exprCode layout e) :=
    word_follows (expr holds typed covers)
  have keeps {live : List Nat} {locals : Locals} (holds : Holds Any (c.context f) live locals)
      {e : Expr} (typed : e.Typed (c.context f) live) :
      Keeps (fun _ => True) (Fits Any e.type) (evalExpr host calls locals e) :=
    evalExpr_keeps any_admits (any_hostKeeps (c.context f).storage host) callsKeep holds typed
  have block {live : List Nat} {locals : Locals} {body : List Stmt}
      (ih : ∀ s ∈ body, ∀ live locals, Holds Any (c.context f) live locals →
        s.Typed (c.context f) live → CoversStmt layout s →
        StmtFollows host layout inst (words f.result) n calls locals s)
      (holds : Holds Any (c.context f) live locals) (typed : StmtsTyped (c.context f) live body)
      (covers : CoversBlock layout body) :
      BlockFollows host layout inst (words f.result) n calls locals body :=
    block_follows_of_forall ih (fun _ => evalStmt_keeps any_admits
      (any_hostKeeps (c.context f).storage host) callsKeep) holds typed covers
  induction s with
  | letIn index value span | set index value span =>
      intro live locals holds typed covers rest stack state
      have bound : index < (zeroed locals).length := by
        rw [length_zeroed, holds.length]
        exact (List.getElem?_eq_some_iff.1 typed.2.1).1
      rw [evalStmt, stmtCode, List.append_assoc]
      refine (word holds typed.1 covers _ stack state).bind fun w state' y hy => ?_
      rw [hy]
      refine Follows.of_leads (leads_localSet bound) (Follows.pure ?_)
      rw [← zeroed_set]
      rfl
  | store slot value span =>
      intro live locals holds typed covers
      exact store_follows links (covers _ List.mem_cons_self)
        (word holds typed.1 fun kind needed => covers kind (List.mem_cons_of_mem _ needed))
  | ifThen cond yes no span ihy ihn =>
      intro live locals holds typed covers
      obtain ⟨coversCond, coversYes, coversNo⟩ := covers.ifThen
      exact ifThen_follows (word holds typed.1.1 coversCond)
        (block ihy holds typed.2.1 coversYes) (block ihn holds typed.2.2 coversNo)
  | whileDo cond body span ih =>
      intro live locals holds typed covers
      obtain ⟨coversCond, coversBody⟩ := covers.whileDo
      refine whileDo_follows (loop_follows (fun locals holds => word holds typed.1.1 coversCond)
        (fun locals holds => block ih holds typed.2 coversBody) (fun locals holds => ?cond)
        (fun locals holds => ?body) n (Nat.le_refl n) holds)
      case cond =>
        refine (evalWord_keeps any_admits (any_hostKeeps _ host) callsKeep holds typed.1.1 ?_).weaken
          fun _ _ => trivial
        rw [typed.1.2]
        rfl
      case body =>
        exact Lowered.nested_keeps (by rintro ⟨⟩)
          (evalStmts_keeps any_admits (any_hostKeeps _ host) callsKeep holds typed.2)
  | returns value span =>
      intro live locals holds typed covers
      cases value with
      | none =>
          intro rest stack state
          have unit : f.result = .unit := typed
          refine Follows.of_leads leads_ret (Follows.pure ⟨_, ?_, rfl⟩)
          rw [unit]
          rfl
      | some value =>
          have same : value.type = f.result := typed.1.2
          have has : f.result.hasValue := typed.2
          rw [← same] at has ⊢
          exact returns_follows has (expr holds typed.1.1 covers) (keeps holds typed.1.1)
  | require cond span =>
      intro live locals holds typed covers
      exact require_follows (word holds typed.1 covers)
  | eval value span =>
      intro live locals holds typed covers
      exact eval_follows (expr holds typed covers) (keeps holds typed)

/-- The code of typed statements follows their evaluation. -/
theorem block_follows (links : Links c host layout inst)
    (callsKeep : CallsKeep Any (fun _ => True) (c.context f).signatures calls)
    (callsFollow : CallsFollow c layout inst n calls) {body : List Stmt}
    (holds : Holds Any (c.context f) live locals) (typed : StmtsTyped (c.context f) live body)
    (covers : CoversBlock layout body) :
    BlockFollows host layout inst (words f.result) n calls locals body :=
  block_follows_of_forall (fun _ _ => stmt_follows links callsKeep callsFollow)
    (fun _ => evalStmt_keeps any_admits (any_hostKeeps (c.context f).storage host) callsKeep) holds
    typed covers

/-! ### Functions -/

/-- The code of a function ends or returns with its results. -/
def finishing (results : Nat) : Expected State (Option Word) :=
  fun value? state y => ∃ act, act.stack.take results = value?.toList ∧
    (y = halted (.next act state) ∨ y = halted (.returned act state))

/-- The activation of a function starts with its locals. -/
theorem entry_eq (table : List Wasm.FuncType) (f : Function) (args : List Word) :
    Instance.entry (functionEntry layout table f) args = ⟨[], zeroed (f.entry args)⟩ := by
  simp [Instance.entry, functionEntry, zeroed, Function.entry, Function.comp_def]

/-- The code of a typed function follows its evaluation. -/
theorem function_follows (links : Links c host layout inst) (typed : c.TypedFunction f)
    (callsKeep : CallsKeep Any (fun _ => True) (c.context f).signatures calls)
    (callsFollow : CallsFollow c layout inst n calls) (covers : CoversBlock layout f.body)
    {args : List Word} (count : args.length = f.paramCount) (state : State) :
    Follows n (f.eval host calls n args) state
      (inst.run (functionCode layout f) ⟨[], zeroed (f.entry args)⟩ state)
      (finishing (words f.result)) := by
  have fit : Lowered.ArgsFit Any f.signature.params args :=
    ⟨count.trans (Lowered.Function.length_signature typed).symm, fun _ _ _ _ _ => trivial⟩
  have body := block_follows links callsKeep callsFollow (Lowered.entry_holds typed fit) typed.body
    covers (if f.result.hasValue then [.unreachable] else []) [] state
  unfold Lowered.Function.eval
  rw [if_neg (fun h => h count)]
  refine body.bind fun flow state' y hy => ?_
  cases flow with
  | next locals =>
      cases has : f.result.hasValue with
      | true => exact Follows.stuck
      | false =>
          refine Follows.pure ⟨⟨[], zeroed locals⟩, List.take_nil, .inl ?_⟩
          rw [show y = _ from hy, has]
          exact inst.run_nil _ _
  | returned value? =>
      obtain ⟨act, value, rfl⟩ := hy
      rcases value? with _ | w <;> cases f.result.hasValue
      · exact Follows.pure ⟨act, value, .inr rfl⟩
      · exact Follows.stuck
      · exact Follows.stuck
      · exact Follows.pure ⟨act, value, .inr rfl⟩

end

/-- Calls of a typed contract are followed by the code for them. -/
theorem calls_follow {State : Type} {c : Contract} {host : Host State} {layout : Layout}
    {inst : Instance State} (links : Links c host layout inst) (typed : c.Typed)
    (covers : ∀ f ∈ c.functions, CoversBlock layout f.body) (fuel : Nat) :
    CallsFollow c layout inst fuel (c.call host fuel) := by
  induction fuel with
  | zero =>
      intro function sig args declared count rest stack locals state
      exact Follows.outOfFuel (stalls_zero _ _ _ _)
  | succ fuel ih =>
      intro function sig args declared count rest stack locals state
      rw [List.getElem?_map, Option.map_eq_some_iff] at declared
      obtain ⟨f, found, rfl⟩ := declared
      have mem := List.mem_of_getElem? found
      have typedf := typed f mem
      have count : args.length = f.paramCount :=
        count.trans (Lowered.Function.length_signature typedf)
      obtain ⟨table, func⟩ := links.function function f found
      have follows := function_follows links typedf
        (Lowered.call_keeps any_admits typed (any_hostKeeps _ host) fuel) ih (covers f mem) count state
      rw [Contract.call, found, inst.run_call rest stack (links.noHost function) func
        (count.trans (params_functionType typedf).symm) locals state, entry_eq]
      refine follows.within_self (inst.passes_afterCall rest stack (words f.result) locals) ?_
      intro value? state' y hy
      obtain ⟨act, value, rfl | rfl⟩ := hy
      · exact ⟨_, rfl, congrArg (fun words => inst.run rest ⟨words ++ stack, locals⟩ state') value⟩
      · exact ⟨_, rfl, congrArg (fun words => inst.run rest ⟨words ++ stack, locals⟩ state') value⟩

end Workbench.Codegen
