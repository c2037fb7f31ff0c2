import Workbench.Proofs.Codegen.Following
import Workbench.Proofs.Codegen.Linked
import Workbench.Proofs.Lowered.Soundness

/-!
# The code of expressions

The code of an expression follows its evaluation: it leaves the value on the stack and goes on with
what is behind it. This holds for whatever code follows and whatever lies below on the stack, which
is what lets the induction go through operands and arguments. Locals without a value are zero in a
run, so the locals of a run are a function of those of an evaluation.

What calls do is assumed here. It is shown where functions are.
-/

namespace Workbench.Codegen

open Source (Span)
open Lang (Ty UnaryOp BinaryOp Builtin Word Host Eval)
open Lang.Eval (Keeps)
open Lowered (Expr Function Contract Locals Calls Signature ArgsTyped Holds ArgsFit CallsKeep
  evalExpr evalArgs evalWord any_admits any_hostKeeps evalExpr_keeps)
open Wasm (Instr NumOp Instance Run)
open Wasm.Run (within)
open Wasm.Instance (leads_const leads_num leads_localGet leads_eqz leads_host)

/-- Every word counts as a value here. -/
abbrev Any : Ty → Word → Prop := fun _ _ => True

/-- The locals of a run: those without a value are zero. -/
def zeroed (locals : Locals) : List Word :=
  locals.map fun value? => value?.getD 0

theorem getElem?_zeroed {locals : Locals} {index : Nat} {w : Word}
    (h : locals[index]?.join = some w) : (zeroed locals)[index]? = some w := by
  rw [Option.join_eq_some_iff] at h
  rw [zeroed, List.getElem?_map, h]
  rfl

/-! ### What code is expected to do -/

section

variable {State : Type}

/-- Code goes on with words on the stack, and with the locals as they are. -/
def pushing {α : Type} (inst : Instance State) (rest : List Instr) (stack locals : List Word)
    (words : α → List Word) : Expected State α :=
  fun a state y => y = inst.run rest ⟨words a ++ stack, locals⟩ state

end

section

variable {State : Type} {host : Host State} {c : Contract} {layout : Layout}
  {inst : Instance State} {n : Nat} {calls : Calls State} {f : Function} {live : List Nat}
  {locals : Locals} {rest : List Instr} {stack : List Word} {state : State}

/-- Calls of functions of the contract are followed by the code for them. -/
def CallsFollow (c : Contract) (layout : Layout) (inst : Instance State) (n : Nat)
    (calls : Calls State) : Prop :=
  ∀ (function : Nat) (sig : Signature) (args : List Word),
    (c.functions.map (·.signature))[function]? = some sig → args.length = sig.params.length →
    ∀ (rest : List Instr) (stack locals : List Word) (state : State),
      Follows n (calls function args) state
        (inst.run (.call (layout.functionIndex function) :: rest) ⟨args.reverse ++ stack, locals⟩
          state)
        (pushing inst rest stack locals Option.toList)

/-- The code of an expression leaves its value, wherever it stands. -/
def ExprFollows (host : Host State) (layout : Layout) (inst : Instance State) (n : Nat)
    (calls : Calls State) (locals : Locals) (e : Expr) : Prop :=
  ∀ (rest : List Instr) (stack : List Word) (state : State),
    Follows n (evalExpr host calls locals e) state
      (inst.run (exprCode layout e ++ rest) ⟨stack, zeroed locals⟩ state)
      (pushing inst rest stack (zeroed locals) Option.toList)

/-! ### Requests -/

/-- A request to the host is the call of an import. -/
theorem ask_follows (links : Links c host layout inst) {kind : Builtin}
    (imported : kind ∈ layout.imports) {args : List Word} (count : args.length = kind.params.length)
    (rest : List Instr) (stack locals : List Word) (state : State) :
    Follows n (Eval.ask host kind args) state
      (inst.run (.call (layout.importIndex kind) :: rest) ⟨args.reverse ++ stack, locals⟩ state)
      (pushing inst rest stack locals fun answer =>
        if kind.result.hasValue then [answer] else []) := by
  have leads := leads_host (links.host kind imported)
    (count.trans (params_builtinType kind).symm) rest stack locals state
  unfold Follows
  rw [Eval.outcome_ask]
  simp only [hostFunction] at leads
  rcases hr : host.serve ⟨kind, args⟩ state with ⟨_ | answer, state'⟩
  · rw [hr] at leads
    exact ⟨.host, by decide, leads⟩
  · rw [hr] at leads
    refine ⟨_, ?_, leads⟩
    unfold pushing
    dsimp only
    split <;> rfl

/-! ### Words -/

/-- Code that leaves the word of an evaluation, wherever it stands. -/
def WordFollows (inst : Instance State) (n : Nat) (locals : List Word) (x : Eval State Word)
    (code : List Instr) : Prop :=
  ∀ (rest : List Instr) (stack : List Word) (state : State),
    Follows n x state (inst.run (code ++ rest) ⟨stack, locals⟩ state)
      (pushing inst rest stack locals fun w => [w])

/-- A value that is there is a word on the stack. -/
theorem word_follows {e : Expr} (h : ExprFollows host layout inst n calls locals e) :
    WordFollows inst n (zeroed locals) (evalWord host calls locals e) (exprCode layout e) := by
  intro rest stack state
  refine (h rest stack state).bind fun value? state' y hy => Follows.needed fun w same => ?_
  rw [hy, same]
  rfl

/-- An instruction gives the value of its operator, or traps where that has none. -/
theorem apply_numOp {op : BinaryOp} {num : NumOp} (h : numOp? op = some num) (a b : Word) :
    (∃ w, op.combine? a b = some w ∧ num.apply a b = .ok w) ∨
      (op.combine? a b = none ∧ ∃ trap, trap ≠ .stackExhausted ∧ num.apply a b = .error trap) := by
  cases op <;> simp only [numOp?, Option.some.injEq, reduceCtorEq] at h
  case div =>
    subst h
    simp only [BinaryOp.combine?, NumOp.apply, Wasm.quotient]
    cases Word.quotient? a b with
    | some w => exact .inl ⟨w, rfl, rfl⟩
    | none =>
        refine .inr ⟨rfl, _, ?_, rfl⟩
        split <;> decide
  case rem =>
    subst h
    simp only [BinaryOp.combine?, NumOp.apply, Wasm.remainder]
    cases Word.remainder? a b with
    | some w => exact .inl ⟨w, rfl, rfl⟩
    | none => exact .inr ⟨rfl, _, by decide, rfl⟩
  all_goals
    subst h
    exact .inl ⟨_, rfl, rfl⟩

theorem num_follows {op : BinaryOp} {num : NumOp} (h : numOp? op = some num) (a b : Word)
    (rest : List Instr) (stack locals : List Word) (state : State) :
    Follows n (Eval.orTrap (op.combine? a b)) state
      (inst.run (.num num :: rest) ⟨b :: a :: stack, locals⟩ state)
      (pushing inst rest stack locals fun w => [w]) := by
  refine Follows.of_leads leads_num ?_
  rcases apply_numOp h a b with ⟨w, value, applied⟩ | ⟨value, trap, notExhausted, applied⟩
  · rw [value, applied]
    exact Follows.pure rfl
  · rw [value, applied]
    exact Follows.trapped (Run.Leads.refl _) notExhausted

theorem settled?_of_numOp {op : BinaryOp} {num : NumOp} (h : numOp? op = some num) (a : Word) :
    op.settled? a = none := by
  cases op <;> first | rfl | contradiction

section

variable {op : BinaryOp} {lhs rhs : Eval State Word} {lhsCode rhsCode : List Instr}
  {locals : List Word}

/-- An operator whose operands are both evaluated in any case. -/
theorem numeric_follows {num : NumOp} (h : numOp? op = some num)
    (hl : WordFollows inst n locals lhs lhsCode) (hr : WordFollows inst n locals rhs rhsCode) :
    WordFollows inst n locals (op.evaluate lhs rhs) (binaryCode op lhsCode rhsCode) := by
  intro rest stack state
  rw [binaryCode_of_numOp h, List.append_assoc, List.append_assoc]
  refine (hl _ stack state).bind fun a state' y hy => ?_
  rw [settled?_of_numOp h a, hy]
  refine (hr _ (a :: stack) state').bind fun b state'' y hy => ?_
  rw [hy]
  exact num_follows h a b rest stack locals state''

/-- A branch that leaves a word leaves it for the code behind the conditional. -/
theorem branch_follows {x : Eval State Word} {code : List Instr}
    (h : WordFollows inst n locals x code) (rest : List Instr) (stack : List Word)
    (state : State) :
    Follows n x state
      (within state 0 (inst.run code ⟨[], locals⟩ state) (inst.afterBranch rest stack 1))
      (pushing inst rest stack locals fun w => [w]) := by
  have inner := h [] [] state
  rw [List.append_nil] at inner
  refine Follows.weaken (inner.within_self (inst.passes_afterBranch rest stack 1) ?_)
    (Nat.le_succ n)
  intro w state' y hy
  refine ⟨.next ⟨[w], locals⟩ state', ?_, rfl⟩
  rw [hy]
  exact inst.run_nil _ _

theorem const_follows (w : Word) : WordFollows inst n locals (pure w) [.const w] :=
  fun _ _ _ => Follows.of_leads leads_const (Follows.pure rfl)

/-- A conditional leaves the word of one of its branches. -/
theorem ifElse_follows {cond yes no : Eval State Word} {condCode yesCode noCode : List Instr}
    (hc : WordFollows inst n locals cond condCode) (hy : WordFollows inst n locals yes yesCode)
    (hn : WordFollows inst n locals no noCode) :
    WordFollows inst n locals (cond >>= fun a => if a = 0 then no else yes)
      (condCode ++ [.ifElse 1 yesCode noCode]) := by
  intro rest stack state
  rw [List.append_assoc]
  refine (hc _ stack state).bind fun a state' y hy' => ?_
  rw [hy']
  dsimp only [List.cons_append, List.nil_append]
  rw [inst.run_ifElse]
  by_cases zero : a = 0
  · rw [if_pos zero, if_pos zero]
    exact branch_follows hn rest stack state'
  · rw [if_neg zero, if_neg zero]
    exact branch_follows hy rest stack state'

theorem and_follows (hl : WordFollows inst n locals lhs lhsCode)
    (hr : WordFollows inst n locals rhs rhsCode) :
    WordFollows inst n locals (BinaryOp.and.evaluate lhs rhs)
      (binaryCode .and lhsCode rhsCode) := by
  have same : BinaryOp.and.evaluate lhs rhs =
      lhs >>= fun a => if a = 0 then pure 0 else rhs := by
    refine congrArg (lhs >>= ·) (funext fun a => ?_)
    by_cases zero : a = 0
    · rw [BinaryOp.settled?, if_pos zero, if_pos zero]
    · rw [BinaryOp.settled?, if_neg zero, if_neg zero]
      exact bind_pure rhs
  rw [same]
  exact ifElse_follows hl hr (const_follows 0)

theorem or_follows (hl : WordFollows inst n locals lhs lhsCode)
    (hr : WordFollows inst n locals rhs rhsCode) :
    WordFollows inst n locals (BinaryOp.or.evaluate lhs rhs) (binaryCode .or lhsCode rhsCode) := by
  have same : BinaryOp.or.evaluate lhs rhs =
      lhs >>= fun a => if a = 0 then rhs else pure 1 := by
    refine congrArg (lhs >>= ·) (funext fun a => ?_)
    by_cases zero : a = 0
    · rw [BinaryOp.settled?, if_pos zero, if_pos zero]
      exact bind_pure rhs
    · rw [BinaryOp.settled?, if_neg zero, if_neg zero]
  rw [same]
  exact ifElse_follows hl (const_follows 1) hr

/-- The code of an operator follows it if the codes of its operands do. -/
theorem binary_follows (op : BinaryOp) (hl : WordFollows inst n locals lhs lhsCode)
    (hr : WordFollows inst n locals rhs rhsCode) :
    WordFollows inst n locals (op.evaluate lhs rhs) (binaryCode op lhsCode rhsCode) := by
  cases h : numOp? op with
  | some num => exact numeric_follows h hl hr
  | none =>
      cases op with
      | and => exact and_follows hl hr
      | or => exact or_follows hl hr
      | _ => contradiction

end

/-! ### Expressions -/

theorem exprs_follow {args : List Expr}
    (each : ∀ a ∈ args, ExprFollows host layout inst n calls locals a)
    (rest : List Instr) (stack : List Word) (state : State) :
    Follows n (evalArgs host calls locals args) state
      (inst.run (exprsCode layout args ++ rest) ⟨stack, zeroed locals⟩ state)
      (pushing inst rest stack (zeroed locals) List.reverse) := by
  induction args generalizing stack state with
  | nil => exact Follows.pure rfl
  | cons e es ih =>
      obtain ⟨first, others⟩ := List.forall_mem_cons.1 each
      rw [exprsCode, List.append_assoc, evalArgs, ← bind_assoc]
      refine (word_follows first _ stack state).bind fun w state' y hy => ?_
      rw [hy]
      refine (ih others (w :: stack) state').bind fun ws state'' y hy => Follows.pure ?_
      rw [hy]
      simp [pushing]

/-! ### Forms of expressions -/

attribute [local simp] exprCode pushing

theorem slot_follows (links : Links c host layout inst) {index : Nat} {type : Ty}
    {span : Span} (imported : Builtin.storageLoad ∈ layout.imports) :
    ExprFollows host layout inst n calls locals (.slot index type span) := by
  intro rest stack state
  have count : [BitVec.ofNat 32 index].length = Builtin.storageLoad.params.length := rfl
  rw [evalExpr, Eval.map_eq_bind, exprCode]
  refine Follows.of_leads leads_const ?_
  refine (ask_follows links imported count rest stack (zeroed locals) state).bind
    fun w state' y hy => Follows.pure ?_
  rw [hy]
  rfl

theorem unary_follows (op : UnaryOp) {operand : Expr} {span : Span}
    (h : WordFollows inst n (zeroed locals) (evalWord host calls locals operand)
      (exprCode layout operand)) :
    ExprFollows host layout inst n calls locals (.unary op operand span) := by
  intro rest stack state
  rw [Lowered.evalExpr_unary]
  cases op with
  | neg =>
      rw [exprCode, List.cons_append, List.append_assoc]
      refine Follows.of_leads leads_const ?_
      refine (h _ (0 :: stack) state).bind fun w state' y hy => ?_
      rw [hy]
      refine Follows.of_leads leads_num (Follows.pure ?_)
      simp [NumOp.apply, Lang.UnaryOp.apply]
  | not =>
      rw [exprCode, List.append_assoc]
      refine (h _ stack state).bind fun w state' y hy => ?_
      rw [hy]
      exact Follows.of_leads leads_eqz (Follows.pure rfl)

/-- An instruction shifts by the amount modulo the length of a word. -/
theorem shl_follows {value : Expr} {amount : Nat} {span : Span} (small : amount < 32)
    (h : WordFollows inst n (zeroed locals) (evalWord host calls locals value)
      (exprCode layout value)) :
    ExprFollows host layout inst n calls locals (.shl value amount span) := by
  intro rest stack state
  rw [Lowered.evalExpr_shl, exprCode, List.append_assoc]
  refine (h _ stack state).bind fun w state' y hy => ?_
  rw [hy]
  refine Follows.of_leads leads_const (Follows.of_leads leads_num (Follows.pure ?_))
  have amount_eq : amount % 2 ^ 32 % 32 = amount := by omega
  rw [pushing, NumOp.apply, BitVec.toNat_ofNat, amount_eq]
  rfl

theorem call_follows (callsFollow : CallsFollow c layout inst n calls) {function : Nat}
    {args : List Expr} {result : Ty} {span : Span} {sig : Signature}
    (declared : (c.functions.map (·.signature))[function]? = some sig)
    (each : ∀ a ∈ args, ExprFollows host layout inst n calls locals a)
    (keeps : Keeps (fun _ => True) (ArgsFit Any sig.params) (evalArgs host calls locals args)) :
    ExprFollows host layout inst n calls locals (.call function args result span) := by
  intro rest stack state
  rw [evalExpr, exprCode, List.append_assoc]
  refine ((exprs_follow each _ stack state).keeping keeps).bind fun ws state' y hy => ?_
  obtain ⟨fit, hy⟩ := hy
  rw [hy]
  exact callsFollow function sig ws declared fit.1 rest stack (zeroed locals) state'

theorem builtin_follows (links : Links c host layout inst) {kind : Builtin} {args : List Expr}
    {span : Span} (imported : kind ∈ layout.imports)
    (each : ∀ a ∈ args, ExprFollows host layout inst n calls locals a)
    (keeps : Keeps (fun _ => True) (ArgsFit Any kind.params) (evalArgs host calls locals args)) :
    ExprFollows host layout inst n calls locals (.builtin kind args span) := by
  intro rest stack state
  rw [evalExpr, exprCode, List.append_assoc]
  refine ((exprs_follow each _ stack state).keeping keeps).bind fun ws state' y hy => ?_
  obtain ⟨fit, hy⟩ := hy
  rw [hy]
  refine (ask_follows links imported fit.1 rest stack (zeroed locals) state').bind
    fun answer state'' y hy => Follows.pure ?_
  rw [hy]
  unfold pushing
  split <;> rfl

/-- The code of a typed expression follows its evaluation. -/
theorem expr_follows (links : Links c host layout inst)
    (callsKeep : CallsKeep Any (fun _ => True) (c.context f).signatures calls)
    (callsFollow : CallsFollow c layout inst n calls)
    (holds : Holds Any (c.context f) live locals) {e : Expr} (typed : e.Typed (c.context f) live)
    (covers : Covers layout e) : ExprFollows host layout inst n calls locals e := by
  have argsKeep {args : List Expr} {params : List Ty}
      (typed : ArgsTyped (c.context f) live args params) :
      Keeps (fun _ => True) (ArgsFit Any params) (evalArgs host calls locals args) :=
    Lowered.evalArgs_keeps (fun _ _ => evalExpr_keeps any_admits
      (any_hostKeeps (c.context f).storage host) callsKeep holds) typed
  induction e with
  | int value span =>
      intro rest stack state
      exact Follows.of_leads leads_const (Follows.pure rfl)
  | bool value span =>
      intro rest stack state
      exact Follows.of_leads leads_const (Follows.pure rfl)
  | var index type span =>
      intro rest stack state
      rw [evalExpr, exprCode]
      cases value : locals[index]?.join with
      | none => exact Follows.stuck
      | some w =>
          exact Follows.of_leads (leads_localGet (getElem?_zeroed value)) (Follows.pure rfl)
  | slot index type span => exact slot_follows links (covers.self rfl)
  | unary op operand span ih =>
      exact unary_follows op
        (word_follows (ih typed.1 (covers.of_nodes (by simp [Expr.nodes]))))
  | binary op lhs rhs span ihl ihr =>
      intro rest stack state
      have hl := word_follows (ihl typed.1 (covers.of_nodes (by simp [Expr.nodes])))
      have hr := word_follows (ihr typed.2.1 (covers.of_nodes (by simp [Expr.nodes])))
      rw [Lowered.evalExpr_binary, exprCode]
      exact (binary_follows op hl hr rest stack state).bind fun w state' y hy => Follows.pure hy
  | shl value amount span ih =>
      exact shl_follows typed.2.2
        (word_follows (ih typed.1 (covers.of_nodes (by simp [Expr.nodes]))))
  | call function args result span ih =>
      obtain ⟨params, declared, argsTyped⟩ := typed
      exact call_follows callsFollow declared (fun a ha => ih a ha (argsTyped.typed_of_mem a ha)
        (covers.of_nodes fun _ h => by simp [Expr.nodes, nodes_subset_nodesOfList ha h]))
        (argsKeep argsTyped)
  | builtin kind args span ih =>
      exact builtin_follows links (covers.self rfl) (fun a ha =>
        ih a ha (typed.2.typed_of_mem a ha)
          (covers.of_nodes fun _ h => by simp [Expr.nodes, nodes_subset_nodesOfList ha h]))
        (argsKeep typed.2)

end

end Workbench.Codegen
