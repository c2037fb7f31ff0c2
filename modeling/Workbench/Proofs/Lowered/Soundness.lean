import Workbench.Lowered.Evaluation
import Workbench.Proofs.Lang.Outcome
import Workbench.Proofs.Lowered.Typing

/-!
# Typed contracts are never stuck

Evaluation keeps what typing promises. Which words count as values of a type is left open: a notion
`V` has to admit every word as a number and the two truth values, and what is asked of the host is
that it answers reads of storage with values and stays within an invariant when values are written.
With every word admitted this is freedom from being stuck for any host; with truth values confined
to zero and one it is what the optimizer relies on.
-/

namespace Workbench.Lowered

open Source (Span)
open Lang (Ty UnaryOp BinaryOp Builtin Word Host Eval Flow)
open Lang.Eval (Keeps)

/-! ### Values -/

/-- A notion of the values of a type admits all numbers and the two truth values. -/
structure Admits (V : Ty → Word → Prop) : Prop where
  int : ∀ w, V .i32 w
  truth : ∀ b, V .bool (Word.ofBool b)

/-- Every word is a number; truth values are zero and one. -/
def Proper : Ty → Word → Prop
  | .bool, w => w = 0 ∨ w = 1
  | _, _ => True

theorem proper_admits : Admits Proper :=
  ⟨fun _ => trivial, fun b => by cases b <;> simp [Proper, Lang.Word.ofBool]⟩

theorem any_admits : Admits fun _ _ => True :=
  ⟨fun _ => trivial, fun _ => trivial⟩

/-- A result is a value of a type, or there is none and the type says so. -/
def Fits (V : Ty → Word → Prop) (type : Ty) : Option Word → Prop
  | some w => type.hasValue ∧ V type w
  | none => type = .unit

/-- Arguments are values of the types of parameters. -/
def ArgsFit (V : Ty → Word → Prop) (params : List Ty) (args : List Word) : Prop :=
  args.length = params.length ∧
    ∀ (i : Nat) (type : Ty) (w : Word), params[i]? = some type → args[i]? = some w → V type w

/-- The listed variables have values of their types. -/
structure Holds (V : Ty → Word → Prop) (Γ : Context) (live : List Nat) (locals : Locals) :
    Prop where
  length : locals.length = Γ.locals.length
  value : ∀ i ∈ live, ∀ type, Γ.locals[i]? = some type → ∃ w, locals[i]? = some (some w) ∧ V type w

/-- Statements end with a result of the function's type, or behind their end with values in the
listed variables, which is excluded where control never gets. -/
def FlowFits (V : Ty → Word → Prop) (Γ : Context) (live : List Nat) (diverges : Bool) :
    Flow Locals → Prop
  | .next locals => diverges = false ∧ Holds V Γ live locals
  | .returned value => Fits V Γ.result value

/-- A host answers reads of storage with values, and its invariant survives every request that a
typed contract can make. -/
structure HostKeeps {State : Type} (V : Ty → Word → Prop) (Inv : State → Prop) (storage : List Ty)
    (host : Host State) : Prop where
  load : ∀ state index type, Inv state → storage[index]? = some type →
    Inv (host.serve ⟨.storageLoad, [BitVec.ofNat 32 index]⟩ state).2 ∧
      ∀ w, (host.serve ⟨.storageLoad, [BitVec.ofNat 32 index]⟩ state).1 = some w → V type w
  store : ∀ state index type w, Inv state → storage[index]? = some type → V type w →
    Inv (host.serve ⟨.storageStore, [BitVec.ofNat 32 index, w]⟩ state).2
  call : ∀ state kind args, Inv state → kind.callName?.isSome →
    Inv (host.serve ⟨kind, args⟩ state).2

/-- Calls give results of the types that they are declared with. -/
def CallsKeep {State : Type} (V : Ty → Word → Prop) (Inv : State → Prop)
    (signatures : List Signature) (calls : Calls State) : Prop :=
  ∀ function sig args, signatures[function]? = some sig → ArgsFit V sig.params args →
    Keeps Inv (Fits V sig.result) (calls function args)

theorem any_hostKeeps {State : Type} (storage : List Ty) (host : Host State) :
    HostKeeps (fun _ _ => True) (fun _ => True) storage host :=
  ⟨fun _ _ _ _ _ => ⟨trivial, fun _ _ => trivial⟩, fun _ _ _ _ _ _ _ => trivial,
    fun _ _ _ _ _ => trivial⟩

variable {V : Ty → Word → Prop}

theorem Fits.exists_of_hasValue {type : Ty} {value : Option Word} (h : Fits V type value)
    (has : type.hasValue) : ∃ w, value = some w ∧ V type w := by
  cases value with
  | none =>
      cases (h : type = .unit)
      exact absurd has (by decide)
  | some w => exact ⟨w, rfl, h.2⟩

theorem Fits.isSome_eq {type : Ty} {value : Option Word} (h : Fits V type value) :
    value.isSome = type.hasValue := by
  cases value with
  | none =>
      cases (h : type = .unit)
      rfl
  | some w => exact h.1.symm

theorem ArgsFit.nil : ArgsFit V [] [] :=
  ⟨rfl, fun _ _ _ h => nomatch h⟩

theorem ArgsFit.cons {type : Ty} {params : List Ty} {w : Word} {args : List Word} (hw : V type w)
    (h : ArgsFit V params args) : ArgsFit V (type :: params) (w :: args) := by
  refine ⟨by simp [h.1], ?_⟩
  intro i type' w' hp ha
  cases i with
  | zero =>
      simp only [List.getElem?_cons_zero, Option.some.injEq] at hp ha
      subst hp ha
      exact hw
  | succ i => exact h.2 i type' w' (by simpa using hp) (by simpa using ha)

theorem Holds.set {Γ : Context} {live : List Nat} {locals : Locals} (h : Holds V Γ live locals)
    {index : Nat} {type : Ty} {w : Word} (ht : Γ.locals[index]? = some type) (hw : V type w) :
    Holds V Γ (index :: live) (locals.set index (some w)) := by
  have bound : index < locals.length := by
    rw [h.length]
    exact (List.getElem?_eq_some_iff.1 ht).1
  refine ⟨by simpa using h.length, ?_⟩
  intro i hi type' ht'
  by_cases same : i = index
  · subst same
    rw [ht, Option.some.injEq] at ht'
    subst ht'
    exact ⟨w, by simp [bound], hw⟩
  · have known : i ∈ live := by simpa [same] using hi
    obtain ⟨w', hw', value⟩ := h.value i known type' ht'
    exact ⟨w', by rw [List.getElem?_set_ne (Ne.symm same), hw'], value⟩

theorem Holds.weaken {Γ : Context} {live live' : List Nat} {locals : Locals}
    (h : Holds V Γ live' locals) (sub : live ⊆ live') : Holds V Γ live locals :=
  ⟨h.length, fun i hi => h.value i (sub hi)⟩

theorem apply_admits (admits : Admits V) {op : UnaryOp} (w : Word) :
    V (unaryType op) (op.apply w) := by
  cases op with
  | neg => exact admits.int _
  | not => exact admits.truth _

/-- What an operator gives for values that do not trap is a value. -/
theorem combine?_admits (admits : Admits V) {op : BinaryOp} {left right : Ty}
    (operands : Operands op left right) {a b w : Word} (hb : V right b)
    (h : op.combine? a b = some w) : V (binaryType op) w := by
  cases op <;> simp only [BinaryOp.combine?, Option.some.injEq] at h
  case and | or =>
    obtain ⟨-, rfl⟩ := operands
    exact h ▸ hb
  case eq | ne | lt | le | gt | ge => exact h ▸ admits.truth _
  all_goals exact admits.int w

theorem settled?_admits (admits : Admits V) {op : BinaryOp} {a w : Word}
    (h : op.settled? a = some w) : V (binaryType op) w := by
  cases op <;> simp only [BinaryOp.settled?] at h
  case and =>
    split at h
    · exact Option.some.inj h ▸ admits.truth false
    · contradiction
  case or =>
    split at h
    · contradiction
    · exact Option.some.inj h ▸ admits.truth true
  all_goals contradiction

/-! ### Expressions -/

section

variable {State : Type} {Inv : State → Prop} {host : Host State} {calls : Calls State}
  {Γ : Context} {live : List Nat} {locals : Locals}

attribute [local simp] evalExpr evalWord

theorem evalExpr_unary (op : UnaryOp) (operand : Expr) (span : Span) :
    evalExpr host calls locals (.unary op operand span) =
      evalWord host calls locals operand >>= fun w => pure (some (op.apply w)) := by
  simp

theorem evalExpr_shl (value : Expr) (amount : Nat) (span : Span) :
    evalExpr host calls locals (.shl value amount span) =
      evalWord host calls locals value >>= fun w => pure (some (w <<< amount)) := by
  simp

theorem evalExpr_binary (op : BinaryOp) (lhs rhs : Expr) (span : Span) :
    evalExpr host calls locals (.binary op lhs rhs span) =
      op.evaluate (evalWord host calls locals lhs) (evalWord host calls locals rhs) >>=
        fun w => pure (some w) := by
  rw [evalExpr]
  rfl

theorem evalWord_unary (op : UnaryOp) (operand : Expr) (span : Span) :
    evalWord host calls locals (.unary op operand span) =
      evalWord host calls locals operand >>= fun w => pure (op.apply w) := by
  rw [evalWord, evalExpr_unary, bind_assoc]
  rfl

theorem evaluate_keeps (admits : Admits V) {op : BinaryOp} {left right : Ty}
    (operands : Operands op left right) {lhs rhs : Eval State Word} (hl : Keeps Inv (V left) lhs)
    (hr : Keeps Inv (V right) rhs) : Keeps Inv (V (binaryType op)) (op.evaluate lhs rhs) := by
  unfold Lang.BinaryOp.evaluate
  refine hl.bind fun a _ => ?_
  cases hs : op.settled? a with
  | some w => exact Keeps.pure (settled?_admits admits hs)
  | none => exact hr.bind fun b hb => Keeps.orTrap fun w hw => combine?_admits admits operands hb hw

theorem needed_keeps {type : Ty} {x : Eval State (Option Word)} (has : type.hasValue)
    (hx : Keeps Inv (Fits V type) x) :
    Keeps Inv (V type) (do Eval.needed (← x)) := by
  refine hx.bind fun value fits => ?_
  obtain ⟨w, rfl, hw⟩ := fits.exists_of_hasValue has
  exact Keeps.needed hw

theorem evalArgs_keeps {args : List Expr} {params : List Ty}
    (each : ∀ a ∈ args, a.Typed Γ live →
      Keeps Inv (Fits V a.type) (evalExpr host calls locals a))
    (typed : ArgsTyped Γ live args params) :
    Keeps Inv (ArgsFit V params) (evalArgs host calls locals args) := by
  induction typed using ArgsTyped.induction with
  | nil => exact Keeps.pure ArgsFit.nil
  | cons he has rest ih =>
      obtain ⟨first, others⟩ := List.forall_mem_cons.1 each
      rw [evalArgs]
      refine (first he).bind fun value fits => ?_
      obtain ⟨w, rfl, hw⟩ := fits.exists_of_hasValue has
      exact (Keeps.needed hw).bind fun w hw =>
        (ih others).bind fun ws hws => Keeps.pure (hws.cons hw)

/-- A typed expression has a value of its type. -/
theorem evalExpr_keeps (admits : Admits V) (hostKeeps : HostKeeps V Inv Γ.storage host)
    (callsKeep : CallsKeep V Inv Γ.signatures calls) (holds : Holds V Γ live locals) {e : Expr}
    (typed : e.Typed Γ live) : Keeps Inv (Fits V e.type) (evalExpr host calls locals e) := by
  induction e with
  | int value span => exact Keeps.pure ⟨rfl, admits.int _⟩
  | bool value span => exact Keeps.pure ⟨rfl, admits.truth _⟩
  | var index type span =>
      obtain ⟨known, declared, has⟩ := typed
      obtain ⟨w, stored, hw⟩ := holds.value index known type declared
      rw [evalExpr, stored]
      exact (Keeps.needed hw).bind fun w hw => Keeps.pure ⟨has, hw⟩
  | slot index type span =>
      rw [evalExpr, Eval.map_eq_bind]
      exact (Keeps.ask fun state inv => hostKeeps.load state index type inv typed.1).bind
        fun w hw => Keeps.pure ⟨typed.2, hw⟩
  | unary op operand span ih =>
      rw [evalExpr]
      refine (ih typed.1).bind fun value fits => ?_
      obtain ⟨w, rfl, hw⟩ := fits.exists_of_hasValue (typed.2 ▸ hasValue_unaryType op)
      exact (Keeps.needed hw).bind fun w _ =>
        Keeps.pure ⟨hasValue_unaryType op, apply_admits admits w⟩
  | binary op lhs rhs span ihl ihr =>
      obtain ⟨hl, hr, operands⟩ := typed
      obtain ⟨hasl, hasr⟩ := operands.hasValue
      rw [evalExpr]
      exact (evaluate_keeps admits operands (needed_keeps hasl (ihl hl))
        (needed_keeps hasr (ihr hr))).bind fun w hw => Keeps.pure ⟨hasValue_binaryType op, hw⟩
  | shl value amount span ih =>
      rw [evalExpr]
      refine (ih typed.1).bind fun value fits => ?_
      obtain ⟨w, rfl, hw⟩ := fits.exists_of_hasValue (by rw [typed.2.1]; rfl)
      exact (Keeps.needed hw).bind fun w _ => Keeps.pure ⟨rfl, admits.int _⟩
  | call function args result span ih =>
      obtain ⟨params, declared, argsTyped⟩ := typed
      rw [evalExpr]
      exact (evalArgs_keeps ih argsTyped).bind fun ws fit =>
        callsKeep function _ ws declared fit
  | builtin kind args span ih =>
      obtain ⟨callable, argsTyped⟩ := typed
      rw [evalExpr]
      refine (evalArgs_keeps ih argsTyped).bind fun ws _ => ?_
      refine (Keeps.ask (P := fun _ => True) fun state inv =>
        ⟨hostKeeps.call state kind ws inv callable, fun _ _ => trivial⟩).bind fun w _ => ?_
      refine Keeps.pure ?_
      cases kind <;>
        first
        | exact ⟨rfl, admits.int w⟩
        | rfl

/-- A typed expression that has a value is evaluated to one. -/
theorem evalWord_keeps (admits : Admits V) (hostKeeps : HostKeeps V Inv Γ.storage host)
    (callsKeep : CallsKeep V Inv Γ.signatures calls) (holds : Holds V Γ live locals) {e : Expr}
    (typed : e.Typed Γ live) (has : e.type.hasValue) :
    Keeps Inv (V e.type) (evalWord host calls locals e) :=
  needed_keeps has (evalExpr_keeps admits hostKeeps callsKeep holds typed)

/-! ### Statements -/

theorem FlowFits.weaken {live' : List Nat} {diverges diverges' : Bool} (sub : live ⊆ live')
    (less : diverges' = true → diverges = true) {flow : Flow Locals}
    (h : FlowFits V Γ live' diverges flow) : FlowFits V Γ live diverges' flow := by
  cases flow with
  | next locals =>
      refine ⟨?_, h.2.weaken sub⟩
      cases diverges' with
      | false => rfl
      | true => exact absurd (less rfl) (by simp [h.1])
  | returned value => exact h

/-- What follows a flow only has to be looked at where control gets. -/
theorem andThen_keeps {live' : List Nat} {first rest : Bool} {flow : Flow Locals}
    {next : Locals → Eval State (Flow Locals)} (h : FlowFits V Γ live first flow)
    (hn : ∀ locals, Holds V Γ live locals → Keeps Inv (FlowFits V Γ live' rest) (next locals)) :
    Keeps Inv (FlowFits V Γ live' (first || rest)) (flow.andThen next) := by
  cases flow with
  | next locals =>
      obtain ⟨rfl, holds⟩ := h
      exact hn locals holds
  | returned value => exact Keeps.pure h

/-- A loop keeps what its body keeps, and is only left when its condition can fail. -/
theorem loop_keeps {test : Locals → Eval State Word} {body : Locals → Eval State (Flow Locals)}
    {endless : Bool}
    (ht : ∀ locals, Holds V Γ live locals →
      Keeps Inv (fun w => endless = true → w ≠ 0) (test locals))
    (hb : ∀ locals, Holds V Γ live locals → Keeps Inv (FlowFits V Γ live false) (body locals))
    (rounds : Nat) {locals : Locals} (holds : Holds V Γ live locals) :
    Keeps Inv (FlowFits V Γ live endless) (Flow.loop test body rounds locals) := by
  induction rounds generalizing locals with
  | zero => exact Keeps.throw (by decide)
  | succ rounds ih =>
      rw [Flow.loop]
      refine (ht locals holds).bind fun w hw => ?_
      split
      case isTrue zero =>
        refine Keeps.pure ⟨?_, holds⟩
        cases endless with
        | false => rfl
        | true => exact absurd zero (hw rfl)
      case isFalse =>
        exact (hb locals holds).bind fun flow fits => andThen_keeps fits fun _ => ih

/-- The literal truth is not zero. -/
theorem evalWord_isTrue {e : Expr} (h : e.isTrue) : evalWord host calls locals e = pure 1 := by
  cases e with
  | bool value span =>
      cases value with
      | false => contradiction
      | true => rfl
  | _ => contradiction

theorem evalStmts_keeps_of_forall {rounds : Nat} {body : List Stmt}
    (each : ∀ s ∈ body, ∀ live locals, Holds V Γ live locals → s.Typed Γ live →
      Keeps Inv (FlowFits V Γ (s.declares ++ live) s.diverges)
        (evalStmt host calls rounds locals s))
    {live : List Nat} {locals : Locals} (holds : Holds V Γ live locals)
    (typed : StmtsTyped Γ live body) :
    Keeps Inv (FlowFits V Γ (liveAfter live body) (Stmt.anyDiverges body))
      (evalStmts host calls rounds locals body) := by
  induction body generalizing live locals with
  | nil => exact Keeps.pure ⟨rfl, holds⟩
  | cons s rest ih =>
      obtain ⟨first, others⟩ := List.forall_mem_cons.1 each
      rw [evalStmts, Stmt.anyDiverges]
      exact (first live locals holds typed.1).bind fun flow fits =>
        andThen_keeps fits fun _ holds => ih others holds typed.2

/-- The statements of a nested block give values to no variable of the blocks around it. -/
theorem nested_keeps {rounds : Nat} {body : List Stmt} {diverges : Bool}
    (less : diverges = true → Stmt.anyDiverges body = true)
    (h : Keeps Inv (FlowFits V Γ (liveAfter live body) (Stmt.anyDiverges body))
      (evalStmts host calls rounds locals body)) :
    Keeps Inv (FlowFits V Γ live diverges) (evalStmts host calls rounds locals body) :=
  h.weaken fun _ fits => fits.weaken (subset_liveAfter live body) less

/-- A typed statement ends as typing says. -/
theorem evalStmt_keeps (admits : Admits V) (hostKeeps : HostKeeps V Inv Γ.storage host)
    (callsKeep : CallsKeep V Inv Γ.signatures calls) {rounds : Nat} {s : Stmt} :
    ∀ live locals, Holds V Γ live locals → s.Typed Γ live →
      Keeps Inv (FlowFits V Γ (s.declares ++ live) s.diverges)
        (evalStmt host calls rounds locals s) := by
  have word {live : List Nat} {locals : Locals} (holds : Holds V Γ live locals) {e : Expr}
      (typed : e.Typed Γ live) (has : e.type.hasValue) :
      Keeps Inv (V e.type) (evalWord host calls locals e) :=
    evalWord_keeps admits hostKeeps callsKeep holds typed has
  have truth {live : List Nat} {locals : Locals} (holds : Holds V Γ live locals) {cond : Expr}
      (typed : cond.Has Γ live .bool) :
      Keeps Inv (V .bool) (evalWord host calls locals cond) :=
    typed.2 ▸ word holds typed.1 (by rw [typed.2]; rfl)
  induction s with
  | letIn index value span | set index value span =>
      intro live locals holds typed
      rw [evalStmt]
      refine (word holds typed.1 typed.2.2).bind fun w hw => ?_
      exact Keeps.pure ⟨rfl, (holds.set typed.2.1 hw).weaken (by simp [Stmt.declares])⟩
  | store slot value span =>
      intro live locals holds typed
      rw [evalStmt]
      refine (word holds typed.1 typed.2.2).bind fun w hw => ?_
      refine (Keeps.ask (P := fun _ => True) fun state inv =>
        ⟨hostKeeps.store state slot _ w inv typed.2.1 hw, fun _ _ => trivial⟩).bind fun _ _ => ?_
      exact Keeps.pure ⟨rfl, holds⟩
  | ifThen cond yes no span ihy ihn =>
      intro live locals holds typed
      rw [evalStmt]
      refine (truth holds typed.1).bind fun w _ => ?_
      split
      · exact nested_keeps (by simp [Stmt.diverges])
          (evalStmts_keeps_of_forall ihn holds typed.2.2)
      · exact nested_keeps (by simp +contextual [Stmt.diverges])
          (evalStmts_keeps_of_forall ihy holds typed.2.1)
  | whileDo cond body span ih =>
      intro live locals holds typed
      rw [evalStmt]
      refine loop_keeps (fun locals holds => ?_) (fun locals holds => ?_) rounds holds
      · by_cases endless : cond.isTrue
        · rw [evalWord_isTrue endless]
          exact Keeps.pure fun _ => by decide
        · exact (truth holds typed.1).weaken fun _ _ h => absurd h endless
      · exact nested_keeps (fun h => nomatch h) (evalStmts_keeps_of_forall ih holds typed.2)
  | returns value span =>
      intro live locals holds typed
      cases value with
      | none =>
          rw [evalStmt]
          exact Keeps.pure typed
      | some value =>
          rw [evalStmt]
          refine (evalExpr_keeps admits hostKeeps callsKeep holds typed.1.1).bind fun v fits => ?_
          exact Keeps.pure (show Fits V Γ.result v from typed.1.2 ▸ fits)
  | require cond span =>
      intro live locals holds typed
      rw [evalStmt]
      refine (truth holds typed).bind fun w _ => ?_
      split
      · exact Keeps.throw (by decide)
      · exact Keeps.pure ⟨rfl, holds⟩
  | eval value span =>
      intro live locals holds typed
      rw [evalStmt]
      exact (evalExpr_keeps admits hostKeeps callsKeep holds typed).bind fun _ _ =>
        Keeps.pure ⟨rfl, holds⟩

/-- Typed statements end as typing says. -/
theorem evalStmts_keeps (admits : Admits V) (hostKeeps : HostKeeps V Inv Γ.storage host)
    (callsKeep : CallsKeep V Inv Γ.signatures calls) {rounds : Nat} {body : List Stmt}
    (holds : Holds V Γ live locals) (typed : StmtsTyped Γ live body) :
    Keeps Inv (FlowFits V Γ (liveAfter live body) (Stmt.anyDiverges body))
      (evalStmts host calls rounds locals body) :=
  evalStmts_keeps_of_forall (fun _ _ => evalStmt_keeps admits hostKeeps callsKeep) holds typed

/-! ### Functions -/

/-- The body of a function starts with values in its parameters. -/
theorem entry_holds {c : Contract} {f : Function} (typed : c.TypedFunction f) {args : List Word}
    (fit : ArgsFit V f.signature.params args) :
    Holds V (c.context f) (List.range f.paramCount) (f.entry args) := by
  have count : args.length = f.paramCount := fit.1.trans (Function.length_signature typed)
  constructor
  · have := typed.paramCount_le
    simp [Function.entry, Contract.context, count]
    omega
  · intro i hi type ht
    have bound : i < args.length := by simpa [count] using hi
    refine ⟨args[i], ?_, ?_⟩
    · rw [Function.entry, List.getElem?_append_left (by simpa using bound)]
      simp [bound]
    · refine fit.2 i type _ ?_ (List.getElem?_eq_getElem bound)
      have param : i < f.paramCount := count ▸ bound
      simpa [Function.signature, Function.params, List.getElem?_take_of_lt param,
        Contract.context] using ht

theorem resultOf_keeps {f : Function} {live : List Nat} (result : Γ.result = f.result)
    {diverges : Bool} (returns : f.result.hasValue → diverges = true) {flow : Flow Locals}
    (fits : FlowFits V Γ live diverges flow) :
    Keeps Inv (Fits V f.result) (Lang.resultOf f.result.hasValue flow : Eval State _) := by
  cases flow with
  | next locals =>
      cases has : f.result.hasValue with
      | true => exact absurd (returns has) (by simp [fits.1])
      | false =>
          refine Keeps.pure ?_
          revert has
          cases f.result <;> simp [Fits, Ty.hasValue]
  | returned value =>
      have fits : Fits V f.result value := result ▸ fits
      cases value with
      | none =>
          rw [(show f.result = .unit from fits)]
          exact Keeps.pure rfl
      | some w =>
          rw [fits.1]
          exact Keeps.pure fits

/-- A typed function has a result of its type. -/
theorem eval_keeps (admits : Admits V) {c : Contract} {f : Function} (typed : c.TypedFunction f)
    (hostKeeps : HostKeeps V Inv (c.context f).storage host)
    (callsKeep : CallsKeep V Inv (c.context f).signatures calls) {rounds : Nat} {args : List Word}
    (fit : ArgsFit V f.signature.params args) :
    Keeps Inv (Fits V f.result) (f.eval host calls rounds args) := by
  have count : args.length = f.paramCount := fit.1.trans (Function.length_signature typed)
  unfold Function.eval
  rw [if_neg (fun h => h count)]
  exact (evalStmts_keeps admits hostKeeps callsKeep (entry_holds typed fit) typed.body).bind
    fun flow fits => resultOf_keeps rfl typed.returns fits

end

/-- Calls of a typed contract give results of the types that they are declared with. -/
theorem call_keeps {State : Type} {Inv : State → Prop} {host : Host State} (admits : Admits V)
    {c : Contract} (typed : c.Typed)
    (hostKeeps : HostKeeps V Inv (c.storage.map (·.type)) host) (fuel : Nat) :
    CallsKeep V Inv (c.functions.map (·.signature)) (c.call host fuel) := by
  induction fuel with
  | zero => exact fun _ _ _ _ _ => Keeps.throw (by decide)
  | succ fuel ih =>
      intro function sig args declared fit
      rw [List.getElem?_map, Option.map_eq_some_iff] at declared
      obtain ⟨f, found, rfl⟩ := declared
      rw [Contract.call, found]
      exact eval_keeps admits (typed f (List.mem_of_getElem? found)) hostKeeps ih fit

end Workbench.Lowered
