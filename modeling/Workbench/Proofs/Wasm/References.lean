import Workbench.Proofs.Wasm.Runs

/-!
# What code refers to

The functions that code calls and the locals that it reads and writes can be read off its text. A
run changes the state of the host by calls of its functions only. So it preserves what the functions
of the host preserve that its code calls, itself or through functions of the module, however it ends
and whatever its bounds are.
-/

namespace Workbench.Wasm

open Lang (Word)
open Run (within)

/-- Something outside itself that a piece of code refers to by its number. -/
inductive Reference where
  | function (index : Nat)
  | var (index : Nat)
  deriving DecidableEq, Repr

mutual

/-- What an instruction refers to, in the order of its text. -/
@[simp] def Instr.references : Instr → List Reference
  | .call index => [.function index]
  | .localGet index | .localSet index => [.var index]
  | .block body | .loop body => referencesOf body
  | .ifElse _ yes no => referencesOf yes ++ referencesOf no
  | _ => []

@[simp] def referencesOf : List Instr → List Reference
  | [] => []
  | i :: rest => i.references ++ referencesOf rest

end

@[simp] theorem referencesOf_append (code rest : List Instr) :
    referencesOf (code ++ rest) = referencesOf code ++ referencesOf rest := by
  induction code with
  | nil => rfl
  | cons i code ih => rw [List.cons_append, referencesOf, referencesOf, ih, List.append_assoc]

variable {State : Type}

/-- The state of the host behind a run. -/
def Flow.state : Flow State → State
  | .next _ state | .branch _ _ state | .returned _ state | .trapped _ state | .stuck state
  | .outOfFuel state => state

theorem Flow.StopsIn.state_eq {state : State} {flow : Flow State} (stops : flow.StopsIn state) :
    flow.state = state := by
  cases stops <;> rfl

theorem Run.within_zero {state : State} {inner : Run State} {after : Flow State → Run State}
    (fuel depth : Nat) :
    within state 0 inner after (fuel + 1) depth = after (inner fuel depth) fuel depth := by
  simp [within]

namespace Instance

variable {inst : Instance State} {Inv : State → Prop} {reached : Reference → Prop}

/-- The code of some functions calls no others, and the host preserves an invariant in those of them
that are its own. -/
structure Preserves (inst : Instance State) (Inv : State → Prop) (reached : Reference → Prop) :
    Prop where
  host : ∀ (index : Nat) (host : HostFunction State), reached (.function index) →
    inst.hosts[index]? = some host → ∀ args state, Inv state → Inv (host.run args state).2
  function : ∀ (index : Nat) (f : Func) (type : FuncType), reached (.function index) →
    inst.hosts[index]? = none → inst.func? index = some (f, type) →
    ∀ r ∈ referencesOf f.body, reached r

/-! ### Behind enclosed code -/

section

variable {rest : List Instr} {stack : List Word} {fuel depth : Nat} {flow : Flow State}

theorem afterBlock_preserves
    (resume : ∀ act state, Inv state → Inv (inst.exec fuel depth rest act state).state)
    (inv : Inv flow.state) : Inv (inst.afterBlock rest stack flow fuel depth).state := by
  cases flow with
  | next act state => exact resume _ _ inv
  | branch n act state =>
      cases n with
      | zero => exact resume _ _ inv
      | succ n => exact inv
  | _ => exact inv

theorem afterLoop_preserves {body : List Instr}
    (resume : ∀ act state, Inv state → Inv (inst.exec fuel depth rest act state).state)
    (again : ∀ act state, Inv state →
      Inv (inst.exec fuel depth (.loop body :: rest) act state).state)
    (inv : Inv flow.state) : Inv (inst.afterLoop rest stack body flow fuel depth).state := by
  cases flow with
  | next act state => exact resume _ _ inv
  | branch n act state =>
      cases n with
      | zero => exact again _ _ inv
      | succ n => exact inv
  | _ => exact inv

theorem afterBranch_preserves {results : Nat}
    (resume : ∀ act state, Inv state → Inv (inst.exec fuel depth rest act state).state)
    (inv : Inv flow.state) : Inv (inst.afterBranch rest stack results flow fuel depth).state := by
  cases flow with
  | next act state => exact resume _ _ inv
  | branch n act state =>
      cases n with
      | zero => exact resume _ _ inv
      | succ n => exact inv
  | _ => exact inv

end

/-- What comes after a call does, if the code of functions does. -/
theorem call_preserves {rest : List Instr} {fuel depth : Nat} {state : State} {act : Activation}
    (preserves : inst.Preserves Inv reached) {index : Nat} (inside : reached (.function index))
    (resume : ∀ act state, Inv state → Inv (inst.exec fuel depth rest act state).state)
    (body : ∀ (f : Func) (depth : Nat), (∀ r ∈ referencesOf f.body, reached r) →
      ∀ {act state}, Inv state → Inv (inst.exec fuel depth f.body act state).state)
    (inv : Inv state) : Inv (inst.exec (fuel + 1) depth (.call index :: rest) act state).state := by
  simp only [exec]
  split
  case h_1 host found =>
    split
    · exact inv
    case h_2 args stack _ =>
      have served := preserves.host index host inside found args state inv
      split
      case h_1 words state' answer =>
        rw [answer] at served
        exact resume _ _ served
      case h_2 state' answer =>
        rw [answer] at served
        exact served
  case h_2 noHost =>
    split
    · exact inv
    case h_2 f type found =>
      split
      · exact inv
      · exact inv
      case h_3 _ args stack depth _ =>
        have behind : Inv (inst.exec fuel depth f.body (entry f args) state).state :=
          body f depth (preserves.function index f type inside noHost found) inv
        generalize inst.exec fuel depth f.body (entry f args) state = flow at behind ⊢
        rcases flow with _ | ⟨_ | n⟩ | _ | _ | _ | _
        case branch.succ => exact behind
        case next | branch.zero | returned => exact resume _ _ behind
        all_goals exact behind

/-! ### Runs -/

/-- A run preserves what the functions preserve that its code calls. -/
theorem exec_preserves (preserves : inst.Preserves Inv reached) {fuel depth : Nat}
    {code : List Instr} (refers : ∀ r ∈ referencesOf code, reached r) {act : Activation}
    {state : State} (inv : Inv state) : Inv (inst.exec fuel depth code act state).state := by
  induction fuel generalizing depth code act state with
  | zero =>
      cases code with
      | nil =>
          rw [exec_nil]
          exact inv
      | cons i rest => exact inv
  | succ fuel ih =>
      cases code with
      | nil =>
          rw [exec_nil]
          exact inv
      | cons i rest =>
          obtain ⟨first, others⟩ := List.forall_mem_append.1 refers
          have resume (act : Activation) (state : State) (inv : Inv state) :
              Inv (inst.exec fuel depth rest act state).state := ih others inv
          by_cases plain : i.isPlain
          case pos =>
            rcases inst.exec_plain plain act state with ⟨flow, stopped, stops⟩ | ⟨act', goes⟩
            · rw [stops, stopped.state_eq]
              exact inv
            · rw [goes]
              exact resume _ _ inv
          case neg =>
            obtain ⟨stack, locals⟩ := act
            cases i with
            | block body =>
                change Inv (inst.run (.block body :: rest) ⟨stack, locals⟩ state (fuel + 1)
                  depth).state
                rw [run_block, Run.within_zero]
                exact afterBlock_preserves resume (ih first inv)
            | loop body =>
                change Inv (inst.run (.loop body :: rest) ⟨stack, locals⟩ state (fuel + 1)
                  depth).state
                rw [run_loop, Run.within_zero]
                exact afterLoop_preserves resume (fun _ _ inv => ih refers inv) (ih first inv)
            | ifElse results yes no =>
                cases stack with
                | nil => exact inv
                | cons cond stack =>
                    obtain ⟨onYes, onNo⟩ := List.forall_mem_append.1 first
                    change Inv (inst.run (.ifElse results yes no :: rest) ⟨cond :: stack, locals⟩
                      state (fuel + 1) depth).state
                    rw [run_ifElse, Run.within_zero]
                    refine afterBranch_preserves resume (ih ?_ inv)
                    split
                    · exact onNo
                    · exact onYes
            | call index =>
                exact call_preserves preserves (first _ List.mem_cons_self) resume
                  (fun f _ refers => ih refers) inv
            | _ => exact absurd rfl plain

/-! ### Calls from outside -/

theorem Ending.state_ofFlow (results : Nat) (flow : Flow State) :
    (Ending.ofFlow results flow).2 = flow.state := by
  rcases flow with _ | ⟨_ | n⟩ | _ | _ | _ | _ <;> rfl

theorem invoke_preserves (preserves : inst.Preserves Inv reached) {index : Nat}
    (inside : reached (.function index)) (noHost : inst.hosts[index]? = none) (fuel depth : Nat)
    (args : List Word) {state : State} (inv : Inv state) :
    Inv (inst.invoke fuel depth index args state).2 := by
  cases found : inst.func? index with
  | none =>
      simp only [invoke, found]
      exact inv
  | some entry =>
      obtain ⟨f, type⟩ := entry
      cases depth with
      | zero =>
          simp only [invoke, found]
          exact inv
      | succ depth =>
          rw [invoke_succ found, Ending.state_ofFlow]
          exact exec_preserves preserves (preserves.function index f type inside noHost found) inv

end Instance

end Workbench.Wasm
