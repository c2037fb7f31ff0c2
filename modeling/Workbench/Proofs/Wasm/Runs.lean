import Workbench.Wasm.Execution

/-!
# Runs

A run is what code comes to as a function of its two bounds. `Leads` says that one run goes on as
another once some fuel is spent, or else meets a bound, and `Stalls` that it meets a bound whenever
the fuel is low. Both say something about all bounds at once, so a run that leads to its end ends
that way with any fuel and depth that it ends with. An instruction that encloses code is a run
within a run.
-/

namespace Workbench.Wasm

open Lang (Word)

variable {State : Type}

/-- A run that stopped in a state before the end of its code. -/
inductive Flow.StopsIn (state : State) : Flow State → Prop
  | branch (depth : Nat) (act : Activation) : StopsIn state (.branch depth act state)
  | returned (act : Activation) : StopsIn state (.returned act state)
  | trapped (trap : Trap) : StopsIn state (.trapped trap state)
  | stuck : StopsIn state (.stuck state)

/-- An instruction that encloses no code and calls nothing. -/
def Instr.isPlain : Instr → Bool
  | .block _ | .loop _ | .ifElse .. | .call _ => false
  | _ => true

/-- The run met one of its bounds. -/
def Flow.Unfinished : Flow State → Prop
  | .outOfFuel _ | .trapped .stackExhausted _ => True
  | _ => False

/-- What code comes to with some fuel and with some depth left for calls. -/
abbrev Run (State : Type) := Nat → Nat → Flow State

namespace Run

/-- A run that is over. -/
def halted (flow : Flow State) : Run State :=
  fun _ _ => flow

/-- With more than some cost of both bounds a run goes on as another one; with less it may be
unfinished. -/
def Leads (x y : Run State) : Prop :=
  ∃ cost, ∀ fuel depth,
    (x fuel depth).Unfinished ∧ (fuel < cost ∨ depth < cost) ∨
      ∃ fuel', fuel' ≤ fuel ∧ fuel ≤ fuel' + cost ∧ x fuel depth = y fuel' depth

/-- With no more fuel than some a run is unfinished. -/
def Stalls (n : Nat) (x : Run State) : Prop :=
  ∀ fuel depth, fuel ≤ n → (x fuel depth).Unfinished

/-! ### Going on -/

theorem Leads.refl (x : Run State) : x.Leads x :=
  ⟨0, fun fuel _ => .inr ⟨fuel, by omega, by omega, rfl⟩⟩

theorem Leads.trans {x y z : Run State} (hxy : x.Leads y) (hyz : y.Leads z) : x.Leads z := by
  obtain ⟨cost, hxy⟩ := hxy
  obtain ⟨cost', hyz⟩ := hyz
  refine ⟨cost + cost', fun fuel depth => ?_⟩
  rcases hxy fuel depth with ⟨unfinished, low⟩ | ⟨fuel', le, ge, same⟩
  · exact .inl ⟨unfinished, by omega⟩
  · rw [same]
    rcases hyz fuel' depth with ⟨unfinished, low⟩ | ⟨fuel'', le', ge', same'⟩
    · exact .inl ⟨unfinished, by omega⟩
    · exact .inr ⟨fuel'', by omega, by omega, same'⟩

/-- One unit of fuel is spent. -/
theorem Leads.of_succ {x y : Run State} (zero : ∀ depth, (x 0 depth).Unfinished)
    (succ : ∀ fuel depth, x (fuel + 1) depth = y fuel depth) : x.Leads y := by
  refine ⟨1, fun fuel depth => ?_⟩
  cases fuel with
  | zero => exact .inl ⟨zero depth, by omega⟩
  | succ fuel => exact .inr ⟨fuel, by omega, by omega, succ fuel depth⟩

theorem Stalls.weaken {x : Run State} {m n : Nat} (h : x.Stalls n) (le : m ≤ n) : x.Stalls m :=
  fun fuel depth low => h fuel depth (by omega)

theorem Stalls.of_leads {x y : Run State} {n : Nat} (hxy : x.Leads y) (hy : y.Stalls n) :
    x.Stalls n := by
  obtain ⟨cost, hxy⟩ := hxy
  intro fuel depth low
  rcases hxy fuel depth with ⟨unfinished, -⟩ | ⟨fuel', le, -, same⟩
  · exact unfinished
  · rw [same]
    exact hy fuel' depth (by omega)

/-- A run that leads to its end ends that way whenever it ends. -/
theorem Leads.eq_of_finished {x : Run State} {flow : Flow State} (h : x.Leads (halted flow))
    {fuel depth : Nat} (finished : ¬ (x fuel depth).Unfinished) : x fuel depth = flow := by
  obtain ⟨cost, h⟩ := h
  rcases h fuel depth with ⟨unfinished, -⟩ | ⟨fuel', -, -, same⟩
  · exact absurd unfinished finished
  · exact same

/-- A run that leads to its end comes to it. -/
theorem Leads.exists_eq {x : Run State} {flow : Flow State} (h : x.Leads (halted flow)) :
    ∃ bound, ∀ fuel depth, bound ≤ fuel → bound ≤ depth → x fuel depth = flow := by
  obtain ⟨cost, h⟩ := h
  refine ⟨cost, fun fuel depth enough deep => ?_⟩
  rcases h fuel depth with ⟨-, low⟩ | ⟨fuel', -, -, same⟩
  · omega
  · exact same

/-! ### Runs within runs -/

/-- A run whose code is enclosed in an instruction: the inner run gets what fuel is left and all but
so many of the calls, and what comes after it depends on how it ends. -/
def within (state : State) (calls : Nat) (inner : Run State) (after : Flow State → Run State) :
    Run State
  | 0, _ => .outOfFuel state
  | fuel + 1, depth =>
      if depth < calls then .trapped .stackExhausted state
      else after (inner fuel (depth - calls)) fuel depth

/-- What comes after an inner run leaves traps and a lack of fuel alone. -/
structure Passes (after : Flow State → Run State) : Prop where
  trapped : ∀ trap state, after (.trapped trap state) = halted (.trapped trap state)
  outOfFuel : ∀ state, after (.outOfFuel state) = halted (.outOfFuel state)

theorem Passes.unfinished {after : Flow State → Run State} (passes : Passes after)
    {flow : Flow State} (h : flow.Unfinished) (fuel depth : Nat) :
    (after flow fuel depth).Unfinished := by
  cases flow with
  | outOfFuel state =>
      rw [passes.outOfFuel]
      exact h
  | trapped trap state =>
      rw [passes.trapped]
      exact h
  | _ => contradiction

section

variable {state : State} {calls : Nat} {inner : Run State} {after : Flow State → Run State}

/-- When the inner run comes to its end, what comes after goes on. -/
theorem leads_within (passes : Passes after) {flow : Flow State}
    (h : inner.Leads (halted flow)) : (within state calls inner after).Leads (after flow) := by
  obtain ⟨cost, h⟩ := h
  refine ⟨cost + calls + 1, fun fuel depth => ?_⟩
  cases fuel with
  | zero => exact .inl ⟨trivial, by omega⟩
  | succ fuel =>
      rw [within]
      split
      case isTrue => exact .inl ⟨trivial, by omega⟩
      case isFalse =>
        rcases h fuel (depth - calls) with ⟨unfinished, low⟩ | ⟨fuel', -, -, same⟩
        · exact .inl ⟨passes.unfinished unfinished fuel depth, by omega⟩
        · rw [same]
          exact .inr ⟨fuel, by omega, by omega, rfl⟩

/-- Enclosing code takes fuel itself. -/
theorem stalls_within (passes : Passes after) {n : Nat} (h : inner.Stalls n) :
    (within state calls inner after).Stalls (n + 1) := by
  intro fuel depth low
  cases fuel with
  | zero => trivial
  | succ fuel =>
      rw [within]
      split
      · trivial
      · exact passes.unfinished (h fuel (depth - calls) (by omega)) fuel depth

theorem stalls_within_of_leads (passes : Passes after) {n : Nat} {flow : Flow State}
    (h : inner.Leads (halted flow)) (stalls : (after flow).Stalls n) :
    (within state calls inner after).Stalls (n + 1) := by
  obtain ⟨cost, h⟩ := h
  intro fuel depth low
  cases fuel with
  | zero => trivial
  | succ fuel =>
      rw [within]
      split
      case isTrue => trivial
      case isFalse =>
        rcases h fuel (depth - calls) with ⟨unfinished, -⟩ | ⟨fuel', -, -, same⟩
        · exact passes.unfinished unfinished fuel depth
        · rw [same]
          exact stalls fuel depth (by omega)

end

end Run

open Run (Leads halted within Passes)

/-! ### Single instructions -/

namespace Instance

variable (inst : Instance State)

/-- The run of code. -/
def run (code : List Instr) (act : Activation) (state : State) : Run State :=
  fun fuel depth => inst.exec fuel depth code act state

theorem run_nil (act : Activation) (state : State) :
    inst.run [] act state = halted (.next act state) := by
  funext fuel depth
  exact inst.exec_nil fuel depth act state

variable {inst} {rest : List Instr} {stack locals : List Word} {state : State}

theorem leads_unreachable {act : Activation} :
    (inst.run (.unreachable :: rest) act state).Leads (halted (.trapped .unreachable state)) :=
  .of_succ (fun _ => trivial) fun _ _ => rfl

theorem leads_br {n : Nat} {act : Activation} :
    (inst.run (.br n :: rest) act state).Leads (halted (.branch n act state)) :=
  .of_succ (fun _ => trivial) fun _ _ => rfl

theorem leads_ret {act : Activation} :
    (inst.run (.ret :: rest) act state).Leads (halted (.returned act state)) :=
  .of_succ (fun _ => trivial) fun _ _ => rfl

theorem leads_const {value : Word} :
    (inst.run (.const value :: rest) ⟨stack, locals⟩ state).Leads
      (inst.run rest ⟨value :: stack, locals⟩ state) :=
  .of_succ (fun _ => trivial) fun _ _ => rfl

theorem leads_drop {value : Word} :
    (inst.run (.drop :: rest) ⟨value :: stack, locals⟩ state).Leads
      (inst.run rest ⟨stack, locals⟩ state) :=
  .of_succ (fun _ => trivial) fun _ _ => rfl

theorem leads_eqz {value : Word} :
    (inst.run (.eqz :: rest) ⟨value :: stack, locals⟩ state).Leads
      (inst.run rest ⟨Word.ofBool (value == 0) :: stack, locals⟩ state) :=
  .of_succ (fun _ => trivial) fun _ _ => rfl

theorem leads_brIf {n : Nat} {cond : Word} :
    (inst.run (.brIf n :: rest) ⟨cond :: stack, locals⟩ state).Leads
      (if cond = 0 then inst.run rest ⟨stack, locals⟩ state
        else halted (.branch n ⟨stack, locals⟩ state)) := by
  refine .of_succ (fun _ => trivial) fun fuel depth => ?_
  by_cases zero : cond = 0
  · rw [if_pos zero]
    exact if_pos zero
  · rw [if_neg zero]
    exact if_neg zero

theorem leads_localGet {index : Nat} {value : Word} (h : locals[index]? = some value) :
    (inst.run (.localGet index :: rest) ⟨stack, locals⟩ state).Leads
      (inst.run rest ⟨value :: stack, locals⟩ state) := by
  refine .of_succ (fun _ => trivial) fun fuel depth => ?_
  simp only [run, exec, h]

theorem leads_localSet {index : Nat} {value : Word} (h : index < locals.length) :
    (inst.run (.localSet index :: rest) ⟨value :: stack, locals⟩ state).Leads
      (inst.run rest ⟨stack, locals.set index value⟩ state) :=
  .of_succ (fun _ => trivial) fun _ _ => if_pos h

/-- An instruction on two words gives its value or traps. -/
theorem leads_num {op : NumOp} {a b : Word} :
    (inst.run (.num op :: rest) ⟨b :: a :: stack, locals⟩ state).Leads
      (match op.apply a b with
      | .ok value => inst.run rest ⟨value :: stack, locals⟩ state
      | .error trap => halted (.trapped trap state)) := by
  refine .of_succ (fun _ => trivial) fun fuel depth => ?_
  simp only [run, exec]
  cases op.apply a b <;> rfl

theorem takeArgs?_reverse_append (args stack : List Word) :
    takeArgs? args.length (args.reverse ++ stack) = some (args, stack) := by
  unfold takeArgs?
  rw [if_pos (by simp), List.take_left' (by simp), List.drop_left' (by simp), List.reverse_reverse]

/-- The call of a function of the host. -/
theorem leads_host {index : Nat} {host : HostFunction State} {args : List Word}
    (found : inst.hosts[index]? = some host) (count : args.length = host.type.params)
    (rest : List Instr) (stack locals : List Word) (state : State) :
    (inst.run (.call index :: rest) ⟨args.reverse ++ stack, locals⟩ state).Leads
      (match host.run args state with
      | (some words, state) => inst.run rest ⟨words.reverse ++ stack, locals⟩ state
      | (none, state) => halted (.trapped .host state)) := by
  refine .of_succ (fun _ => trivial) fun fuel depth => ?_
  simp only [run, exec, found, ← count, takeArgs?_reverse_append]
  rcases host.run args state with ⟨_ | words, state'⟩ <;> rfl

/-! ### Instructions that enclose code -/

variable (inst) (rest) (stack)

/-- What comes after the code in a block. -/
def afterBlock : Flow State → Run State
  | .next f state | .branch 0 f state => inst.run rest ⟨stack, f.locals⟩ state
  | .branch (n + 1) f state => halted (.branch n f state)
  | flow => halted flow

/-- What comes after the code in a loop. -/
def afterLoop (body : List Instr) : Flow State → Run State
  | .next f state => inst.run rest ⟨stack, f.locals⟩ state
  | .branch 0 f state => inst.run (.loop body :: rest) ⟨stack, f.locals⟩ state
  | .branch (n + 1) f state => halted (.branch n f state)
  | flow => halted flow

/-- What comes after a branch of a conditional. -/
def afterBranch (results : Nat) : Flow State → Run State
  | .next f state | .branch 0 f state =>
      inst.run rest ⟨f.stack.take results ++ stack, f.locals⟩ state
  | .branch (n + 1) f state => halted (.branch n f state)
  | flow => halted flow

/-- What comes after the code of a function. -/
def afterCall (results : Nat) (locals : List Word) : Flow State → Run State
  | .next g state | .branch 0 g state | .returned g state =>
      inst.run rest ⟨g.stack.take results ++ stack, locals⟩ state
  | .branch (_ + 1) _ state => halted (.stuck state)
  | flow => halted flow

theorem passes_afterBlock : Passes (inst.afterBlock rest stack) :=
  ⟨fun _ _ => rfl, fun _ => rfl⟩

theorem passes_afterLoop (body : List Instr) : Passes (inst.afterLoop rest stack body) :=
  ⟨fun _ _ => rfl, fun _ => rfl⟩

theorem passes_afterBranch (results : Nat) : Passes (inst.afterBranch rest stack results) :=
  ⟨fun _ _ => rfl, fun _ => rfl⟩

theorem passes_afterCall (results : Nat) (locals : List Word) :
    Passes (inst.afterCall rest stack results locals) :=
  ⟨fun _ _ => rfl, fun _ => rfl⟩

theorem run_block (body : List Instr) (locals : List Word) (state : State) :
    inst.run (.block body :: rest) ⟨stack, locals⟩ state =
      within state 0 (inst.run body ⟨[], locals⟩ state) (inst.afterBlock rest stack) := by
  funext fuel depth
  cases fuel with
  | zero => rfl
  | succ fuel =>
      simp only [run, exec, within, Nat.not_lt_zero, if_false, Nat.sub_zero]
      rcases inst.exec fuel depth body ⟨[], locals⟩ state with _ | ⟨_ | n⟩ | _ | _ | _ | _ <;> rfl

theorem run_loop (body : List Instr) (locals : List Word) (state : State) :
    inst.run (.loop body :: rest) ⟨stack, locals⟩ state =
      within state 0 (inst.run body ⟨[], locals⟩ state) (inst.afterLoop rest stack body) := by
  funext fuel depth
  cases fuel with
  | zero => rfl
  | succ fuel =>
      simp only [run, exec, within, Nat.not_lt_zero, if_false, Nat.sub_zero]
      rcases inst.exec fuel depth body ⟨[], locals⟩ state with _ | ⟨_ | n⟩ | _ | _ | _ | _ <;> rfl

theorem run_ifElse (results : Nat) (yes no : List Instr) (cond : Word) (locals : List Word)
    (state : State) :
    inst.run (.ifElse results yes no :: rest) ⟨cond :: stack, locals⟩ state =
      within state 0 (inst.run (if cond = 0 then no else yes) ⟨[], locals⟩ state)
        (inst.afterBranch rest stack results) := by
  funext fuel depth
  cases fuel with
  | zero => rfl
  | succ fuel =>
      simp only [run, exec, within, Nat.not_lt_zero, if_false, Nat.sub_zero]
      rcases inst.exec fuel depth (if cond = 0 then no else yes) ⟨[], locals⟩ state with
        _ | ⟨_ | n⟩ | _ | _ | _ | _ <;> rfl

/-- The call of a function of the module. -/
theorem run_call {index : Nat} (noHost : inst.hosts[index]? = none) {f : Func} {type : FuncType}
    (found : inst.func? index = some (f, type)) {args : List Word}
    (count : args.length = type.params) (locals : List Word) (state : State) :
    inst.run (.call index :: rest) ⟨args.reverse ++ stack, locals⟩ state =
      within state 1 (inst.run f.body (entry f args) state)
        (inst.afterCall rest stack type.results locals) := by
  funext fuel depth
  cases fuel with
  | zero => rfl
  | succ fuel =>
      simp only [run, exec, within, noHost, found, ← count, takeArgs?_reverse_append]
      cases depth with
      | zero => rfl
      | succ depth =>
          rw [if_neg (by omega), Nat.add_sub_cancel]
          dsimp only
          rcases inst.exec fuel depth f.body (entry f args) state with
            _ | ⟨_ | n⟩ | _ | _ | _ | _ <;> rfl

/-! ### Plain instructions -/

/-- At a plain instruction a run stops, or it goes on behind it, whatever stands there and whatever
its bounds are. The host does not notice. -/
theorem exec_plain {i : Instr} (plain : i.isPlain) (act : Activation) (state : State) :
    (∃ flow : Flow State, flow.StopsIn state ∧
      ∀ fuel depth rest, inst.exec (fuel + 1) depth (i :: rest) act state = flow) ∨
    ∃ act', ∀ fuel depth rest,
      inst.exec (fuel + 1) depth (i :: rest) act state = inst.exec fuel depth rest act' state := by
  obtain ⟨stack, locals⟩ := act
  cases i with
  | block body | loop body | ifElse results yes no | call index => contradiction
  | unreachable => exact .inl ⟨_, .trapped .unreachable, fun _ _ _ => rfl⟩
  | br n => exact .inl ⟨_, .branch n _, fun _ _ _ => rfl⟩
  | ret => exact .inl ⟨_, .returned _, fun _ _ _ => rfl⟩
  | const value => exact .inr ⟨_, fun _ _ _ => rfl⟩
  | drop | eqz =>
      cases stack with
      | nil => exact .inl ⟨_, .stuck, fun _ _ _ => rfl⟩
      | cons value stack => exact .inr ⟨_, fun _ _ _ => rfl⟩
  | brIf n =>
      cases stack with
      | nil => exact .inl ⟨_, .stuck, fun _ _ _ => rfl⟩
      | cons cond stack =>
          by_cases zero : cond = 0
          · exact .inr ⟨⟨stack, locals⟩, fun _ _ _ => if_pos zero⟩
          · exact .inl ⟨_, .branch n ⟨stack, locals⟩, fun _ _ _ => if_neg zero⟩
  | localGet index =>
      cases known : locals[index]? with
      | none => exact .inl ⟨_, .stuck, fun _ _ _ => by simp only [exec, known]⟩
      | some value => exact .inr ⟨⟨value :: stack, locals⟩, fun _ _ _ => by simp only [exec, known]⟩
  | localSet index =>
      cases stack with
      | nil => exact .inl ⟨_, .stuck, fun _ _ _ => rfl⟩
      | cons value stack =>
          by_cases known : index < locals.length
          · exact .inr ⟨⟨stack, locals.set index value⟩, fun _ _ _ => if_pos known⟩
          · exact .inl ⟨_, .stuck, fun _ _ _ => if_neg known⟩
  | num op =>
      rcases stack with _ | ⟨b, _ | ⟨a, stack⟩⟩
      · exact .inl ⟨_, .stuck, fun _ _ _ => rfl⟩
      · exact .inl ⟨_, .stuck, fun _ _ _ => rfl⟩
      · cases applied : op.apply a b with
        | error trap => exact .inl ⟨_, .trapped trap, fun _ _ _ => by simp only [exec, applied]⟩
        | ok value =>
            exact .inr ⟨⟨value :: stack, locals⟩, fun _ _ _ => by simp only [exec, applied]⟩

/-! ### Code that is not left at its end -/

/-- What stands behind code that is never left at its end does not matter. -/
theorem exec_append_of_stopped {fuel depth : Nat} {code : List Instr} {act : Activation}
    {state : State} (behind : List Instr)
    (stopped : ∀ act' state', inst.exec fuel depth code act state ≠ .next act' state') :
    inst.exec fuel depth (code ++ behind) act state = inst.exec fuel depth code act state := by
  induction fuel generalizing code act state with
  | zero =>
      cases code with
      | nil => exact absurd (inst.exec_nil _ _ _ _) (stopped act state)
      | cons i rest => rfl
  | succ fuel ih =>
      cases code with
      | nil => exact absurd (inst.exec_nil _ _ _ _) (stopped act state)
      | cons i rest =>
          rw [List.cons_append]
          by_cases plain : i.isPlain
          case pos =>
            rcases inst.exec_plain plain act state with ⟨flow, -, stops⟩ | ⟨act', goes⟩
            · rw [stops, stops]
            · rw [goes] at stopped
              rw [goes, goes]
              exact ih stopped
          case neg =>
            revert stopped
            -- Behind enclosed code the run stops or goes on with the rest, a loop also with itself.
            cases i with
            | block body | loop body =>
                simp only [exec]
                rcases inst.exec fuel depth body ⟨[], act.locals⟩ state with
                  _ | ⟨_ | n⟩ | _ | _ | _ | _ <;> first | exact ih | exact fun _ => rfl
            | ifElse results yes no =>
                obtain ⟨_ | ⟨cond, stack⟩, locals⟩ := act
                · exact fun _ => rfl
                · simp only [exec]
                  rcases inst.exec fuel depth (if cond = 0 then no else yes) ⟨[], locals⟩ state with
                    _ | ⟨_ | n⟩ | _ | _ | _ | _ <;> first | exact ih | exact fun _ => rfl
            | call index =>
                simp only [exec]
                rcases inst.hosts[index]? with _ | imported
                · rcases inst.func? index with _ | ⟨f, type⟩
                  · exact fun _ => rfl
                  · dsimp only
                    rcases takeArgs? type.params act.stack with _ | ⟨args, below⟩
                    · exact fun _ => rfl
                    · rcases depth with _ | depth
                      · exact fun _ => rfl
                      · dsimp only
                        rcases inst.exec fuel depth f.body (entry f args) state with
                          _ | ⟨_ | n⟩ | _ | _ | _ | _ <;> first | exact ih | exact fun _ => rfl
                · dsimp only
                  rcases takeArgs? imported.type.params act.stack with _ | ⟨args, below⟩
                  · exact fun _ => rfl
                  · dsimp only
                    rcases imported.run args state with ⟨_ | words, state'⟩ <;>
                      first | exact ih | exact fun _ => rfl
            | _ => exact absurd rfl plain

/-! ### Calls from outside -/

/-- How a call ends whose function gives so many words. -/
def Ending.ofFlow (results : Nat) : Flow State → Ending × State
  | .next g state | .branch 0 g state | .returned g state =>
      (.gave (g.stack.take results).reverse, state)
  | .trapped trap state => (.trapped trap, state)
  | .branch (_ + 1) _ state | .stuck state => (.stuck, state)
  | .outOfFuel state => (.outOfFuel, state)

variable {inst}

theorem invoke_succ {index : Nat} {f : Func} {type : FuncType}
    (found : inst.func? index = some (f, type)) (fuel depth : Nat) (args : List Word)
    (state : State) :
    inst.invoke fuel (depth + 1) index args state =
      Ending.ofFlow type.results (inst.run f.body (entry f args) state fuel depth) := by
  simp only [invoke, found, run]
  rcases inst.exec fuel depth f.body (entry f args) state with
    _ | ⟨_ | n⟩ | _ | _ | _ | _ <;> rfl

/-- The call met none of the bounds. -/
def Ending.Proper : Ending → Prop
  | .outOfFuel | .trapped .stackExhausted => False
  | _ => True

theorem Ending.not_proper_of_unfinished (results : Nat) {flow : Flow State}
    (h : flow.Unfinished) : ¬ (Ending.ofFlow results flow).1.Proper := by
  cases flow with
  | outOfFuel state => exact id
  | trapped trap state =>
      cases trap with
      | stackExhausted => exact id
      | _ => contradiction
  | _ => contradiction

/-- A call from outside comes to an end: some bounds are enough for it. -/
def Ends (inst : Instance State) (index : Nat) (args : List Word) (state : State)
    (ending : Ending) (state' : State) : Prop :=
  ending.Proper ∧ ∃ fuel depth, inst.invoke fuel depth index args state = (ending, state')

end Instance

end Workbench.Wasm
