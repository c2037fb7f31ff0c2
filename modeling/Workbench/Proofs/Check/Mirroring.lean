import Workbench.Lowered.Evaluation
import Workbench.Proofs.Check.Acceptance
import Workbench.Syntax.Evaluation

/-!
# Variables in sight and tables of locals

While a contract is evaluated as it is written, a stack of scopes holds the variables in sight with
their values. Its lowered form has one table for all the locals of a function. The frames of the
check stand between the two: they say which local each name in sight is bound to. `Mirrors` is the
relation of the three, and it is kept by everything that statements do with variables.

What carries an assignment is that no two names in sight are bound to the same local. A local that
went out of sight, or that an earlier round of a loop has left a value in, is of no consequence.
-/

namespace Workbench.Check

open Lang (Ty Word)
open Syntax (Scopes)
open Lowered (Locals Variable Stmt)

/-! ### Bindings to different locals -/

/-- The bindings in sight are to different locals, all of them declared. -/
structure Scope.Apart (scope : Scope) : Prop where
  nonempty : scope.frames ≠ []
  nodup : (scope.frames.flatten.map (·.index)).Nodup
  below : ∀ b ∈ scope.frames.flatten, b.index < scope.locals.size

namespace Scope

theorem size_declare (scope : Scope) (name : String) (type : Ty) :
    (scope.declare name type).locals.size = scope.locals.size + 1 :=
  Array.size_push _

theorem tail_frames_declare (scope : Scope) (name : String) (type : Ty) :
    (scope.declare name type).frames.tail = scope.frames.tail := by
  rcases scope with ⟨_, _ | _⟩ <;> rfl

theorem size_le {scope scope' : Scope} (grows : scope.types <+: scope'.types) :
    scope.locals.size ≤ scope'.locals.size := by
  simpa using grows.length_le

namespace Apart

variable {scope scope' : Scope}

theorem enter (apart : scope.Apart) : scope.enter.Apart :=
  ⟨List.cons_ne_nil _ _, apart.nodup, apart.below⟩

/-- With the same names in sight there may be more locals. -/
theorem later (apart : scope.Apart) (frames : scope'.frames = scope.frames)
    (grows : scope.types <+: scope'.types) : scope'.Apart :=
  ⟨frames ▸ apart.nonempty, frames ▸ apart.nodup,
    fun b hb => Nat.lt_of_lt_of_le (apart.below b (frames ▸ hb)) (size_le grows)⟩

theorem declare (apart : scope.Apart) (name : String) (type : Ty) :
    (scope.declare name type).Apart := by
  obtain ⟨nonempty, nodup, below⟩ := apart
  obtain ⟨frame, outer, frames⟩ := List.exists_cons_of_ne_nil nonempty
  have flatten : (scope.declare name type).frames.flatten =
      ⟨name, scope.locals.size, type⟩ :: scope.frames.flatten := by
    simp [Scope.declare, frames]
  refine ⟨by simp [Scope.declare, frames], ?_, ?_⟩
  · rw [flatten, List.map_cons, List.nodup_cons]
    refine ⟨fun taken => ?_, nodup⟩
    obtain ⟨b, hb, same⟩ := List.mem_map.1 taken
    exact Nat.ne_of_lt (below b hb) same
  · rw [flatten, size_declare]
    intro b hb
    rcases List.mem_cons.1 hb with rfl | hb
    · exact Nat.lt_succ_self _
    · exact Nat.lt_succ_of_lt (below b hb)

end Apart

end Scope

section

variable {env : Env}

theorem StmtLowers.apart {scope scope' : Scope} {s : Syntax.Stmt} {s' : Stmt}
    (lowers : StmtLowers env scope s s' scope') (apart : scope.Apart) : scope'.Apart := by
  cases lowers with
  | letIn => exact apart.declare _ _
  | ifThen _ _ yes => exact apart.later yes.frames_eq yes.grows
  | ifElse _ _ yes no =>
      exact (apart.later yes.frames_eq yes.grows).later no.frames_eq no.grows
  | whileDo _ _ body => exact apart.later body.frames_eq body.grows
  | _ => exact apart

theorem StmtLowers.tail_frames {scope scope' : Scope} {s : Syntax.Stmt} {s' : Stmt}
    (lowers : StmtLowers env scope s s' scope') : scope'.frames.tail = scope.frames.tail := by
  cases lowers with
  | letIn => exact scope.tail_frames_declare _ _
  | ifThen _ _ yes => rw [yes.frames_eq]
  | ifElse _ _ yes no => rw [no.frames_eq, yes.frames_eq]
  | whileDo _ _ body => rw [body.frames_eq]
  | _ => rfl

/-- Statements only add names to the innermost frame. -/
theorem StmtsLower.tail_frames {scope scope' : Scope} {stmts : List Syntax.Stmt}
    {body : List Stmt} (lower : StmtsLower env scope stmts body scope') :
    scope'.frames.tail = scope.frames.tail := by
  induction stmts generalizing scope body with
  | nil =>
      cases lower
      rfl
  | cons s rest ih =>
      cases lower with
      | cons first others => exact (ih others).trans first.tail_frames

end

/-! ### Frames and variables -/

/-- The local of a binding has a value. -/
def LocalIs (locals : Locals) (b : Binding) (value : Word) : Prop :=
  locals[b.index]?.join = some value

theorem LocalIs.lt_length {locals : Locals} {b : Binding} {value : Word}
    (holds : LocalIs locals b value) : b.index < locals.length := by
  by_contra beyond
  rw [LocalIs, List.getElem?_eq_none (Nat.le_of_not_lt beyond)] at holds
  nomatch holds

theorem localIs_set {locals : Locals} {b : Binding} (h : b.index < locals.length) (value : Word) :
    LocalIs (locals.set b.index (some value)) b value := by
  simp [LocalIs, h]

theorem LocalIs.set_of_ne {locals : Locals} {b : Binding} {value : Word}
    (holds : LocalIs locals b value) {index : Nat} (other : b.index ≠ index) (new : Option Word) :
    LocalIs (locals.set index new) b value := by
  rwa [LocalIs, List.getElem?_set_ne other.symm]

/-- The variables of a block have the values of the locals that their names are bound to. -/
structure FrameMirrors (locals : Locals) (frame : List Binding) (vars : List (String × Word)) :
    Prop where
  bound : ∀ {name : String} {b : Binding}, frame.find? (fun b => b.name == name) = some b →
    ∃ value, vars.lookup name = some value ∧ LocalIs locals b value
  unbound : ∀ {name : String}, frame.find? (fun b => b.name == name) = none →
    vars.lookup name = none

theorem lookup_setIn_self {name : String} {vars : List (String × Word)} {old : Word}
    (found : vars.lookup name = some old) (value : Word) :
    (Scopes.setIn name value vars).lookup name = some value := by
  induction vars with
  | nil => nomatch found
  | cons first rest ih =>
      obtain ⟨text, _⟩ := first
      rw [Scopes.setIn]
      split
      case isTrue same => rw [lookup_cons, if_pos same.symm]
      case isFalse other =>
        rw [lookup_cons, if_neg (Ne.symm other)] at found ⊢
        exact ih found

theorem lookup_setIn_of_ne {name other : String} (h : other ≠ name) (value : Word)
    (vars : List (String × Word)) :
    (Scopes.setIn name value vars).lookup other = vars.lookup other := by
  induction vars with
  | nil => rfl
  | cons first rest ih =>
      obtain ⟨text, _⟩ := first
      rw [Scopes.setIn]
      split
      case isTrue same => rw [← same, lookup_cons, lookup_cons, if_neg h.symm, if_neg h.symm]
      case isFalse => rw [lookup_cons, lookup_cons, ih]

namespace FrameMirrors

variable {locals : Locals} {frame : List Binding} {vars : List (String × Word)}

theorem nil (locals : Locals) : FrameMirrors locals [] [] :=
  ⟨(nomatch ·), fun _ => rfl⟩

/-- A local that no name is bound to may change. -/
theorem set_of_ne (h : FrameMirrors locals frame vars) {index : Nat}
    (others : ∀ b ∈ frame, b.index ≠ index) (new : Option Word) :
    FrameMirrors (locals.set index new) frame vars where
  bound found := by
    obtain ⟨value, hv, holds⟩ := h.bound found
    exact ⟨value, hv, holds.set_of_ne (others _ (List.mem_of_find?_eq_some found)) new⟩
  unbound := h.unbound

/-- The local that a name is bound to changes with the variable. -/
theorem set (h : FrameMirrors locals frame vars) (nodup : (frame.map (·.index)).Nodup)
    {name : String} {b : Binding} (found : frame.find? (fun b => b.name == name) = some b)
    (value : Word) :
    FrameMirrors (locals.set b.index (some value)) frame (Scopes.setIn name value vars) where
  bound {other b'} found' := by
    obtain ⟨old, hv, holds⟩ := h.bound found
    obtain ⟨old', hv', holds'⟩ := h.bound found'
    by_cases same : other = name
    · subst same
      cases found.symm.trans found'
      exact ⟨value, lookup_setIn_self hv value, localIs_set holds.lt_length value⟩
    · refine ⟨old', (lookup_setIn_of_ne same value vars).trans hv', holds'.set_of_ne ?_ _⟩
      intro shared
      have equal := List.inj_on_of_nodup_map nodup (List.mem_of_find?_eq_some found')
        (List.mem_of_find?_eq_some found) shared
      have hb : b.name = name := by simpa using List.find?_some found
      have hb' : b'.name = other := by simpa using List.find?_some found'
      exact same (by rw [← hb', equal, hb])
  unbound {other} missing := by
    have different : other ≠ name := by
      rintro rfl
      exact nomatch missing.symm.trans found
    exact (lookup_setIn_of_ne different value vars).trans (h.unbound missing)

/-- A new name is bound to a local that no other name is bound to. -/
theorem cons (h : FrameMirrors locals frame vars) {b : Binding}
    (others : ∀ b' ∈ frame, b'.index ≠ b.index) (room : b.index < locals.length) (value : Word) :
    FrameMirrors (locals.set b.index (some value)) (b :: frame) ((b.name, value) :: vars) := by
  have kept := h.set_of_ne others (some value)
  constructor
  all_goals
    intro name
    rw [find?_name_cons, lookup_cons]
    split
  case bound.isTrue => rintro _ ⟨⟩; exact ⟨value, rfl, localIs_set room value⟩
  case bound.isFalse => exact kept.bound
  case unbound.isTrue => rintro ⟨⟩
  case unbound.isFalse => exact kept.unbound

/-- A name that is not bound yet may also come last among the variables. -/
theorem snoc (h : FrameMirrors locals frame vars) {b : Binding} {value : Word}
    (new : frame.find? (fun b' => b'.name == b.name) = none) (holds : LocalIs locals b value) :
    FrameMirrors locals (b :: frame) (vars ++ [(b.name, value)]) := by
  constructor
  all_goals
    intro name
    rw [find?_name_cons, List.lookup_append, lookup_cons]
    split
  case bound.isTrue same =>
    rintro _ ⟨⟩
    exact ⟨value, by rw [h.unbound (same ▸ new)]; rfl, holds⟩
  case bound.isFalse =>
    intro b' found
    obtain ⟨value', hv, holds'⟩ := h.bound found
    exact ⟨value', by rw [hv]; rfl, holds'⟩
  case unbound.isTrue => rintro ⟨⟩
  case unbound.isFalse =>
    intro missing
    rw [h.unbound missing]
    rfl

end FrameMirrors

/-! ### Scopes and frames -/

/-- What a name is bound to in the innermost frame that binds it. -/
def binding? (frames : List (List Binding)) (name : String) : Option Binding :=
  frames.findSome? fun frame => frame.find? fun b => b.name == name

theorem binding?_cons (frame : List Binding) (outer : List (List Binding)) (name : String) :
    binding? (frame :: outer) name =
      (frame.find? fun b => b.name == name).or (binding? outer name) := by
  rw [binding?, List.findSome?_cons]
  cases frame.find? fun b => b.name == name <;> rfl

theorem mem_flatten_of_binding? {frames : List (List Binding)} {name : String} {b : Binding}
    (found : binding? frames name = some b) : b ∈ frames.flatten := by
  obtain ⟨frame, hframe, hb⟩ := List.exists_of_findSome?_eq_some found
  exact List.mem_flatten.2 ⟨frame, hframe, List.mem_of_find?_eq_some hb⟩

/-- The scopes have the variables that the frames bind, with the values that the table has. -/
abbrev FramesMirror (locals : Locals) : List (List Binding) → Scopes → Prop :=
  List.Forall₂ (FrameMirrors locals)

namespace FramesMirror

variable {locals : Locals} {frames : List (List Binding)} {scopes : Scopes}

theorem bound (mirror : FramesMirror locals frames scopes) {name : String} {b : Binding}
    (found : binding? frames name = some b) :
    ∃ value, scopes.find? name = some value ∧ LocalIs locals b value := by
  induction mirror with
  | nil => nomatch found
  | @cons frame vars outer others first _ ih =>
      rw [binding?_cons] at found
      rw [Scopes.find?]
      cases hb : frame.find? fun b => b.name == name with
      | some b' =>
          rw [hb] at found
          cases found
          obtain ⟨value, hv, holds⟩ := first.bound hb
          exact ⟨value, by rw [hv]; rfl, holds⟩
      | none =>
          rw [hb] at found
          obtain ⟨value, hv, holds⟩ := ih found
          exact ⟨value, by rw [first.unbound hb, hv]; rfl, holds⟩

theorem unbound (mirror : FramesMirror locals frames scopes) {name : String}
    (missing : binding? frames name = none) (value : Word) :
    scopes.find? name = none ∧ scopes.set? name value = none := by
  induction mirror with
  | nil => exact ⟨rfl, rfl⟩
  | @cons frame vars outer others first _ ih =>
      rw [binding?_cons, Option.or_eq_none_iff] at missing
      obtain ⟨find, set⟩ := ih missing.2
      rw [Scopes.find?, Scopes.set?, first.unbound missing.1, find, set]
      exact ⟨rfl, rfl⟩

theorem set_of_ne (mirror : FramesMirror locals frames scopes) {index : Nat}
    (others : ∀ b ∈ frames.flatten, b.index ≠ index) (new : Option Word) :
    FramesMirror (locals.set index new) frames scopes := by
  induction mirror with
  | nil => exact .nil
  | cons first _ ih =>
      rw [List.flatten_cons, List.forall_mem_append] at others
      exact .cons (first.set_of_ne others.1 new) (ih others.2)

/-- An assignment changes the variable that a name means and the local that it is bound to. -/
theorem set (mirror : FramesMirror locals frames scopes)
    (nodup : (frames.flatten.map (·.index)).Nodup) {name : String} {b : Binding}
    (found : binding? frames name = some b) (value : Word) :
    ∃ scopes', scopes.set? name value = some scopes' ∧
      FramesMirror (locals.set b.index (some value)) frames scopes' := by
  induction mirror with
  | nil => nomatch found
  | @cons frame vars outer others first rest ih =>
      rw [List.flatten_cons, List.map_append, List.nodup_append] at nodup
      obtain ⟨nodup, nodupOuter, disjoint⟩ := nodup
      have different : ∀ b ∈ frame, ∀ b' ∈ outer.flatten, b.index ≠ b'.index :=
        fun b hb b' hb' => disjoint _ (List.mem_map_of_mem hb) _ (List.mem_map_of_mem hb')
      rw [binding?_cons] at found
      rw [Scopes.set?]
      cases hb : frame.find? fun b => b.name == name with
      | some b' =>
          rw [hb] at found
          cases found
          obtain ⟨old, hv, -⟩ := first.bound hb
          have apart := different b (List.mem_of_find?_eq_some hb)
          exact ⟨Scopes.setIn name value vars :: others, by rw [hv]; rfl,
            .cons (first.set nodup hb value)
              (set_of_ne rest (fun b' hb' => (apart b' hb').symm) _)⟩
      | none =>
          rw [hb] at found
          obtain ⟨others', hs, mirror⟩ := ih nodupOuter found
          exact ⟨vars :: others', by rw [first.unbound hb, hs]; rfl,
            .cons (first.set_of_ne (fun b' hb' => different b' hb' b
              (mem_flatten_of_binding? found)) _) mirror⟩

end FramesMirror

/-! ### Scopes and tables -/

/-- The scopes have the variables that are in sight, and the table has a given size. -/
structure Mirrors (size : Nat) (frames : List (List Binding)) (scopes : Scopes) (locals : Locals) :
    Prop where
  frames : FramesMirror locals frames scopes
  length : locals.length = size

namespace Mirrors

variable {size : Nat} {scope : Scope} {scopes : Scopes} {locals : Locals}

theorem enter (h : Mirrors size scope.frames scopes locals) :
    Mirrors size scope.enter.frames ([] :: scopes) locals :=
  ⟨.cons (.nil locals) h.frames, h.length⟩

theorem leave {inner frames : List (List Binding)} (h : Mirrors size inner scopes locals)
    (outer : inner.tail = frames) : Mirrors size frames scopes.tail locals := by
  obtain ⟨_ | ⟨_, others⟩, length⟩ := h
  · exact outer ▸ ⟨.nil, length⟩
  · exact outer ▸ ⟨others, length⟩

theorem declare (h : Mirrors size scope.frames scopes locals) (apart : scope.Apart)
    (room : scope.locals.size < size) (name : String) (type : Ty) (value : Word) :
    Mirrors size (scope.declare name type).frames (scopes.bind name value)
      (locals.set scope.locals.size (some value)) := by
  obtain ⟨frames, length⟩ := h
  obtain ⟨nonempty, -, below⟩ := apart
  refine ⟨?_, by rw [List.length_set, length]⟩
  have others : ∀ b ∈ scope.frames.flatten, b.index ≠ scope.locals.size :=
    fun b hb => Nat.ne_of_lt (below b hb)
  unfold Scope.declare
  revert frames nonempty others
  generalize scope.frames = all
  rintro (_ | ⟨first, outer⟩) nonempty others
  · contradiction
  · rw [List.flatten_cons, List.forall_mem_append] at others
    exact .cons (first.cons (b := ⟨name, scope.locals.size, type⟩) others.1 (length ▸ room) value)
      (FramesMirror.set_of_ne outer others.2 _)

theorem set (h : Mirrors size scope.frames scopes locals) (apart : scope.Apart) {name : String}
    {b : Binding} (found : scope.lookup? name = some b) (value : Word) :
    ∃ scopes', scopes.set? name value = some scopes' ∧
      Mirrors size scope.frames scopes' (locals.set b.index (some value)) := by
  obtain ⟨scopes', set, mirror⟩ := h.frames.set apart.nodup found value
  exact ⟨scopes', set, mirror, by rw [List.length_set, h.length]⟩

end Mirrors

/-! ### Parameters -/

theorem ParamsLower.apart {storage : List Variable} {scope scope' : Scope}
    {params : List Syntax.Param} (lower : ParamsLower storage scope params scope')
    (apart : scope.Apart) : scope'.Apart := by
  induction lower with
  | nil => exact apart
  | cons _ _ _ ih => exact ih (apart.declare _ _)

/-- Parameters mirror arguments: the table starts with them. -/
theorem ParamsLower.mirrors {storage : List Variable} {scope scope' : Scope}
    {params : List Syntax.Param} (lower : ParamsLower storage scope params scope')
    {frame : List Binding} (frames : scope.frames = [frame]) {locals : Locals}
    {vars : List (String × Word)} (mirror : FrameMirrors locals frame vars) {args : List Word}
    (count : args.length = params.length)
    (starts : args.map some <+: locals.drop scope.locals.size) :
    FramesMirror locals scope'.frames [vars ++ (params.map (·.name.text)).zip args] := by
  induction lower generalizing frame vars args with
  | @nil scope =>
      cases List.length_eq_zero_iff.1 count
      simpa [frames] using mirror
  | @cons scope scope' p rest new _ _ ih =>
      cases args with
      | nil => simp at count
      | cons value args =>
          obtain ⟨others, starts⟩ := starts
          have here : locals[scope.locals.size]? = some (some value) := by
            rw [← Nat.add_zero scope.locals.size, ← List.getElem?_drop, ← starts]
            rfl
          have holds : LocalIs locals ⟨p.name.text, scope.locals.size, p.type.ty⟩ value := by
            rw [LocalIs, here]
            rfl
          have unbound : frame.find? (fun b => b.name == p.name.text) = none := by
            simpa [Scope.lookup?, frames] using new
          have mirror := mirror.snoc unbound holds
          rw [List.map_cons, List.zip_cons_cons, List.append_cons]
          refine ih (by simp [Scope.declare, frames]) mirror (by simpa using count) ⟨others, ?_⟩
          rw [Scope.size_declare, ← List.drop_drop, ← starts]
          rfl

end Workbench.Check
