import Workbench.Proofs.Lowered.Nodes
import Workbench.Proofs.Lowered.Typing

/-!
# Other numbers for functions

A call names a function by its number. Giving the functions other numbers changes nothing else in
the text: types, the places behind which control does not go on, and all nodes but the calls stay as
they are.
-/

namespace Workbench.Lowered

variable (σ : Nat → Nat)

/-! ### Texts with other numbers -/

mutual

/-- An expression that calls functions by other numbers. -/
def Expr.renumber : Expr → Expr
  | .int value span => .int value span
  | .bool value span => .bool value span
  | .var index type span => .var index type span
  | .slot index type span => .slot index type span
  | .unary op operand span => .unary op operand.renumber span
  | .binary op lhs rhs span => .binary op lhs.renumber rhs.renumber span
  | .shl value amount span => .shl value.renumber amount span
  | .call function args result span => .call (σ function) (renumberAll args) result span
  | .builtin kind args span => .builtin kind (renumberAll args) span

def Expr.renumberAll : List Expr → List Expr
  | [] => []
  | e :: rest => e.renumber :: renumberAll rest

end

mutual

def Stmt.renumber : Stmt → Stmt
  | .letIn index value span => .letIn index (value.renumber σ) span
  | .set index value span => .set index (value.renumber σ) span
  | .store slot value span => .store slot (value.renumber σ) span
  | .ifThen cond yes no span =>
      .ifThen (cond.renumber σ) (renumberBlock yes) (renumberBlock no) span
  | .whileDo cond body span => .whileDo (cond.renumber σ) (renumberBlock body) span
  | .returns value span => .returns (value.map fun e => e.renumber σ) span
  | .require cond span => .require (cond.renumber σ) span
  | .eval value span => .eval (value.renumber σ) span

def Stmt.renumberBlock : List Stmt → List Stmt
  | [] => []
  | s :: rest => s.renumber :: renumberBlock rest

end

def Function.renumber (f : Function) : Function :=
  { f with body := Stmt.renumberBlock σ f.body }

def Node.renumber : Node → Node
  | expr e => expr (e.renumber σ)
  | stmt s => stmt (s.renumber σ)

/-! ### What stays -/

@[simp] theorem Expr.type_renumber (e : Expr) : (e.renumber σ).type = e.type := by
  cases e <;> rfl

theorem Expr.isTrue_renumber (e : Expr) : (e.renumber σ).isTrue = e.isTrue := by
  cases e with
  | bool value span => cases value <;> rfl
  | _ => rfl

theorem Stmt.anyDiverges_renumber_of_forall {body : List Stmt}
    (each : ∀ s ∈ body, (s.renumber σ).diverges = s.diverges) :
    anyDiverges (renumberBlock σ body) = anyDiverges body := by
  induction body with
  | nil => rfl
  | cons s rest ih =>
      obtain ⟨first, others⟩ := List.forall_mem_cons.1 each
      rw [renumberBlock, anyDiverges, anyDiverges, first, ih others]

theorem Stmt.diverges_renumber (s : Stmt) : (s.renumber σ).diverges = s.diverges := by
  induction s with
  | ifThen cond yes no span ihy ihn =>
      rw [renumber, diverges, diverges, anyDiverges_renumber_of_forall σ ihy,
        anyDiverges_renumber_of_forall σ ihn]
  | whileDo cond body span _ => exact cond.isTrue_renumber σ
  | _ => rfl

theorem Stmt.anyDiverges_renumber (body : List Stmt) :
    anyDiverges (renumberBlock σ body) = anyDiverges body :=
  anyDiverges_renumber_of_forall σ fun s _ => s.diverges_renumber σ

/-! ### Nodes -/

theorem Expr.nodesOfList_renumber_of_forall {args : List Expr}
    (each : ∀ a ∈ args, (a.renumber σ).nodes = a.nodes.map fun e => e.renumber σ) :
    nodesOfList (renumberAll σ args) = (nodesOfList args).map fun e => e.renumber σ := by
  induction args with
  | nil => rfl
  | cons a rest ih =>
      obtain ⟨first, others⟩ := List.forall_mem_cons.1 each
      rw [renumberAll, nodesOfList, nodesOfList, first, ih others, List.map_append]

theorem Expr.nodes_renumber (e : Expr) :
    (e.renumber σ).nodes = e.nodes.map fun e => e.renumber σ := by
  induction e with
  | unary op operand span ih => simp [renumber, nodes, ih]
  | binary op lhs rhs span ihl ihr => simp [renumber, nodes, ihl, ihr]
  | shl value amount span ih => simp [renumber, nodes, ih]
  | call function args result span ih =>
      simp [renumber, nodes, nodesOfList_renumber_of_forall σ ih]
  | builtin kind args span ih => simp [renumber, nodes, nodesOfList_renumber_of_forall σ ih]
  | _ => rfl

theorem Stmt.nodesOfBlock_renumber_of_forall {body : List Stmt}
    (each : ∀ s ∈ body, (s.renumber σ).nodes = s.nodes.map (Node.renumber σ)) :
    nodesOfBlock (renumberBlock σ body) = (nodesOfBlock body).map (Node.renumber σ) := by
  induction body with
  | nil => rfl
  | cons s rest ih =>
      obtain ⟨first, others⟩ := List.forall_mem_cons.1 each
      rw [renumberBlock, nodesOfBlock, nodesOfBlock, first, ih others, List.map_append]

theorem Stmt.nodes_renumber (s : Stmt) :
    (s.renumber σ).nodes = s.nodes.map (Node.renumber σ) := by
  have below (e : Expr) : (e.renumber σ).nodes.map Node.expr =
      (e.nodes.map Node.expr).map (Node.renumber σ) := by
    rw [e.nodes_renumber, List.map_map, List.map_map]
    rfl
  induction s with
  | ifThen cond yes no span ihy ihn =>
      simp only [renumber, nodes, List.map_cons, List.map_append, below, Node.renumber,
        nodesOfBlock_renumber_of_forall σ ihy, nodesOfBlock_renumber_of_forall σ ihn]
  | whileDo cond body span ih =>
      simp only [renumber, nodes, List.map_cons, List.map_append, below, Node.renumber,
        nodesOfBlock_renumber_of_forall σ ih]
  | returns value span =>
      cases value with
      | none => rfl
      | some value =>
          simp only [renumber, nodes, Option.map_some, List.map_cons, below, Node.renumber]
  | _ => simp only [renumber, nodes, List.map_cons, below, Node.renumber]

/-- The nodes of a text with other numbers are those of the text, each with other numbers. -/
theorem Function.nodes_renumber (f : Function) :
    (f.renumber σ).nodes = f.nodes.map (Node.renumber σ) :=
  Stmt.nodesOfBlock_renumber_of_forall σ fun s _ => s.nodes_renumber σ

end Workbench.Lowered
