import Workbench.Lowered.Basic

/-!
# The text of a function as a tree

The nodes of the text of a function are its statements and expressions. A path from the body says at
each level which part to enter, so that two nodes are told apart even if they are equal and have the
same place in the source. The parts of a node stand in the order of the text.
-/

namespace Workbench.Lowered

/-- A statement or an expression. -/
inductive Node where
  | expr (e : Expr)
  | stmt (s : Stmt)

/-- The operands or arguments of an expression. -/
def Expr.parts : Expr → List Expr
  | int .. | bool .. | var .. | slot .. => []
  | unary _ e _ | shl e _ _ => [e]
  | binary _ l r _ => [l, r]
  | call _ args _ _ | builtin _ args _ => args

/-- The expressions and statements right below a statement. -/
def Stmt.parts : Stmt → List Node
  | letIn _ value _ | set _ value _ | store _ value _ | require value _ | eval value _ =>
      [.expr value]
  | returns value _ => value.toList.map .expr
  | ifThen cond yes no _ => .expr cond :: (yes ++ no).map .stmt
  | whileDo cond body _ => .expr cond :: body.map .stmt

namespace Node

def parts : Node → List Node
  | expr e => e.parts.map expr
  | stmt s => s.parts

theorem sizeOf_lt_of_mem_parts {n part : Node} (h : part ∈ n.parts) : sizeOf part < sizeOf n := by
  cases n with
  | expr e =>
      obtain ⟨a, mem, rfl⟩ := List.mem_map.1 h
      cases e <;> simp only [Expr.parts, List.not_mem_nil, List.mem_cons, or_false] at mem
      case unary => subst mem; simp; omega
      case shl => subst mem; simp; omega
      case binary => rcases mem with rfl | rfl <;> (simp; omega)
      case call => have := List.sizeOf_lt_of_mem mem; simp; omega
      case builtin => have := List.sizeOf_lt_of_mem mem; simp; omega
  | stmt s =>
      cases s <;> simp only [parts, Stmt.parts, List.mem_cons, List.not_mem_nil, or_false,
        List.mem_map, List.mem_append, Option.mem_toList] at h
      case ifThen =>
        rcases h with rfl | ⟨s, mem | mem, rfl⟩
        · simp; omega
        · have := List.sizeOf_lt_of_mem mem; simp; omega
        · have := List.sizeOf_lt_of_mem mem; simp; omega
      case whileDo =>
        rcases h with rfl | ⟨s, mem, rfl⟩
        · simp; omega
        · have := List.sizeOf_lt_of_mem mem; simp; omega
      case returns => obtain ⟨e, rfl, rfl⟩ := h; simp; omega
      all_goals subst h; simp; omega

/-- A statement about nodes holds of each one if it holds of those whose parts it holds of. -/
@[elab_as_elim]
theorem induction {motive : Node → Prop}
    (step : ∀ n : Node, (∀ part ∈ n.parts, motive part) → motive n) (n : Node) : motive n :=
  step n fun part mem =>
    have := sizeOf_lt_of_mem_parts mem
    induction step part
termination_by sizeOf n

end Node

theorem Expr.length_nodes_pos (e : Expr) : 0 < e.nodes.length := by
  cases e <;> simp only [nodes, List.length_append, List.length_singleton] <;> omega

theorem Expr.length_le_nodesOfList (args : List Expr) :
    args.length ≤ (nodesOfList args).length := by
  induction args with
  | nil => exact Nat.le_refl 0
  | cons a rest ih =>
      have first := a.length_nodes_pos
      rw [nodesOfList, List.length_append, List.length_cons]
      omega

mutual

/-- A statement and everything below it. -/
def Stmt.nodes (s : Stmt) : List Node :=
  match s with
  | letIn _ value _ | set _ value _ | store _ value _ | require value _ | eval value _
  | returns (some value) _ => .stmt s :: value.nodes.map .expr
  | returns none _ => [.stmt s]
  | ifThen cond yes no _ =>
      .stmt s :: (cond.nodes.map .expr ++ nodesOfBlock yes ++ nodesOfBlock no)
  | whileDo cond body _ => .stmt s :: (cond.nodes.map .expr ++ nodesOfBlock body)

/-- The statements of a sequence with everything below them. -/
def Stmt.nodesOfBlock : List Stmt → List Node
  | [] => []
  | s :: rest => s.nodes ++ nodesOfBlock rest

end

theorem Stmt.nodesOfBlock_append (body rest : List Stmt) :
    nodesOfBlock (body ++ rest) = nodesOfBlock body ++ nodesOfBlock rest := by
  induction body with
  | nil => rfl
  | cons s body ih => rw [List.cons_append, nodesOfBlock, nodesOfBlock, ih, List.append_assoc]

theorem Stmt.length_le_nodesOfBlock (body : List Stmt) :
    body.length ≤ (nodesOfBlock body).length := by
  induction body with
  | nil => exact Nat.le_refl 0
  | cons s rest ih =>
      have first : 0 < s.nodes.length := by
        cases s with
        | returns value span => cases value <;> simp [nodes]
        | _ => simp [nodes]
      rw [nodesOfBlock, List.length_append, List.length_cons]
      omega

/-- The statements and expressions of the text of a function. -/
def Function.nodes (f : Function) : List Node :=
  Stmt.nodesOfBlock f.body

def Contract.nodes (c : Contract) : List Node :=
  c.functions.flatMap Function.nodes

namespace Node

/-! ### Paths -/

/-- The node that a path leads to. -/
def at? (n : Node) : List Nat → Option Node
  | [] => some n
  | i :: path => n.parts[i]?.bind fun part => part.at? path

end Node

/-- The node that a path leads to from a row of nodes. -/
def nodeAt? (row : List Node) : List Nat → Option Node
  | [] => none
  | i :: path => row[i]?.bind fun n => n.at? path

/-- The node of the text of a function that a path leads to. -/
def Function.at? (f : Function) (path : List Nat) : Option Node :=
  nodeAt? (f.body.map .stmt) path

theorem Node.at?_eq_some_iff {n m : Node} {path : List Nat} :
    n.at? path = some m ↔ path = [] ∧ m = n ∨ nodeAt? n.parts path = some m := by
  cases path with
  | nil => simp [Node.at?, nodeAt?, eq_comm]
  | cons i path => simp [Node.at?, nodeAt?]

theorem nodeAt?_eq_some_iff {row : List Node} {path : List Nat} {m : Node} :
    nodeAt? row path = some m ↔
      ∃ i rest n, path = i :: rest ∧ row[i]? = some n ∧ n.at? rest = some m := by
  cases path with
  | nil => simp [nodeAt?]
  | cons i path => simp [nodeAt?, Option.bind_eq_some_iff, and_assoc]

/-- Every node from some node down has a property. -/
def Node.Everywhere (P : Node → Prop) (n : Node) : Prop :=
  ∀ path m, n.at? path = some m → P m

theorem Node.everywhere_iff {P : Node → Prop} {n : Node} :
    n.Everywhere P ↔ P n ∧ ∀ part ∈ n.parts, part.Everywhere P := by
  constructor
  · refine fun h => ⟨h [] n rfl, fun part mem path m leads => ?_⟩
    obtain ⟨i, there⟩ := List.mem_iff_getElem?.1 mem
    exact h (i :: path) m (by rw [at?, there, Option.bind_some, leads])
  · rintro ⟨here, below⟩ path m leads
    rcases at?_eq_some_iff.1 leads with ⟨rfl, rfl⟩ | leads
    · exact here
    · obtain ⟨i, rest, part, rfl, there, leads⟩ := nodeAt?_eq_some_iff.1 leads
      exact below part (List.mem_of_getElem? there) rest m leads

/-- What every node of the statements of a function has holds of all nodes of its text. -/
theorem Function.at?_everywhere {P : Node → Prop} {f : Function}
    (h : ∀ s ∈ f.body, (Node.stmt s).Everywhere P) {path : List Nat} {n : Node}
    (leads : f.at? path = some n) : P n := by
  obtain ⟨i, rest, top, rfl, there, leads⟩ := nodeAt?_eq_some_iff.1 leads
  obtain ⟨s, mem, rfl⟩ := List.mem_map.1 (List.mem_of_getElem? there)
  exact h s mem rest n leads

end Workbench.Lowered
