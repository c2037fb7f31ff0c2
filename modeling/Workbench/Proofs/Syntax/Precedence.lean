import Workbench.Proofs.Syntax.Grammar

/-!
# Precedence refuses no words

The standard precedence chooses among the trees of the free grammar and always leaves one: words
that are derived without regard to the strength of operators have a derivation with regard to it.
Operators are put in at the right end of an expression one after the other; each goes down its right
edge until it meets no weaker one.
-/

namespace Workbench.Syntax

open Lang (UnaryOp BinaryOp)

namespace Expr.Derives

variable {p : Precedence} {m : Nat} {before middle after : Words} {e lhs rhs : Expr}
  {op : BinaryOp}

/-- Everything derives from the free grammar. -/
theorem to_free (h : Expr.Derives .standard m before after e) :
    Expr.Derives .free 1 before after e := by
  induction h using Expr.Derives.induction with
  | int => exact .int
  | bool => exact .bool
  | name => exact .name
  | callNone => exact .callNone
  | call _ args => exact .call (args.imp fun _ _ _ ⟨_, ih⟩ => ih)
  | parens _ ih => exact .parens ih
  | unary _ ih => exact .unary ih
  | binary _ _ _ left right => exact .binary (Nat.le_add_left 1 _) left right

/-! ### Putting operators in -/

/-- An operator and an operand behind it go on with an expression whose operators are not stronger
than allowed. -/
theorem snoc (h : Expr.Derives .standard m before (binaryWord op :: middle) lhs)
    (operand : ∀ k, Expr.Derives .standard k middle after rhs) (le : m ≤ level op) :
    ∃ e, Expr.Derives .standard m before after e := by
  have whole {m : Nat} {before : Words} {lhs : Expr} (le : m ≤ level op)
      (left : Expr.Derives .standard (level op) before (binaryWord op :: middle) lhs) :
      ∃ e, Expr.Derives .standard m before after e :=
    ⟨_, .binary le left (operand _)⟩
  generalize ends : binaryWord op :: middle = words at h
  induction h using Expr.Derives.induction with
  | int => subst ends; exact whole le .int
  | bool => subst ends; exact whole le .bool
  | name => subst ends; exact whole le .name
  | callNone => subst ends; exact whole le .callNone
  | call each => subst ends; exact whole le (.call each)
  | parens inner => subst ends; exact whole le (.parens inner)
  | unary inner => subst ends; exact whole le (.unary inner)
  | @binary _ op' _ _ _ _ _ weak left right _ ihr =>
      by_cases stronger : level op ≤ level op'
      · subst ends
        exact whole le (.binary stronger left right)
      · obtain ⟨rhs', further⟩ := ihr (by simp only [Precedence.standard]; omega) ends
        exact ⟨_, .binary weak left further⟩

/-- An operator joins two expressions. -/
theorem join (left : Expr.Derives .standard 1 before (binaryWord op :: middle) lhs)
    (right : Expr.Derives .standard m middle after rhs) :
    ∃ e, Expr.Derives .standard 1 before after e := by
  have positive (op : BinaryOp) : 1 ≤ level op := Nat.le_add_left 1 _
  induction right using Expr.Derives.induction generalizing before op lhs with
  | int => exact left.snoc (fun _ => .int) (positive op)
  | bool => exact left.snoc (fun _ => .bool) (positive op)
  | name => exact left.snoc (fun _ => .name) (positive op)
  | callNone => exact left.snoc (fun _ => .callNone) (positive op)
  | call each => exact left.snoc (fun _ => .call each) (positive op)
  | parens inner => exact left.snoc (fun _ => .parens inner) (positive op)
  | unary inner => exact left.snoc (fun _ => .unary inner) (positive op)
  | binary _ _ _ ihl ihr =>
      obtain ⟨e, first⟩ := ihl left
      exact ihr first

/-- An operator in front of an expression goes to its first operand. -/
theorem prepend (u : UnaryOp) (h : Expr.Derives .standard m before after e) :
    ∃ e, Expr.Derives .standard m (unaryWord u :: before) after e := by
  induction h using Expr.Derives.induction with
  | int => exact ⟨_, .unary .int⟩
  | bool => exact ⟨_, .unary .bool⟩
  | name => exact ⟨_, .unary .name⟩
  | callNone => exact ⟨_, .unary .callNone⟩
  | call each => exact ⟨_, .unary (.call each)⟩
  | parens inner => exact ⟨_, .unary (.parens inner)⟩
  | unary inner => exact ⟨_, .unary (.unary inner)⟩
  | binary weak _ right ihl =>
      obtain ⟨lhs, left⟩ := ihl
      exact ⟨_, .binary weak left right⟩

/-- Words of an expression have a tree that respects precedence. -/
theorem exists_standard (h : Expr.Derives .free m before after e) :
    ∃ e, Expr.Derives .standard 1 before after e := by
  induction h using Expr.Derives.induction with
  | int => exact ⟨_, .int⟩
  | bool => exact ⟨_, .bool⟩
  | name => exact ⟨_, .name⟩
  | callNone => exact ⟨_, .callNone⟩
  | call _ args =>
      obtain ⟨args, derived⟩ := args.choose fun _ _ _ ⟨_, ih⟩ => ih
      exact ⟨_, .call derived⟩
  | parens _ ih =>
      obtain ⟨e, inner⟩ := ih
      exact ⟨e, .parens inner⟩
  | @unary _ op _ _ _ _ ih =>
      obtain ⟨e, inner⟩ := ih
      exact inner.prepend op
  | binary _ _ _ ihl ihr =>
      obtain ⟨lhs, left⟩ := ihl
      obtain ⟨rhs, right⟩ := ihr
      exact left.join right

end Expr.Derives

/-! ### Statements and declarations -/

section

variable {p q : Precedence} {before after : Words}
  (each : ∀ {before after e}, Expr.Derives p 1 before after e →
    ∃ e, Expr.Derives q 1 before after e)

include each

theorem Stmt.Derives.transfer {s : Stmt} (h : Stmt.Derives p before after s) :
    ∃ s, Stmt.Derives q before after s := by
  have block {before after : Words} {stmts : List Stmt}
      (inner : Sequence (fun before after s =>
        ∃ _ : Stmt.Derives p before after s, ∃ s, Stmt.Derives q before after s)
        before after stmts) : ∃ stmts, Sequence (Stmt.Derives q) before after stmts :=
    inner.choose fun _ _ _ ⟨_, ih⟩ => ih
  induction h using Stmt.Derives.induction with
  | letIn h =>
      obtain ⟨value, derived⟩ := each h
      exact ⟨_, .letIn derived⟩
  | assign h =>
      obtain ⟨value, derived⟩ := each h
      exact ⟨_, .assign derived⟩
  | ifThen h _ inner =>
      obtain ⟨cond, derived⟩ := each h
      obtain ⟨yes, derivedYes⟩ := block inner
      exact ⟨_, .ifThen derived derivedYes⟩
  | ifElse h _ _ inner other =>
      obtain ⟨cond, derived⟩ := each h
      obtain ⟨yes, derivedYes⟩ := block inner
      obtain ⟨no, derivedNo⟩ := block other
      exact ⟨_, .ifElse derived derivedYes derivedNo⟩
  | elseIf h _ _ inner ih =>
      obtain ⟨cond, derived⟩ := each h
      obtain ⟨yes, derivedYes⟩ := block inner
      obtain ⟨nested, derivedNo⟩ := ih
      exact ⟨_, .elseIf derived derivedYes derivedNo⟩
  | whileDo h _ inner =>
      obtain ⟨cond, derived⟩ := each h
      obtain ⟨body, derivedBody⟩ := block inner
      exact ⟨_, .whileDo derived derivedBody⟩
  | returns => exact ⟨_, .returns⟩
  | returnsValue h =>
      obtain ⟨value, derived⟩ := each h
      exact ⟨_, .returnsValue derived⟩
  | require h =>
      obtain ⟨cond, derived⟩ := each h
      exact ⟨_, .require derived⟩
  | eval h =>
      obtain ⟨value, derived⟩ := each h
      exact ⟨_, .eval derived⟩

theorem Members.transfer {storage : List StorageDecl} {functions : List FunctionDecl}
    (h : Members p before after storage functions) :
    ∃ functions, Members q before after storage functions := by
  induction h with
  | nil => exact ⟨_, .nil⟩
  | storage d _ ih =>
      obtain ⟨functions, rest⟩ := ih
      exact ⟨_, .storage d rest⟩
  | function f _ ih =>
      obtain ⟨functions, rest⟩ := ih
      obtain ⟨params, ⟨stmts⟩⟩ := f
      obtain ⟨stmts, derived⟩ := stmts.choose fun _ _ _ h => h.transfer each
      exact ⟨_, .function (.mk params (.mk derived)) rest⟩

theorem Contract.Derives.transfer {words : Words} {c : Contract} (h : Contract.Derives p words c) :
    ∃ c, Contract.Derives q words c := by
  obtain ⟨members⟩ := h
  obtain ⟨functions, derived⟩ := members.transfer each
  exact ⟨_, .mk derived⟩

end

/-- The words of a contract are the same with and without regard to precedence. -/
theorem exists_free_iff_exists_standard (words : Words) :
    (∃ c, Contract.Derives .free words c) ↔ ∃ c, Contract.Derives .standard words c :=
  ⟨fun ⟨_, h⟩ => h.transfer fun inner => inner.exists_standard,
    fun ⟨_, h⟩ => h.transfer fun inner => ⟨_, inner.to_free⟩⟩

end Workbench.Syntax
