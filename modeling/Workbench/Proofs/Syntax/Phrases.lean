import Workbench.Proofs.Syntax.Grammar

/-!
# How phrases begin, and how long they are

The word that a phrase begins with tells a reader with one word of lookahead what to read, and that
no phrase is empty bounds the number of phrases by the number of words. For a statement that begins
with a name the second word decides.
-/

namespace Workbench.Syntax

/-! ### First words -/

variable {p : Precedence} {m : Nat} {before after : Words} {e : Expr}

/-- The kinds of word that expressions begin with. -/
def beginsExpr : Token.Kind → Bool
  | .intLiteral | .boolLiteral | .ident | .symbol .lparen | .symbol .minus | .symbol .bang => true
  | _ => false

theorem Expr.Derives.begins (h : Expr.Derives p m before after e) :
    beginsExpr (headKind before) = true := by
  induction h using Expr.Derives.induction with
  | int => rfl
  | bool => rfl
  | name => rfl
  | callNone => rfl
  | call => rfl
  | parens => rfl
  | @unary _ op => cases op <;> rfl
  | binary _ _ _ left => exact left

theorem Expr.Derives.begins_ne (h : Expr.Derives p m before after e) {kind : Token.Kind}
    (other : beginsExpr kind = false) : headKind before ≠ kind := by
  rintro rfl
  rw [h.begins] at other
  cases other

/-- An assignment sign behind the name that an expression begins with ends the expression. -/
theorem Expr.Derives.second (h : Expr.Derives p m before after e)
    (name : headKind before = .ident) (sign : headKind before.tail = .symbol .assign) :
    headKind after = .symbol .assign := by
  induction h using Expr.Derives.induction with
  | int => cases name
  | bool => cases name
  | name => exact sign
  | callNone => cases sign
  | call => cases sign
  | parens => cases name
  | @unary _ op => cases op <;> cases name
  | @binary _ op _ _ _ _ _ _ _ _ left =>
      have none := left name sign
      cases op <;> cases none

/-- The kinds of word that statements begin with. -/
def beginsStmt : Token.Kind → Bool
  | .keyword .letIn | .keyword .ifThen | .keyword .whileDo | .keyword .returns
  | .keyword .require => true
  | kind => beginsExpr kind

theorem beginsStmt_of_beginsExpr {kind : Token.Kind} (h : beginsExpr kind = true) :
    beginsStmt kind = true := by
  unfold beginsStmt
  split <;> trivial

theorem Stmt.Derives.begins {s : Stmt} (h : Stmt.Derives p before after s) :
    beginsStmt (headKind before) = true := by
  cases h with
  | eval h => exact beginsStmt_of_beginsExpr h.begins
  | _ => rfl

theorem Stmt.Derives.begins_ne {s : Stmt} (h : Stmt.Derives p before after s) {kind : Token.Kind}
    (other : beginsStmt kind = false) : headKind before ≠ kind := by
  rintro rfl
  rw [h.begins] at other
  cases other

theorem StorageDecl.Derives.begins {d : StorageDecl} (h : StorageDecl.Derives before after d) :
    headKind before = .keyword .storage := by
  cases h
  rfl

theorem FunctionDecl.Derives.begins {f : FunctionDecl} (h : FunctionDecl.Derives p before after f) :
    headKind before = .keyword .function := by
  cases h
  rfl

/-! ### Lengths -/

section

variable {α : Type} {R : Words → Words → α → Prop} {xs : List α}
  (each : ∀ before after x, R before after x → after.length < before.length)

include each

theorem Sequence.length_le (h : Sequence R before after xs) :
    after.length + xs.length ≤ before.length := by
  induction h with
  | nil => simp
  | cons first _ ih =>
      have := each _ _ _ first
      rw [List.length_cons]
      omega

theorem Separated.length_le (h : Separated R before after xs) :
    after.length + xs.length ≤ before.length := by
  induction h with
  | last only => exact each _ _ _ only
  | more first _ ih =>
      have := each _ _ _ first
      rw [List.length_cons] at this ⊢
      omega

theorem Arguments.length_le (h : Arguments R before after xs) :
    after.length + xs.length ≤ before.length := by
  cases h with
  | none => simp
  | some h => exact h.length_le each

end

theorem Expr.Derives.length_lt (h : Expr.Derives p m before after e) :
    after.length < before.length := by
  induction h using Expr.Derives.induction with
  | int | bool | name => simp
  | callNone => simp only [List.length_cons]; omega
  | call _ args =>
      have := args.length_le fun _ _ _ ⟨_, ih⟩ => ih
      simp only [List.length_cons] at this ⊢
      omega
  | parens _ ih =>
      simp only [List.length_cons] at ih ⊢
      omega
  | unary _ ih =>
      rw [List.length_cons]
      omega
  | binary _ _ _ left right =>
      rw [List.length_cons] at left
      omega

theorem Stmt.Derives.length_lt {s : Stmt} (h : Stmt.Derives p before after s) :
    after.length < before.length := by
  have block {before after : Words} {stmts : List Stmt}
      (inner : Sequence (fun before after s =>
        ∃ _ : Stmt.Derives p before after s, after.length < before.length) before after stmts) :
      after.length ≤ before.length := by
    have := inner.length_le fun _ _ _ ⟨_, ih⟩ => ih
    omega
  induction h using Stmt.Derives.induction with
  | letIn h | assign h | returnsValue h | require h | eval h =>
      have := h.length_lt
      simp only [List.length_cons, List.length_append] at this ⊢
      omega
  | ifThen h _ inner | whileDo h _ inner =>
      have := h.length_lt
      have := block inner
      simp only [List.length_cons] at *
      omega
  | ifElse h _ _ inner other =>
      have := h.length_lt
      have := block inner
      have := block other
      simp only [List.length_cons] at *
      omega
  | elseIf h _ _ inner ih =>
      have := h.length_lt
      have := block inner
      simp only [List.length_cons] at *
      omega
  | returns => simp only [List.length_cons]; omega

theorem Param.Derives.length_lt {x : Param} (h : Param.Derives before after x) :
    after.length < before.length := by
  cases h
  simp only [List.length_cons]
  omega

theorem FunctionDecl.Derives.length_lt {f : FunctionDecl}
    (h : FunctionDecl.Derives p before after f) : after.length < before.length := by
  cases h with
  | mk args block =>
    cases block with
    | mk stmts =>
      have params := args.length_le fun _ _ _ h => h.length_lt
      have inner := stmts.length_le fun _ _ _ h => h.length_lt
      simp only [List.length_cons, List.length_append] at *
      omega

theorem Members.length_le {storage : List StorageDecl} {functions : List FunctionDecl}
    (h : Members p before after storage functions) :
    after.length + (storage.length + functions.length) ≤ before.length := by
  induction h with
  | nil => simp
  | storage d _ ih =>
      cases d
      simp only [List.length_cons]
      omega
  | function f _ ih =>
      have := f.length_lt
      rw [List.length_cons]
      omega

end Workbench.Syntax
