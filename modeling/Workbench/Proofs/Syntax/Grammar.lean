import Workbench.Proofs.Syntax.Reads

/-!
# The grammar

The grammar of contracts, as relations between words and trees. `X.Derives before after x` says that
the words `before` are those of a phrase followed by the words `after`, and that `x` is the tree of
the phrase. No rule looks at a word of `after`. Trees are described without their places.

The grammar itself says nothing about the strength of operators. Which operands an operator accepts
is left to a `Precedence`: the free one accepts all of them, so `1 + 2 * 3` has two trees, and the
standard one leaves one tree, in which operators associate to the left and stronger ones are further
down.
-/

namespace Workbench.Syntax

open Source (Span)
open Lang (ValueType UnaryOp BinaryOp)

abbrev Words := List Wording

/-! ### Words -/

/-- The word for a type. -/
def typeWord : ValueType → Wording
  | .i32 => .keyword .i32
  | .bool => .keyword .bool

/-- The word for an operator in front of its operand. -/
def unaryWord : UnaryOp → Wording
  | .neg => .symbol .minus
  | .not => .symbol .bang

/-- The word for an operator between its operands. -/
def binaryWord : BinaryOp → Wording
  | .add => .symbol .plus
  | .sub => .symbol .minus
  | .mul => .symbol .star
  | .div => .symbol .slash
  | .rem => .symbol .percent
  | .eq => .symbol .eqEq
  | .ne => .symbol .notEq
  | .lt => .symbol .less
  | .le => .symbol .lessEq
  | .gt => .symbol .greater
  | .ge => .symbol .greaterEq
  | .and => .symbol .andAnd
  | .or => .symbol .orOr

/-! ### Trees without places -/

/-- The place of everything in a tree without places. -/
def nowhere : Span := ⟨0, 0⟩

def Name.bare (name : Name) : Name := ⟨name.text, nowhere⟩

mutual

def Expr.bare : Expr → Expr
  | .int value _ => .int value nowhere
  | .bool value _ => .bool value nowhere
  | .name text _ => .name text nowhere
  | .call callee args _ => .call callee.bare (bareArgs args) nowhere
  | .unary op operand _ => .unary op operand.bare nowhere
  | .binary op lhs rhs _ => .binary op lhs.bare rhs.bare nowhere

def bareArgs : List Expr → List Expr
  | [] => []
  | e :: rest => e.bare :: bareArgs rest

end

mutual

def Stmt.bare : Stmt → Stmt
  | .letIn name type value _ => .letIn name.bare type value.bare nowhere
  | .assign target value _ => .assign target.bare value.bare nowhere
  | .ifThen cond yes none _ => .ifThen cond.bare yes.bare none nowhere
  | .ifThen cond yes (some no) _ => .ifThen cond.bare yes.bare (some no.bare) nowhere
  | .whileDo cond body _ => .whileDo cond.bare body.bare nowhere
  | .returns value _ => .returns (value.map Expr.bare) nowhere
  | .require cond _ => .require cond.bare nowhere
  | .eval value _ => .eval value.bare nowhere

def Block.bare : Block → Block
  | .mk stmts _ => .mk (bareStmts stmts) nowhere

def bareStmts : List Stmt → List Stmt
  | [] => []
  | s :: rest => s.bare :: bareStmts rest

end

def StorageDecl.bare (d : StorageDecl) : StorageDecl := ⟨d.name.bare, d.type, nowhere⟩

def Param.bare (x : Param) : Param := ⟨x.name.bare, x.type⟩

def FunctionDecl.bare (f : FunctionDecl) : FunctionDecl :=
  ⟨f.name.bare, f.params.map Param.bare, f.result, f.isPublic, f.isView, f.body.bare, nowhere⟩

def Contract.bare (c : Contract) : Contract :=
  ⟨c.name.bare, c.storage.map StorageDecl.bare, c.functions.map FunctionDecl.bare, nowhere⟩

theorem bareArgs_eq (args : List Expr) : bareArgs args = args.map Expr.bare := by
  induction args with
  | nil => rfl
  | cons e rest ih => rw [bareArgs, ih, List.map_cons]

theorem bareStmts_eq (stmts : List Stmt) : bareStmts stmts = stmts.map Stmt.bare := by
  induction stmts with
  | nil => rfl
  | cons s rest ih => rw [bareStmts, ih, List.map_cons]

@[simp] theorem Expr.bare_withSpan (e : Expr) (span : Span) : (e.withSpan span).bare = e.bare := by
  cases e <;> rfl

/-! ### Repetition -/

section

variable {α β : Type}

/-- Phrases one behind the other. -/
inductive Sequence (R : Words → Words → α → Prop) : Words → Words → List α → Prop
  | nil {after : Words} : Sequence R after after []
  | cons {before middle after : Words} {x : α} {xs : List α} :
      R before middle x → Sequence R middle after xs → Sequence R before after (x :: xs)

/-- Phrases, at least one, with a comma between each and the next. -/
inductive Separated (R : Words → Words → α → Prop) : Words → Words → List α → Prop
  | last {before after : Words} {x : α} : R before after x → Separated R before after [x]
  | more {before middle after : Words} {x : α} {xs : List α} :
      R before (.symbol .comma :: middle) x → Separated R middle after xs →
      Separated R before after (x :: xs)

/-- Any number of phrases, with a comma between each and the next. -/
inductive Arguments (R : Words → Words → α → Prop) : Words → Words → List α → Prop
  | none {after : Words} : Arguments R after after []
  | some {before after : Words} {xs : List α} :
      Separated R before after xs → Arguments R before after xs

variable {R S : Words → Words → α → Prop} {before after : Words} {xs : List α}

theorem Sequence.imp (h : Sequence R before after xs)
    (each : ∀ before after x, R before after x → S before after x) :
    Sequence S before after xs := by
  induction h with
  | nil => exact .nil
  | cons first _ ih => exact .cons (each _ _ _ first) ih

theorem Separated.imp (h : Separated R before after xs)
    (each : ∀ before after x, R before after x → S before after x) :
    Separated S before after xs := by
  induction h with
  | last only => exact .last (each _ _ _ only)
  | more first _ ih => exact .more (each _ _ _ first) ih

/-- Where each phrase has some tree, the phrases have trees. -/
theorem Sequence.choose (h : Sequence R before after xs)
    (each : ∀ before after x, R before after x → ∃ y, S before after y) :
    ∃ ys, Sequence S before after ys := by
  induction h with
  | nil => exact ⟨[], .nil⟩
  | cons first _ ih =>
      obtain ⟨y, first⟩ := each _ _ _ first
      obtain ⟨ys, rest⟩ := ih
      exact ⟨y :: ys, .cons first rest⟩

theorem Separated.choose (h : Separated R before after xs)
    (each : ∀ before after x, R before after x → ∃ y, S before after y) :
    ∃ ys, Separated S before after ys := by
  induction h with
  | last only =>
      obtain ⟨y, only⟩ := each _ _ _ only
      exact ⟨[y], .last only⟩
  | more first _ ih =>
      obtain ⟨y, first⟩ := each _ _ _ first
      obtain ⟨ys, rest⟩ := ih
      exact ⟨y :: ys, .more first rest⟩

end

/-! ### Expressions -/

/-- The operators between two operands, the weakest first. Those of one level are equally strong. -/
def levels : List (List BinaryOp) :=
  [[.or], [.and], [.eq, .ne], [.lt, .le, .gt, .ge], [.add, .sub], [.mul, .div, .rem]]

/-- How strong an operator is. -/
def level (op : BinaryOp) : Nat :=
  levels.findIdx (·.contains op) + 1

theorem level_eq_strength (op : BinaryOp) : level op = op.strength := by
  cases op <;> rfl

/-- What operators accept as operands: expressions whose outermost operators have at least a given
strength. -/
structure Precedence where
  left : BinaryOp → Nat
  right : BinaryOp → Nat
  /-- What an operator in front of its operand accepts. -/
  operand : Nat

/-- All operators accept everything. -/
def Precedence.free : Precedence := ⟨fun _ => 1, fun _ => 1, 1⟩

/-- Operators of one strength associate to the left, and an operator in front of its operand accepts
no other operator below it. -/
def Precedence.standard : Precedence := ⟨level, fun op => level op + 1, levels.length + 1⟩

/-- An expression, in which an operator of less than a given strength only stands in parentheses or
below a stronger one. Parentheses leave no node. -/
inductive Expr.Derives (p : Precedence) : Nat → Words → Words → Expr → Prop
  | int {least : Nat} {text : String} {after : Words} :
      Derives p least (⟨.intLiteral, text⟩ :: after) after (.int (literalValue text) nowhere)
  | bool {least : Nat} {text : String} {after : Words} :
      Derives p least (⟨.boolLiteral, text⟩ :: after) after (.bool (text == "true") nowhere)
  | name {least : Nat} {text : String} {after : Words} :
      Derives p least (.ident text :: after) after (.name text nowhere)
  | callNone {least : Nat} {text : String} {after : Words} :
      Derives p least (.ident text :: .symbol .lparen :: .symbol .rparen :: after) after
        (.call ⟨text, nowhere⟩ [] nowhere)
  | call {least : Nat} {text : String} {before after : Words} {args : List Expr} :
      Separated (Derives p 1) before (.symbol .rparen :: after) args →
      Derives p least (.ident text :: .symbol .lparen :: before) after
        (.call ⟨text, nowhere⟩ args nowhere)
  | parens {least : Nat} {before after : Words} {e : Expr} :
      Derives p 1 before (.symbol .rparen :: after) e →
      Derives p least (.symbol .lparen :: before) after e
  | unary {least : Nat} {op : UnaryOp} {before after : Words} {e : Expr} :
      Derives p p.operand before after e →
      Derives p least (unaryWord op :: before) after (.unary op e nowhere)
  | binary {least : Nat} {op : BinaryOp} {before middle after : Words} {lhs rhs : Expr} :
      least ≤ level op → Derives p (p.left op) before (binaryWord op :: middle) lhs →
      Derives p (p.right op) middle after rhs →
      Derives p least before after (.binary op lhs rhs nowhere)

/-- Induction over derivations of expressions, through the arguments of calls. -/
theorem Expr.Derives.induction {p : Precedence}
    {motive : ∀ least before after e, Expr.Derives p least before after e → Prop}
    (int : ∀ {least text after}, motive least _ _ _ (@Expr.Derives.int p least text after))
    (bool : ∀ {least text after}, motive least _ _ _ (@Expr.Derives.bool p least text after))
    (name : ∀ {least text after}, motive least _ _ _ (@Expr.Derives.name p least text after))
    (callNone : ∀ {least text after},
      motive least _ _ _ (@Expr.Derives.callNone p least text after))
    (call : ∀ {least text before after args}
      (each : Separated (Expr.Derives p 1) before (.symbol .rparen :: after) args),
      Separated (fun before after e => ∃ h : Expr.Derives p 1 before after e, motive 1 _ _ _ h)
        before (.symbol .rparen :: after) args →
      motive least _ _ _ (@Expr.Derives.call p least text before after args each))
    (parens : ∀ {least before after e}
      (inner : Expr.Derives p 1 before (.symbol .rparen :: after) e),
      motive 1 _ _ _ inner → motive least _ _ _ (.parens inner))
    (unary : ∀ {least op before after e} (inner : Expr.Derives p p.operand before after e),
      motive _ _ _ _ inner →
      motive least _ _ _ (@Expr.Derives.unary p least op before after e inner))
    (binary : ∀ {least op before middle after lhs rhs} (le : least ≤ level op)
      (left : Expr.Derives p (p.left op) before (binaryWord op :: middle) lhs)
      (right : Expr.Derives p (p.right op) middle after rhs),
      motive _ _ _ _ left → motive _ _ _ _ right → motive least _ _ _ (.binary le left right))
    {least : Nat} {before after : Words} {e : Expr} (h : Expr.Derives p least before after e) :
    motive least before after e h :=
  @Expr.Derives.rec p motive
    (fun before after args _ => Separated
      (fun before after e => ∃ h : Expr.Derives p 1 before after e, motive 1 _ _ _ h)
      before after args)
    int bool name callNone call parens unary binary
    (fun only ih => .last ⟨only, ih⟩) (fun first _ ih ihs => .more ⟨first, ih⟩ ihs)
    least before after e h

/-- A call, with or without arguments. -/
theorem Expr.Derives.of_arguments {p : Precedence} {least : Nat} {text : String}
    {before after : Words} {args : List Expr}
    (h : Arguments (Expr.Derives p 1) before (.symbol .rparen :: after) args) :
    Expr.Derives p least (.ident text :: .symbol .lparen :: before) after
      (.call ⟨text, nowhere⟩ args nowhere) := by
  cases h with
  | none => exact .callNone
  | some each => exact .call each

/-- What is derived with a strength is derived with any lower one. -/
theorem Expr.Derives.weaken {p : Precedence} {m k : Nat} {before after : Words} {e : Expr}
    (h : Expr.Derives p m before after e) (le : k ≤ m) : Expr.Derives p k before after e := by
  cases h with
  | int => exact .int
  | bool => exact .bool
  | name => exact .name
  | callNone => exact .callNone
  | call each => exact .call each
  | parens inner => exact .parens inner
  | unary inner => exact .unary inner
  | binary weak left right => exact .binary (Nat.le_trans le weak) left right

/-! ### Statements -/

/-- The words of a type behind the name of a variable. -/
def ascription : Option ValueType → Words
  | none => []
  | some type => [.symbol .colon, typeWord type]

/-- A statement. Behind `else` stands a block or another conditional, which makes up a block then.
-/
inductive Stmt.Derives (p : Precedence) : Words → Words → Stmt → Prop
  | letIn {text : String} {type : Option ValueType} {before after : Words} {value : Expr} :
      Expr.Derives p 1 before (.symbol .semi :: after) value →
      Derives p
        (.keyword .letIn :: .ident text :: (ascription type ++ .symbol .assign :: before)) after
        (.letIn ⟨text, nowhere⟩ type value nowhere)
  | assign {text : String} {before after : Words} {value : Expr} :
      Expr.Derives p 1 before (.symbol .semi :: after) value →
      Derives p (.ident text :: .symbol .assign :: before) after
        (.assign ⟨text, nowhere⟩ value nowhere)
  | ifThen {before middle after : Words} {cond : Expr} {yes : List Stmt} :
      Expr.Derives p 1 before (.symbol .rparen :: .symbol .lbrace :: middle) cond →
      Sequence (Derives p) middle (.symbol .rbrace :: after) yes →
      Derives p (.keyword .ifThen :: .symbol .lparen :: before) after
        (.ifThen cond (.mk yes nowhere) none nowhere)
  | ifElse {before middle other after : Words} {cond : Expr} {yes no : List Stmt} :
      Expr.Derives p 1 before (.symbol .rparen :: .symbol .lbrace :: middle) cond →
      Sequence (Derives p) middle
        (.symbol .rbrace :: .keyword .elseThen :: .symbol .lbrace :: other) yes →
      Sequence (Derives p) other (.symbol .rbrace :: after) no →
      Derives p (.keyword .ifThen :: .symbol .lparen :: before) after
        (.ifThen cond (.mk yes nowhere) (some (.mk no nowhere)) nowhere)
  | elseIf {before middle other after : Words} {cond : Expr} {yes : List Stmt} {nested : Stmt} :
      Expr.Derives p 1 before (.symbol .rparen :: .symbol .lbrace :: middle) cond →
      Sequence (Derives p) middle
        (.symbol .rbrace :: .keyword .elseThen :: .keyword .ifThen :: other) yes →
      Derives p (.keyword .ifThen :: other) after nested →
      Derives p (.keyword .ifThen :: .symbol .lparen :: before) after
        (.ifThen cond (.mk yes nowhere) (some (.mk [nested] nowhere)) nowhere)
  | whileDo {before middle after : Words} {cond : Expr} {body : List Stmt} :
      Expr.Derives p 1 before (.symbol .rparen :: .symbol .lbrace :: middle) cond →
      Sequence (Derives p) middle (.symbol .rbrace :: after) body →
      Derives p (.keyword .whileDo :: .symbol .lparen :: before) after
        (.whileDo cond (.mk body nowhere) nowhere)
  | returns {after : Words} :
      Derives p (.keyword .returns :: .symbol .semi :: after) after (.returns none nowhere)
  | returnsValue {before after : Words} {value : Expr} :
      Expr.Derives p 1 before (.symbol .semi :: after) value →
      Derives p (.keyword .returns :: before) after (.returns (some value) nowhere)
  | require {before after : Words} {cond : Expr} :
      Expr.Derives p 1 before (.symbol .rparen :: .symbol .semi :: after) cond →
      Derives p (.keyword .require :: .symbol .lparen :: before) after (.require cond nowhere)
  | eval {before after : Words} {value : Expr} :
      Expr.Derives p 1 before (.symbol .semi :: after) value →
      Derives p before after (.eval value nowhere)

/-- Induction over derivations of statements, through the statements in blocks. -/
theorem Stmt.Derives.induction {p : Precedence}
    {motive : ∀ before after s, Stmt.Derives p before after s → Prop}
    (letIn : ∀ {text type before after value}
      (h : Expr.Derives p 1 before (.symbol .semi :: after) value),
      motive _ _ _ (@Stmt.Derives.letIn p text type before after value h))
    (assign : ∀ {text before after value}
      (h : Expr.Derives p 1 before (.symbol .semi :: after) value),
      motive _ _ _ (@Stmt.Derives.assign p text before after value h))
    (ifThen : ∀ {before middle after cond yes}
      (h : Expr.Derives p 1 before (.symbol .rparen :: .symbol .lbrace :: middle) cond)
      (inner : Sequence (Stmt.Derives p) middle (.symbol .rbrace :: after) yes),
      Sequence (fun before after s => ∃ h : Stmt.Derives p before after s, motive _ _ _ h)
        middle (.symbol .rbrace :: after) yes →
      motive _ _ _ (.ifThen h inner))
    (ifElse : ∀ {before middle other after cond yes no}
      (h : Expr.Derives p 1 before (.symbol .rparen :: .symbol .lbrace :: middle) cond)
      (inner : Sequence (Stmt.Derives p) middle
        (.symbol .rbrace :: .keyword .elseThen :: .symbol .lbrace :: other) yes)
      (inner' : Sequence (Stmt.Derives p) other (.symbol .rbrace :: after) no),
      Sequence (fun before after s => ∃ h : Stmt.Derives p before after s, motive _ _ _ h)
        middle (.symbol .rbrace :: .keyword .elseThen :: .symbol .lbrace :: other) yes →
      Sequence (fun before after s => ∃ h : Stmt.Derives p before after s, motive _ _ _ h)
        other (.symbol .rbrace :: after) no →
      motive _ _ _ (.ifElse h inner inner'))
    (elseIf : ∀ {before middle other after cond yes nested}
      (h : Expr.Derives p 1 before (.symbol .rparen :: .symbol .lbrace :: middle) cond)
      (inner : Sequence (Stmt.Derives p) middle
        (.symbol .rbrace :: .keyword .elseThen :: .keyword .ifThen :: other) yes)
      (inner' : Stmt.Derives p (.keyword .ifThen :: other) after nested),
      Sequence (fun before after s => ∃ h : Stmt.Derives p before after s, motive _ _ _ h)
        middle (.symbol .rbrace :: .keyword .elseThen :: .keyword .ifThen :: other) yes →
      motive _ _ _ inner' → motive _ _ _ (.elseIf h inner inner'))
    (whileDo : ∀ {before middle after cond body}
      (h : Expr.Derives p 1 before (.symbol .rparen :: .symbol .lbrace :: middle) cond)
      (inner : Sequence (Stmt.Derives p) middle (.symbol .rbrace :: after) body),
      Sequence (fun before after s => ∃ h : Stmt.Derives p before after s, motive _ _ _ h)
        middle (.symbol .rbrace :: after) body →
      motive _ _ _ (.whileDo h inner))
    (returns : ∀ {after}, motive _ _ _ (@Stmt.Derives.returns p after))
    (returnsValue : ∀ {before after value}
      (h : Expr.Derives p 1 before (.symbol .semi :: after) value), motive _ _ _ (.returnsValue h))
    (require : ∀ {before after cond}
      (h : Expr.Derives p 1 before (.symbol .rparen :: .symbol .semi :: after) cond),
      motive _ _ _ (.require h))
    (eval : ∀ {before after value}
      (h : Expr.Derives p 1 before (.symbol .semi :: after) value), motive _ _ _ (.eval h))
    {before after : Words} {s : Stmt} (h : Stmt.Derives p before after s) :
    motive before after s h :=
  @Stmt.Derives.rec p motive
    (fun before after stmts _ => Sequence
      (fun before after s => ∃ h : Stmt.Derives p before after s, motive _ _ _ h)
      before after stmts)
    letIn assign ifThen ifElse elseIf whileDo returns returnsValue require eval
    .nil (fun first _ ih ihs => .cons ⟨first, ih⟩ ihs) before after s h

/-- Statements in braces. -/
inductive Block.Derives (p : Precedence) : Words → Words → Block → Prop
  | mk {before after : Words} {stmts : List Stmt} :
      Sequence (Stmt.Derives p) before (.symbol .rbrace :: after) stmts →
      Derives p (.symbol .lbrace :: before) after (.mk stmts nowhere)

/-! ### Declarations -/

inductive StorageDecl.Derives : Words → Words → StorageDecl → Prop
  | mk {text : String} {type : ValueType} {after : Words} :
      Derives
        (.keyword .storage :: .ident text :: .symbol .colon :: typeWord type :: .symbol .semi ::
          after)
        after ⟨⟨text, nowhere⟩, type, nowhere⟩

inductive Param.Derives : Words → Words → Param → Prop
  | mk {text : String} {type : ValueType} {after : Words} :
      Derives (.ident text :: .symbol .colon :: typeWord type :: after) after
        ⟨⟨text, nowhere⟩, type⟩

/-- A word behind the parameters of a function. -/
inductive Modifier where
  | publicly
  | privately
  | view
  deriving DecidableEq, Repr

namespace Modifier

def word : Modifier → Wording
  | publicly => .keyword .publicly
  | privately => .keyword .privately
  | view => .keyword .view

/-- Whether the last word about it makes a function public. -/
def isPublic (modifiers : List Modifier) : Bool :=
  (modifiers.filter (· != view)).getLast? == some publicly

/-- Whether a function is a view. -/
def isView (modifiers : List Modifier) : Bool :=
  modifiers.contains view

/-- What the words for a function make of what was known of it. -/
def after (modifiers : List Modifier) (flags : Bool × Bool) : Bool × Bool :=
  modifiers.foldl (fun flags modifier =>
    match modifier with
    | publicly => (true, flags.2)
    | privately => (false, flags.2)
    | view => (flags.1, true)) flags

theorem getLast?_cons {m : Modifier} (h : m ≠ view) (rest : List Modifier) :
    ((m :: rest).filter (· != view)).getLast? =
      some ((rest.filter (· != view)).getLast?.getD m) := by
  rw [List.filter_cons_of_pos (by simpa using h), List.getLast?_cons]

theorem after_eq_getD (modifiers : List Modifier) (flags : Bool × Bool) :
    after modifiers flags =
      (((modifiers.filter (· != view)).getLast?.map (· == publicly)).getD flags.1,
        flags.2 || isView modifiers) := by
  induction modifiers generalizing flags with
  | nil => simp [after, isView]
  | cons m rest ih =>
      have step : after (m :: rest) flags = after rest (after [m] flags) := rfl
      rw [step, ih]
      cases m with
      | view => simp [after, isView]
      | publicly | privately =>
          rw [getLast?_cons (by decide)]
          cases (rest.filter (· != view)).getLast? <;> simp [after, isView]

theorem after_eq (modifiers : List Modifier) :
    after modifiers (false, false) = (isPublic modifiers, isView modifiers) := by
  rw [after_eq_getD, isPublic]
  cases (modifiers.filter (· != view)).getLast? <;> simp
end Modifier

/-- The words of a result type. -/
def arrow : Option ValueType → Words
  | none => []
  | some type => [.symbol .arrow, typeWord type]

inductive FunctionDecl.Derives (p : Precedence) : Words → Words → FunctionDecl → Prop
  | mk {text : String} {before middle after : Words} {params : List Param}
      {modifiers : List Modifier} {result : Option ValueType} {body : Block} :
      Arguments Param.Derives before
        (.symbol .rparen :: (modifiers.map Modifier.word ++ (arrow result ++ middle))) params →
      Block.Derives p middle after body →
      Derives p (.keyword .function :: .ident text :: .symbol .lparen :: before) after
        ⟨⟨text, nowhere⟩, params, result, Modifier.isPublic modifiers, Modifier.isView modifiers,
          body, nowhere⟩

/-- Storage variables and functions in any order. -/
inductive Members (p : Precedence) :
    Words → Words → List StorageDecl → List FunctionDecl → Prop
  | nil {after : Words} : Members p after after [] []
  | storage {before middle after : Words} {d : StorageDecl} {storage : List StorageDecl}
      {functions : List FunctionDecl} :
      StorageDecl.Derives before middle d → Members p middle after storage functions →
      Members p before after (d :: storage) functions
  | function {before middle after : Words} {f : FunctionDecl} {storage : List StorageDecl}
      {functions : List FunctionDecl} :
      FunctionDecl.Derives p before middle f → Members p middle after storage functions →
      Members p before after storage (f :: functions)

/-- A whole contract, with nothing behind it. -/
inductive Contract.Derives (p : Precedence) : Words → Contract → Prop
  | mk {text : String} {before : Words} {storage : List StorageDecl}
      {functions : List FunctionDecl} :
      Members p before [.symbol .rbrace] storage functions →
      Derives p (.keyword .contract :: .ident text :: .symbol .lbrace :: before)
        ⟨⟨text, nowhere⟩, storage, functions, nowhere⟩

end Workbench.Syntax
