import Workbench.Proofs.Syntax.Grammar
import Workbench.Proofs.Syntax.Placement

/-!
# What the nodes of a tree are made of

A node is read from tokens and from the nodes below it: `Rule n parts` lists, for every construct of
the language, the parts of a node in the order in which they are written, and says which range the
node gets. Parentheses are parts of the expression that they enclose. `Phrase n own` takes the rules
together: `n` is a tree over the tokens `own`.
-/

namespace Workbench.Syntax

open Source (Span)
open Lang (ValueType UnaryOp BinaryOp)

/-! ### Nodes -/

/-- What has a range in a tree. -/
inductive Node where
  | contract (c : Contract)
  | storage (d : StorageDecl)
  | function (f : FunctionDecl)
  | block (b : Block)
  | stmt (s : Stmt)
  | expr (e : Expr)
  | name (x : Name)

/-- The nodes right below an expression. -/
def Expr.nodes : Expr → List Node
  | .int _ _ | .bool _ _ | .name _ _ => []
  | .call callee args _ => .name callee :: args.map .expr
  | .unary _ operand _ => [.expr operand]
  | .binary _ lhs rhs _ => [.expr lhs, .expr rhs]

@[simp]
theorem Expr.nodes_withSpan (e : Expr) (span : Span) : (e.withSpan span).nodes = e.nodes := by
  cases e <;> rfl

/-- The nodes right below a statement. -/
def Stmt.nodes : Stmt → List Node
  | .letIn name _ value _ => [.name name, .expr value]
  | .assign target value _ => [.name target, .expr value]
  | .ifThen cond yes none _ => [.expr cond, .block yes]
  | .ifThen cond yes (some no) _ => [.expr cond, .block yes, .block no]
  | .whileDo cond body _ => [.expr cond, .block body]
  | .returns none _ => []
  | .returns (some value) _ => [.expr value]
  | .require cond _ => [.expr cond]
  | .eval value _ => [.expr value]

namespace Node

def span : Node → Span
  | contract c => c.span
  | storage d => d.span
  | function f => f.span
  | block b => b.span
  | stmt s => s.span
  | expr e => e.span
  | name x => x.span

/-- The lists of nodes right below a node. Only the declarations of a contract are kept in two
lists. -/
def lists : Node → List (List Node)
  | contract c => [[.name c.name], c.storage.map .storage, c.functions.map .function]
  | storage d => [[.name d.name]]
  | function f => [.name f.name :: f.params.map (.name ·.name) ++ [.block f.body]]
  | block b => [b.stmts.map .stmt]
  | stmt s => [s.nodes]
  | expr e => [e.nodes]
  | name _ => [[]]

/-- All nodes right below a node. -/
def children (n : Node) : List Node :=
  n.lists.flatten

end Node

/-! ### Parts -/

/-- A part of a node: a token of its own, or a node below it with the tokens of that. -/
inductive Part where
  | token (t : Token)
  | phrase (n : Node) (own : List Token)

namespace Part

def tokens : Part → List Token
  | token t => [t]
  | phrase _ own => own

def span : Part → Span
  | token t => t.span
  | phrase n _ => n.span

def node? : Part → Option Node
  | token _ => none
  | phrase n _ => some n

end Part

/-- The nodes among parts. -/
def nodesOf (parts : List Part) : List Node :=
  parts.filterMap Part.node?

section

variable (parts : List Part)

@[simp]
theorem nodesOf_nil : nodesOf [] = [] :=
  rfl

@[simp]
theorem nodesOf_token (t : Token) : nodesOf (.token t :: parts) = nodesOf parts :=
  rfl

@[simp]
theorem nodesOf_phrase (n : Node) (own : List Token) :
    nodesOf (.phrase n own :: parts) = n :: nodesOf parts :=
  rfl

@[simp]
theorem nodesOf_append (rest : List Part) :
    nodesOf (parts ++ rest) = nodesOf parts ++ nodesOf rest :=
  List.filterMap_append

@[simp]
theorem nodesOf_tokens (words : List Token) : nodesOf (words.map .token) = [] := by
  simp [nodesOf, Part.node?]

end

/-! ### Lists of parts -/

/-- Tokens of the kinds that words have. -/
def Spell (tokens : List Token) (words : Words) : Prop :=
  tokens.map Token.kind = words.map Wording.kind

/-- An argument of a call. -/
def Expr.IsArgument (e : Expr) (parts : List Part) : Prop :=
  ∃ own, parts = [.phrase (.expr e) own]

/-- A parameter of a function. Only its name has a range. -/
def Param.IsParameter (x : Param) (parts : List Part) : Prop :=
  ∃ own words, Spell words (ascription (some x.type)) ∧
    parts = .phrase (.name x.name) own :: words.map .token

/-- Items with a comma between each and the next. -/
inductive Listed {α : Type} (item : α → List Part → Prop) : List α → List Part → Prop
  | none : Listed item [] []
  | last {x : α} {parts : List Part} (only : item x parts) : Listed item [x] parts
  | more {x y : α} {xs : List α} {parts rest : List Part} {comma : Token} (first : item x parts)
      (kind : comma.kind = .symbol .comma) (others : Listed item (y :: xs) rest) :
      Listed item (x :: y :: xs) (parts ++ Part.token comma :: rest)

theorem Listed.nodesOf {α : Type} {item : α → List Part → Prop} {f : α → Node}
    (single : ∀ x parts, item x parts → nodesOf parts = [f x]) {xs : List α} {parts : List Part}
    (h : Listed item xs parts) : nodesOf parts = xs.map f := by
  induction h with
  | none => rfl
  | last only => exact single _ _ only
  | more first kind others ih => simp [single _ _ first, ih]

/-- Storage variables and functions in any order. -/
inductive Declared : List StorageDecl → List FunctionDecl → List Part → Prop
  | nil : Declared [] [] []
  | storage {d : StorageDecl} {own : List Token} {storage : List StorageDecl}
      {functions : List FunctionDecl} {parts : List Part}
      (others : Declared storage functions parts) :
      Declared (d :: storage) functions (.phrase (.storage d) own :: parts)
  | function {f : FunctionDecl} {own : List Token} {storage : List StorageDecl}
      {functions : List FunctionDecl} {parts : List Part}
      (others : Declared storage functions parts) :
      Declared storage (f :: functions) (.phrase (.function f) own :: parts)

section

variable {storage : List StorageDecl} {functions : List FunctionDecl} {parts : List Part}

theorem Declared.perm (h : Declared storage functions parts) :
    (storage.map Node.storage ++ functions.map Node.function).Perm (nodesOf parts) := by
  induction h with
  | nil => exact .refl _
  | storage others ih => exact ih.cons _
  | function others ih => exact List.perm_middle.trans (ih.cons _)

theorem Declared.sublist_storage (h : Declared storage functions parts) :
    (storage.map Node.storage).Sublist (nodesOf parts) := by
  induction h with
  | nil => exact .refl _
  | storage others ih => exact ih.cons_cons _
  | function others ih => exact ih.cons _

theorem Declared.sublist_functions (h : Declared storage functions parts) :
    (functions.map Node.function).Sublist (nodesOf parts) := by
  induction h with
  | nil => exact .refl _
  | storage others ih => exact ih.cons _
  | function others ih => exact ih.cons_cons _

end

/-! ### Rules -/

section

open Workbench.Syntax.Part (token phrase)

/-- What a node is made of, one rule for each construct. -/
inductive Rule : Node → List Part → Prop
  | name {t : Token} (kind : t.kind = .ident) : Rule (.name ⟨t.text, t.span⟩) [token t]
  | int {t : Token} (kind : t.kind = .intLiteral) :
      Rule (.expr (.int (literalValue t.text) t.span)) [token t]
  | bool {t : Token} (kind : t.kind = .boolLiteral) :
      Rule (.expr (.bool (t.text == "true") t.span)) [token t]
  | reference {t : Token} (kind : t.kind = .ident) :
      Rule (.expr (.name t.text t.span)) [token t]
  | call {callee : Name} {named : List Token} {args : List Expr} {parts : List Part} {o c : Token}
      (opens : o.kind = .symbol .lparen) (items : Listed Expr.IsArgument args parts)
      (closes : c.kind = .symbol .rparen) :
      Rule (.expr (.call callee args (callee.span.merge c.span)))
        ([phrase (.name callee) named, token o] ++ parts ++ [token c])
  /-- The same expression in parentheses, with a wider range. -/
  | parens {e : Expr} {parts : List Part} {o c : Token} (opens : o.kind = .symbol .lparen)
      (inner : Rule (.expr e) parts) (closes : c.kind = .symbol .rparen) :
      Rule (.expr (e.withSpan (o.span.merge c.span))) ([token o] ++ parts ++ [token c])
  | unary {op : UnaryOp} {e : Expr} {t : Token} {own : List Token}
      (stands : unaryOp? t.kind = some op) :
      Rule (.expr (.unary op e (t.span.merge e.span))) [token t, phrase (.expr e) own]
  | binary {op : BinaryOp} {lhs rhs : Expr} {t : Token} {left right : List Token}
      (stands : binaryOp? t.kind = some op) :
      Rule (.expr (.binary op lhs rhs (lhs.span.merge rhs.span)))
        [phrase (.expr lhs) left, token t, phrase (.expr rhs) right]
  | letIn {name : Name} {type : Option ValueType} {value : Expr} {t a s : Token}
      {named typing own : List Token} (first : t.kind = .keyword .letIn)
      (typed : Spell typing (ascription type)) (assigns : a.kind = .symbol .assign)
      (ends : s.kind = .symbol .semi) :
      Rule (.stmt (.letIn name type value (t.span.merge s.span)))
        ([token t, phrase (.name name) named] ++ typing.map token ++
          [token a, phrase (.expr value) own] ++ [token s])
  | assign {target : Name} {value : Expr} {a s : Token} {named own : List Token}
      (assigns : a.kind = .symbol .assign) (ends : s.kind = .symbol .semi) :
      Rule (.stmt (.assign target value (target.span.merge s.span)))
        [phrase (.name target) named, token a, phrase (.expr value) own, token s]
  | ifThen {cond : Expr} {yes : Block} {t o c : Token} {condition first : List Token}
      (word : t.kind = .keyword .ifThen) (opens : o.kind = .symbol .lparen)
      (closes : c.kind = .symbol .rparen) :
      Rule (.stmt (.ifThen cond yes none (t.span.merge yes.span)))
        [token t, token o, phrase (.expr cond) condition, token c, phrase (.block yes) first]
  | ifElse {cond : Expr} {yes no : Block} {t o c e : Token} {condition first second : List Token}
      (word : t.kind = .keyword .ifThen) (opens : o.kind = .symbol .lparen)
      (closes : c.kind = .symbol .rparen) (other : e.kind = .keyword .elseThen) :
      Rule (.stmt (.ifThen cond yes (some no) ((t.span.merge yes.span).merge no.span)))
        [token t, token o, phrase (.expr cond) condition, token c, phrase (.block yes) first,
          token e, phrase (.block no) second]
  | whileDo {cond : Expr} {body : Block} {t o c : Token} {condition own : List Token}
      (word : t.kind = .keyword .whileDo) (opens : o.kind = .symbol .lparen)
      (closes : c.kind = .symbol .rparen) :
      Rule (.stmt (.whileDo cond body (t.span.merge body.span)))
        [token t, token o, phrase (.expr cond) condition, token c, phrase (.block body) own]
  | returns {t s : Token} (word : t.kind = .keyword .returns) (ends : s.kind = .symbol .semi) :
      Rule (.stmt (.returns none (t.span.merge s.span))) [token t, token s]
  | returnsValue {value : Expr} {t s : Token} {own : List Token}
      (word : t.kind = .keyword .returns) (ends : s.kind = .symbol .semi) :
      Rule (.stmt (.returns (some value) (t.span.merge s.span)))
        [token t, phrase (.expr value) own, token s]
  | require {cond : Expr} {t o c s : Token} {condition : List Token}
      (word : t.kind = .keyword .require) (opens : o.kind = .symbol .lparen)
      (closes : c.kind = .symbol .rparen) (ends : s.kind = .symbol .semi) :
      Rule (.stmt (.require cond (t.span.merge s.span)))
        [token t, token o, phrase (.expr cond) condition, token c, token s]
  /-- The range starts with the first token of the expression. -/
  | eval {value : Expr} {t s : Token} {own : List Token} (first : own.head? = some t)
      (ends : s.kind = .symbol .semi) :
      Rule (.stmt (.eval value (t.span.merge s.span))) [phrase (.expr value) own, token s]
  | block {items : List (Stmt × List Token)} {o c : Token} (opens : o.kind = .symbol .lbrace)
      (closes : c.kind = .symbol .rbrace) :
      Rule (.block ⟨items.map Prod.fst, o.span.merge c.span⟩)
        ([token o] ++ items.map (fun item => phrase (.stmt item.1) item.2) ++ [token c])
  /-- A conditional behind `else` makes up a block without braces. -/
  | chained {cond : Expr} {yes : Block} {no : Option Block} {span : Span} {own : List Token} :
      Rule (.block ⟨[.ifThen cond yes no span], span⟩)
        [phrase (.stmt (.ifThen cond yes no span)) own]
  | storage {name : Name} {type : ValueType} {t s : Token} {named typing : List Token}
      (word : t.kind = .keyword .storage) (typed : Spell typing (ascription (some type)))
      (ends : s.kind = .symbol .semi) :
      Rule (.storage ⟨name, type, t.span.merge s.span⟩)
        ([token t, phrase (.name name) named] ++ typing.map token ++ [token s])
  | function {name : Name} {params : List Param} {result : Option ValueType}
      {modifiers : List Modifier} {body : Block} {t o c : Token} {named words own : List Token}
      {parts : List Part} (word : t.kind = .keyword .function) (opens : o.kind = .symbol .lparen)
      (items : Listed Param.IsParameter params parts) (closes : c.kind = .symbol .rparen)
      (behind : Spell words (modifiers.map Modifier.word ++ arrow result)) :
      Rule (.function ⟨name, params, result, Modifier.isPublic modifiers,
          Modifier.isView modifiers, body, t.span.merge body.span⟩)
        ([token t, phrase (.name name) named, token o] ++ parts ++ [token c] ++
          words.map token ++ [phrase (.block body) own])
  | contract {name : Name} {storage : List StorageDecl} {functions : List FunctionDecl}
      {t o c : Token} {named : List Token} {parts : List Part}
      (word : t.kind = .keyword .contract) (opens : o.kind = .symbol .lbrace)
      (decls : Declared storage functions parts) (closes : c.kind = .symbol .rbrace) :
      Rule (.contract ⟨name, storage, functions, t.span.merge c.span⟩)
        ([token t, phrase (.name name) named, token o] ++ parts ++ [token c])

end

theorem Rule.ne_nil {n : Node} {parts : List Part} (rule : Rule n parts) : parts ≠ [] := by
  cases rule <;> simp

theorem nodesOf_arguments {args : List Expr} {parts : List Part}
    (items : Listed Expr.IsArgument args parts) : nodesOf parts = args.map .expr := by
  apply items.nodesOf
  rintro e parts ⟨own, rfl⟩
  rfl

theorem nodesOf_parameters {params : List Param} {parts : List Part}
    (items : Listed Param.IsParameter params parts) :
    nodesOf parts = params.map (.name ·.name) := by
  apply items.nodesOf
  rintro x parts ⟨own, words, spelled, rfl⟩
  simp

theorem nodesOf_stmts (items : List (Stmt × List Token)) :
    nodesOf (items.map fun item => .phrase (.stmt item.1) item.2) =
      (items.map Prod.fst).map .stmt := by
  induction items with
  | nil => rfl
  | cons item items ih => simp [ih]

/-- The nodes among the parts of a node are those right below it. Where the tree keeps them in one
list, it is in the order of the parts. -/
theorem Rule.lists {n : Node} {parts : List Part} (rule : Rule n parts) :
    n.children.Perm (nodesOf parts) ∧ ∀ l ∈ n.lists, l.Sublist (nodesOf parts) := by
  have single {m : Node} {ms : List Part} (h : m.lists = [nodesOf ms]) :
      m.children.Perm (nodesOf ms) ∧ ∀ l ∈ m.lists, l.Sublist (nodesOf ms) := by
    simp [Node.children, h]
  induction rule with
  | contract word opens decls closes =>
      constructor
      · simpa [Node.children, Node.lists] using decls.perm
      · simp [Node.lists, decls.sublist_storage.cons, decls.sublist_functions.cons]
  | call opens items closes =>
      apply single
      simp [Node.lists, Expr.nodes, nodesOf_arguments items]
  | function word opens items closes behind =>
      apply single
      simp [Node.lists, nodesOf_parameters items]
  | @block items =>
      apply single
      simp [Node.lists, nodesOf_stmts, Block.stmts]
  | parens opens inner closes ih => simpa [Node.children, Node.lists] using ih
  | _ =>
      apply single
      simp [Node.lists, Expr.nodes, Stmt.nodes, Block.stmts]

/-! ### Phrases -/

/-- A node over tokens: it is made of parts by a rule, and each node among the parts is one over its
own tokens. -/
inductive Phrase : Node → List Token → Prop
  | mk {n : Node} {parts : List Part} {own : List Token} (rule : Rule n parts)
      (each : ∀ m theirs, .phrase m theirs ∈ parts → Phrase m theirs)
      (made : own = parts.flatMap Part.tokens) : Phrase n own

/-- A part is what it says: the node is one over the tokens. -/
def Part.Sound : Part → Prop
  | .token _ => True
  | .phrase n own => Phrase n own

@[simp]
theorem Part.sound_token (t : Token) : (Part.token t).Sound :=
  trivial

@[simp]
theorem Part.sound_phrase (n : Node) (own : List Token) :
    (Part.phrase n own).Sound ↔ Phrase n own :=
  Iff.rfl

@[simp]
theorem Part.tokens_token (t : Token) : (Part.token t).tokens = [t] :=
  rfl

@[simp]
theorem Part.tokens_phrase (n : Node) (own : List Token) : (Part.phrase n own).tokens = own :=
  rfl

@[simp]
theorem Part.flatMap_tokens (words : List Token) :
    (words.map Part.token).flatMap Part.tokens = words := by
  simp [List.flatMap_map]

theorem Phrase.of_parts {n : Node} {parts : List Part} {own : List Token} (rule : Rule n parts)
    (sound : ∀ p ∈ parts, p.Sound) (made : parts.flatMap Part.tokens = own) : Phrase n own :=
  .mk rule (fun m theirs known => sound (.phrase m theirs) known) made.symm

/-- Every node is over some token. -/
theorem Phrase.ne_nil {n : Node} {own : List Token} (h : Phrase n own) : own ≠ [] := by
  induction h with
  | @mk n parts own rule each made ih =>
      obtain ⟨p, rest, rfl⟩ := List.exists_cons_of_ne_nil rule.ne_nil
      rw [made, List.flatMap_cons]
      refine List.append_ne_nil_of_left_ne_nil ?_ _
      cases p with
      | token t => exact List.cons_ne_nil t []
      | phrase m theirs => exact ih m theirs List.mem_cons_self

theorem Phrase.name {t : Token} (kind : t.kind = .ident) :
    Phrase (.name ⟨t.text, t.span⟩) [t] :=
  .of_parts (.name kind) (by simp) rfl

/-- Parentheses become part of the expression that they enclose. -/
theorem Phrase.parens {e : Expr} {o c : Token} {own : List Token}
    (opens : o.kind = .symbol .lparen) (inner : Phrase (.expr e) own)
    (closes : c.kind = .symbol .rparen) :
    Phrase (.expr (e.withSpan (o.span.merge c.span))) ([o] ++ own ++ [c]) := by
  cases inner with
  | mk rule each made =>
      refine .mk (.parens opens rule closes) ?_ (by simp [made])
      intro m theirs known
      exact each m theirs (by simpa using known)

/-- A name as an expression is a single token, up to parentheses around it. -/
theorem Phrase.reference {text : String} {span : Span} {own : List Token}
    (h : Phrase (.expr (.name text span)) own) :
    ∃ opens t closes, own = opens ++ t :: closes ∧ t.kind = .ident ∧ t.text = text ∧
      opens.length = closes.length ∧ (∀ o ∈ opens, o.kind = .symbol .lparen) ∧
      ∀ c ∈ closes, c.kind = .symbol .rparen := by
  obtain ⟨rule, -, rfl⟩ := h
  rename_i parts
  generalize node : Node.expr (.name text span) = n at rule
  induction rule generalizing span with
  | @reference t kind =>
      cases node
      exact ⟨[], t, [], rfl, kind, rfl, rfl, by simp, by simp⟩
  | @parens e parts o c open_ inner close ih =>
      have unwidened : Node.expr (.name text e.span) = .expr e := by
        cases e <;> simp_all [Expr.withSpan, Expr.span]
      obtain ⟨opens, t, closes, same, kind, rfl, length, left, right⟩ := ih unwidened
      refine ⟨o :: opens, t, closes ++ [c], by simp [same], kind, rfl, by simp [length], ?_, ?_⟩
      · simpa [open_] using left
      · intro d known
        rcases List.mem_append.1 known with inside | last
        · exact right d inside
        · rw [List.mem_singleton.1 last, close]
  | _ => cases node

end Workbench.Syntax
