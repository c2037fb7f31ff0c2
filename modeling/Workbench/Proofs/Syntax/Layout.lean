import Mathlib.Logic.Relation
import Workbench.Proofs.Syntax.Acceptance
import Workbench.Proofs.Syntax.Partition
import Workbench.Proofs.Syntax.Taking

/-!
# Ranges nest like the tree

The range of a node goes from the start of the first token that the node was read from to the end of
the last. The merges of the reader agree with that because the tokens of a text stand in order: the
parts of a node follow each other, so the first of them starts where the node starts, the last ends
where it ends, and all others are between. What a tree holds is therefore within what holds it and
apart from what stands beside it.
-/

namespace Workbench.Syntax

open Source (Span)

/-! ### Tokens in order -/

/-- Tokens as they stand in a text: one behind the other, and none of them empty. -/
structure InOrder (tokens : List Token) : Prop where
  proper : ∀ t ∈ tokens, t.span.start < t.span.stop
  before : tokens.Pairwise fun t u => t.span.Before u.span

theorem inOrder_lex (source : String) : InOrder (lex source).tokens := by
  obtain ⟨proper, before, -⟩ := lexing_partitions source
  refine ⟨fun t known => ?_, before⟩
  exact (proper t.span (List.mem_append_left _ (List.mem_map_of_mem known))).1

theorem InOrder.piece {tokens own : List Token} (h : InOrder tokens) (part : own <:+: tokens) :
    InOrder own :=
  ⟨fun t known => h.proper t (part.subset known), h.before.sublist part.sublist⟩

/-- A range goes from the start of the first of some tokens to the end of the last. -/
def Encloses (span : Span) (own : List Token) : Prop :=
  ∃ first last, own.head? = some first ∧ own.getLast? = some last ∧
    span = ⟨first.span.start, last.span.stop⟩

theorem exists_encloses {own : List Token} (some : own ≠ []) : ∃ span, Encloses span own :=
  ⟨_, own.head some, own.getLast some, List.head?_eq_some_head some,
    List.getLast?_eq_some_getLast some, rfl⟩

section

variable {span : Span} {own : List Token}

theorem Encloses.within (h : Encloses span own) (ordered : InOrder own) {t : Token}
    (known : t ∈ own) : t.span.Within span := by
  obtain ⟨first, last, head, final, rfl⟩ := h
  have proper := ordered.proper t known
  have before := ordered.before
  constructor
  · obtain ⟨rest, rfl⟩ := List.head?_eq_some_iff.1 head
    rcases List.mem_cons.1 known with rfl | later
    · exact Nat.le_refl _
    · have less := ordered.proper first List.mem_cons_self
      have next : first.span.stop ≤ t.span.start := (List.pairwise_cons.1 before).1 t later
      show first.span.start ≤ t.span.start
      omega
  · obtain ⟨init, rfl⟩ := List.getLast?_eq_some_iff.1 final
    rcases List.mem_append.1 known with earlier | only
    · have less := ordered.proper last (by simp)
      have next : t.span.stop ≤ last.span.start :=
        (List.pairwise_append.1 before).2.2 t earlier last (by simp)
      show t.span.stop ≤ last.span.stop
      omega
    · rw [List.mem_singleton.1 only]

theorem Encloses.proper (h : Encloses span own) (ordered : InOrder own) :
    span.start < span.stop := by
  obtain ⟨first, last, head, final, same⟩ := id h
  have known : first ∈ own := List.mem_of_head? head
  have less := ordered.proper first known
  have within := h.within ordered known
  exact Nat.lt_of_le_of_lt within.1 (Nat.lt_of_lt_of_le less within.2)

/-- What stands behind each of some tokens stands behind their range. -/
theorem Encloses.before (h : Encloses span own) {other : Span}
    (each : ∀ t ∈ own, t.span.Before other) : span.Before other := by
  obtain ⟨first, last, -, final, rfl⟩ := h
  exact each last (List.mem_of_getLast? final)

/-- What stands in front of each of some tokens stands in front of their range. -/
theorem Encloses.behind (h : Encloses span own) {other : Span}
    (each : ∀ t ∈ own, other.Before t.span) : other.Before span := by
  obtain ⟨first, last, head, -, rfl⟩ := h
  exact each first (List.mem_of_head? head)

/-- The other tokens of a text stand apart from the range of some in a row. -/
theorem Encloses.apart (h : Encloses span own) {tokens : List Token} (ordered : InOrder tokens)
    (part : own <:+: tokens) {t : Token} (known : t ∈ tokens) (other : t ∉ own) :
    t.span.Apart span := by
  obtain ⟨front, rest, rfl⟩ := part
  obtain ⟨before, -, between⟩ := List.pairwise_append.1 ordered.before
  obtain ⟨-, -, between'⟩ := List.pairwise_append.1 before
  rcases List.mem_append.1 known with earlier | later
  · rcases List.mem_append.1 earlier with earlier | inside
    · exact .inl (h.behind fun u hu => between' t earlier u hu)
    · exact absurd inside other
  · refine .inr (h.before fun u hu => between u ?_ t later)
    exact List.mem_append_right _ hu

end

/-! ### Parts in order -/

/-- Parts one behind the other, each with the range of its tokens. -/
structure InPlace (parts : List Part) : Prop where
  encloses : ∀ p ∈ parts, Encloses p.span p.tokens
  ordered : InOrder (parts.flatMap Part.tokens)

theorem infix_of_mem {parts : List Part} {p : Part} (known : p ∈ parts) :
    p.tokens <:+: parts.flatMap Part.tokens := by
  obtain ⟨before, after, rfl⟩ := List.append_of_mem known
  refine ⟨before.flatMap Part.tokens, after.flatMap Part.tokens, ?_⟩
  simp

/-- A token has its own range, so only the nodes among the parts have to be looked at. -/
theorem inPlace_of_encloses {parts : List Part} (ordered : InOrder (parts.flatMap Part.tokens))
    (each : ∀ n own, .phrase n own ∈ parts → InOrder own → Encloses n.span own) :
    InPlace parts := by
  refine ⟨fun p known => ?_, ordered⟩
  cases p with
  | token t => exact ⟨t, t, rfl, rfl, rfl⟩
  | phrase n own => exact each n own known (ordered.piece (infix_of_mem known))

theorem InPlace.pairwise {parts : List Part} (h : InPlace parts) :
    parts.Pairwise fun p q => p.span.Before q.span := by
  have apart := (List.pairwise_flatMap.1 h.ordered.before).2
  apply apart.imp_of_mem
  intro p q hp hq before
  apply (h.encloses p hp).before
  intro t ht
  apply (h.encloses q hq).behind
  intro u hu
  exact before t ht u hu

/-- A range from the start of the first of some parts to the end of the last. -/
structure Frames (span : Span) (parts : List Part) : Prop where
  within : ∀ p ∈ parts, p.span.Within span
  starts : ∀ p, parts.head? = some p → p.span.start = span.start
  stops : ∀ p, parts.getLast? = some p → p.span.stop = span.stop

theorem InPlace.frames {parts : List Part} (h : InPlace parts) {span : Span}
    (whole : Encloses span (parts.flatMap Part.tokens)) : Frames span parts := by
  constructor
  case within =>
    intro p known
    have part := infix_of_mem known
    obtain ⟨first, last, head, final, same⟩ := h.encloses p known
    have start := whole.within h.ordered (part.subset (List.mem_of_head? head))
    have stop := whole.within h.ordered (part.subset (List.mem_of_getLast? final))
    rw [same]
    exact ⟨start.1, stop.2⟩
  case starts =>
    intro p head
    obtain ⟨rest, rfl⟩ := List.head?_eq_some_iff.1 head
    obtain ⟨first, last, head, -, same⟩ := h.encloses p List.mem_cons_self
    obtain ⟨first', last', head', -, same'⟩ := whole
    obtain rfl : first = first' := by simpa [head] using head'
    rw [same, same']
  case stops =>
    intro p final
    obtain ⟨init, rfl⟩ := List.getLast?_eq_some_iff.1 final
    obtain ⟨first, last, -, final, same⟩ := h.encloses p (by simp)
    obtain ⟨first', last', -, final', same'⟩ := whole
    obtain rfl : last = last' := by simpa [List.getLast?_append, final] using final'
    rw [same, same']

/-- Ranges at the start and at the end of a range merge to it. -/
theorem merge_eq {a b span : Span} (ha : a.Within span) (start : a.start = span.start)
    (hb : b.Within span) (stop : b.stop = span.stop) : a.merge b = span := by
  obtain ⟨_, _⟩ := span
  obtain ⟨_, below⟩ := ha
  obtain ⟨above, _⟩ := hb
  simp only [Span.merge, Span.mk.injEq] at *
  omega

namespace Frames

variable {span : Span} {parts : List Part} (h : Frames span parts)

include h

theorem merge {p q : Part} (first : parts.head? = some p) (last : parts.getLast? = some q) :
    p.span.merge q.span = span :=
  merge_eq (h.within p (List.mem_of_head? first)) (h.starts p first)
    (h.within q (List.mem_of_getLast? last)) (h.stops q last)

end Frames

theorem Frames.single {span : Span} {p : Part} (h : Frames span [p]) : p.span = span := by
  have start := h.starts p rfl
  have stop := h.stops p rfl
  cases span
  cases hp : p.span
  simp_all

/-- The range that the rule for a node gives it is that of its tokens. -/
theorem Rule.span_eq {n : Node} {parts : List Part} (rule : Rule n parts) (h : InPlace parts)
    {span : Span} (whole : Encloses span (parts.flatMap Part.tokens)) : n.span = span := by
  have frames := h.frames whole
  cases rule with
  | name | int | bool | reference | chained => exact frames.single
  | unary | binary | assign | ifThen | whileDo | returns | returnsValue | require =>
      exact frames.merge rfl rfl
  | call | letIn | block | storage | function | contract =>
      exact frames.merge rfl (List.getLast?_concat ..)
  | parens opens inner closes =>
      rw [Node.span, Expr.span_withSpan]
      exact frames.merge rfl (List.getLast?_concat ..)
  | @ifElse cond yes no t o c e condition first second word opens closes other =>
      have start := frames.starts (.token t) rfl
      have upToFirst : (t.span.merge yes.span).Within span := by
        have left := frames.within (.token t) (by simp)
        have right := frames.within (.phrase (.block yes) first) (by simp)
        exact ⟨Nat.le_min.2 ⟨left.1, right.1⟩, Nat.max_le.2 ⟨left.2, right.2⟩⟩
      have start' : (t.span.merge yes.span).start = span.start := by
        refine Nat.le_antisymm ?_ upToFirst.1
        exact (Nat.min_le_left _ _).trans (Nat.le_of_eq start)
      have right := frames.within (.phrase (.block no) second) (by simp)
      exact merge_eq upToFirst start' right (frames.stops (.phrase (.block no) second) rfl)
  | @eval value t s own head ends =>
      -- The first token of the expression starts where the expression does.
      obtain ⟨first, last, head', -, same⟩ := h.encloses (.phrase (.expr value) own) (by simp)
      obtain rfl : t = first := by simpa [head] using head'
      have start := frames.starts (.phrase (.expr value) own) rfl
      rw [same] at start
      have left : t.span.Within span := by
        apply whole.within h.ordered
        simp [List.mem_of_head? head]
      have right := frames.within (.token s) (by simp)
      exact merge_eq left start right (frames.stops (.token s) rfl)

/-! ### Nodes in order -/

theorem Phrase.encloses {n : Node} {own : List Token} (h : Phrase n own) (ordered : InOrder own) :
    Encloses n.span own := by
  induction h with
  | mk rule each made ih =>
      obtain ⟨span, whole⟩ := exists_encloses (Phrase.mk rule each made).ne_nil
      subst made
      rw [rule.span_eq (inPlace_of_encloses ordered ih) whole]
      exact whole

/-- The nodes right below a node are over tokens of its own, stand within it and apart from each
other, and each list of them is in order. -/
structure Node.Holds (n : Node) (own : List Token) : Prop where
  phrase : ∀ m ∈ n.children, ∃ theirs, theirs <:+: own ∧ Phrase m theirs
  within : ∀ m ∈ n.children, m.span.Within n.span
  apart : n.children.Pairwise fun m m' => m.span.Apart m'.span
  ordered : ∀ l ∈ n.lists, l.Pairwise fun m m' => m.span.Before m'.span

theorem mem_nodesOf_iff {parts : List Part} {m : Node} :
    m ∈ nodesOf parts ↔ ∃ theirs, .phrase m theirs ∈ parts := by
  unfold nodesOf
  rw [List.mem_filterMap]
  constructor
  · rintro ⟨p, known, same⟩
    cases p with
    | token t => cases same
    | phrase m' theirs =>
        obtain rfl : m' = m := by simpa [Part.node?] using same
        exact ⟨theirs, known⟩
  · rintro ⟨theirs, known⟩
    exact ⟨_, known, rfl⟩

theorem InPlace.pairwise_nodesOf {parts : List Part} (h : InPlace parts) :
    (nodesOf parts).Pairwise fun m m' => m.span.Before m'.span := by
  apply h.pairwise.filterMap
  intro p q before m hm m' hm'
  cases p with
  | token t => cases hm
  | phrase n own =>
      cases q with
      | token t => cases hm'
      | phrase n' own' =>
          cases hm
          cases hm'
          exact before

theorem Phrase.holds {n : Node} {own : List Token} (h : Phrase n own) (ordered : InOrder own) :
    n.Holds own := by
  have encloses := h.encloses ordered
  obtain ⟨rule, each, rfl⟩ := h
  have inPlace := inPlace_of_encloses ordered fun m theirs part => (each m theirs part).encloses
  have pairwise := inPlace.pairwise_nodesOf
  obtain ⟨perm, sublists⟩ := rule.lists
  constructor
  case phrase =>
    intro m known
    obtain ⟨theirs, part⟩ := mem_nodesOf_iff.1 (perm.mem_iff.1 known)
    exact ⟨theirs, infix_of_mem part, each m theirs part⟩
  case within =>
    intro m known
    obtain ⟨theirs, part⟩ := mem_nodesOf_iff.1 (perm.mem_iff.1 known)
    exact (inPlace.frames encloses).within _ part
  case apart =>
    refine (perm.pairwise_iff ?_).2 (pairwise.imp fun before => .inl before)
    intro m m' apart
    exact Or.symm apart
  case ordered =>
    intro l known
    exact pairwise.sublist (sublists l known)

/-- A node of the tree below a node, or that node itself. -/
def Node.Below (root n : Node) : Prop :=
  Relation.ReflTransGen (fun n m => m ∈ n.children) root n

theorem Phrase.of_below {root : Node} {tokens : List Token} (h : Phrase root tokens)
    (ordered : InOrder tokens) {n : Node} (below : root.Below n) :
    ∃ own, own <:+: tokens ∧ Phrase n own := by
  induction below with
  | refl => exact ⟨tokens, List.infix_rfl, h⟩
  | @tail n m _ child ih =>
      obtain ⟨own, part, phrase⟩ := ih
      obtain ⟨theirs, part', phrase'⟩ := (phrase.holds (ordered.piece part)).phrase m child
      exact ⟨theirs, part'.trans part, phrase'⟩

/-! ### Trees of texts -/

theorem phrase_of_parse {source : String} {c : Contract} (h : parse source = .ok c) :
    Phrase (.contract c) (lex source).tokens := by
  have clean : (lex source).diagnostics = [] := by
    by_contra dirty
    simp [parse, dirty] at h
  rw [parse_of_clean clean] at h
  split at h
  case h_1 c' s run =>
    cases h
    have takes := takes_parseContract (lexing_partitions source).endsOnce
    obtain ⟨own, -, rfl, phrase⟩ := takes _ _ _ rfl run
    exact phrase
  case h_2 => cases h

/-- An identifier stands where its range says. -/
theorem Phrase.name_stands {source : String} {x : Name} {own : List Token}
    (h : Phrase (.name x) own) (part : own <:+: (lex source).tokens) :
    ∃ front rest, Stands source x.span front x.text rest := by
  obtain ⟨rule, -, rfl⟩ := h
  cases rule with
  | @name t kind =>
      have known : t ∈ (lex source).tokens := part.subset (by simp)
      obtain ⟨front, rest, stands, -⟩ := stands_of_mem known
      exact ⟨front, rest, stands⟩

/-- How a node lies in a text: it is a tree over the tokens `own` of the text, and its range covers
these and no others. -/
structure Node.Lies (source : String) (n : Node) (own : List Token) : Prop
    extends n.Holds own where
  tree : Phrase n own
  part : own <:+: (lex source).tokens
  encloses : Encloses n.span own
  covers : ∀ t ∈ own, t.span.Within n.span
  avoids : ∀ t ∈ (lex source).tokens, t ∉ own → t.span.Apart n.span
  proper : n.span.start < n.span.stop ∧ n.span.stop ≤ source.utf8ByteSize
  /-- The range of an identifier is that of its text. -/
  identifier : ∀ x, n = .name x → ∃ front rest, Stands source x.span front x.text rest
  /-- The same of an identifier as an expression, up to parentheses around it. -/
  reference : ∀ text span, n = .expr (.name text span) → ∃ opens t closes,
    own = opens ++ t :: closes ∧ opens.length = closes.length ∧
    (∀ o ∈ opens, o.kind = .symbol .lparen) ∧ (∀ c ∈ closes, c.kind = .symbol .rparen) ∧
    ∃ front rest, Stands source t.span front text rest

theorem Phrase.lies {source : String} {n : Node} {own : List Token} (h : Phrase n own)
    (part : own <:+: (lex source).tokens) : n.Lies source own := by
  have ordered := inOrder_lex source
  have mine := ordered.piece part
  have encloses := h.encloses mine
  constructor
  case toHolds => exact h.holds mine
  case tree => exact h
  case part => exact part
  case encloses => exact encloses
  case covers => exact fun t known => encloses.within mine known
  case avoids => exact fun t known other => encloses.apart ordered part known other
  case proper =>
    refine ⟨encloses.proper mine, ?_⟩
    obtain ⟨first, last, -, final, same⟩ := encloses
    have known := part.subset (List.mem_of_getLast? final)
    have inside := (lexing_partitions source).proper last.span
      (List.mem_append_left _ (List.mem_map_of_mem known))
    rw [same]
    exact inside.2
  case identifier =>
    rintro x rfl
    exact h.name_stands part
  case reference =>
    rintro text span rfl
    obtain ⟨opens, t, closes, rfl, -, rfl, length, left, right⟩ := h.reference
    have known : t ∈ (lex source).tokens := part.subset (by simp)
    obtain ⟨front, rest, stands, -⟩ := stands_of_mem known
    exact ⟨opens, t, closes, rfl, length, left, right, front, rest, stands⟩

/-- Parentheses count to the expression in them: in `((a)) * -b` that is all up to the operator. -/
example : ((parse "contract C { function f() { ((a)) * -b; } }").toOption.map fun c =>
    c.functions.flatMap fun f => f.body.stmts.flatMap fun s => s.nodes.flatMap fun n =>
      n.children.map Node.span) = some [⟨28, 33⟩, ⟨36, 38⟩] := by
  decide +kernel

end Workbench.Syntax
