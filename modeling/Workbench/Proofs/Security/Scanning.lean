import Workbench.Proofs.Lang.Lists
import Workbench.Proofs.Lowered.Nodes
import Workbench.Security.Scan

/-!
# What the scan meets

The scan of a function is a list of events without a trace of where in the function they are. Here
the nodes of the text are listed with their paths in the order in which the scan comes to them; what
it finds are the events of these nodes, in this order. The order itself is one of paths, so it can
be said of two nodes without the list.
-/

namespace Workbench.Security

open Source (Span)
open Lang (Builtin flatMap_zipIdx pairwise_zipIdx)
open Lowered (Expr Stmt Node Function nodeAt?)

/-! ### The order of the text -/

/-- Whether a node is met in front of its parts. All others are met when they have been read. -/
def isMetFirst : Node → Bool
  | .stmt (.whileDo ..) | .stmt (.require ..) => true
  | _ => false

/-- When the node at a path is met. A node that is met behind its parts stands where one more of
them would. -/
def moment (n : Node) (path : List Nat) : List Nat :=
  if isMetFirst n then path else path ++ [n.parts.length]

/-- Whether the node at one path is met before the node at another. -/
def MetBefore (a b : List Nat × Node) : Prop :=
  moment a.2 a.1 < moment b.2 b.1

/-- A node with everything below it, each with its path, as they are met. -/
def listing (n : Node) : List (List Nat × Node) :=
  let below := n.parts.attach.zipIdx.flatMap fun (⟨part, _⟩, i) =>
    (listing part).map fun (path, m) => (i :: path, m)
  if isMetFirst n then ([], n) :: below else below ++ [([], n)]
termination_by sizeOf n
decreasing_by exact Node.sizeOf_lt_of_mem_parts ‹_›

/-- What is met in a row of nodes. -/
def listingOfRow (row : List Node) : List (List Nat × Node) :=
  row.zipIdx.flatMap fun (n, i) => (listing n).map fun (path, m) => (i :: path, m)

theorem listing_eq (n : Node) :
    listing n =
      if isMetFirst n then ([], n) :: listingOfRow n.parts
      else listingOfRow n.parts ++ [([], n)] := by
  have parts : listingOfRow n.parts = listingOfRow (n.parts.attach.map Subtype.val) := by
    rw [List.attach_map_subtype_val]
  rw [listing, parts, listingOfRow, List.zipIdx_map, List.flatMap_map]
  rfl

theorem mem_listingOfRow_iff {row : List Node} {path : List Nat} {m : Node}
    (each : ∀ n ∈ row, ∀ path m, (path, m) ∈ listing n ↔ n.at? path = some m) :
    (path, m) ∈ listingOfRow row ↔ nodeAt? row path = some m := by
  simp only [listingOfRow, List.mem_flatMap, List.mem_map, Prod.exists, Prod.mk.injEq,
    List.mem_zipIdx_iff_getElem?, Lowered.nodeAt?_eq_some_iff]
  constructor
  · rintro ⟨n, i, there, rest, m, mem, rfl, rfl⟩
    exact ⟨i, rest, n, rfl, there, (each n (List.mem_of_getElem? there) _ _).1 mem⟩
  · rintro ⟨i, rest, n, rfl, there, leads⟩
    exact ⟨n, i, there, rest, m, (each n (List.mem_of_getElem? there) _ _).2 leads, rfl, rfl⟩

theorem mem_listing_iff (n : Node) :
    ∀ path m, (path, m) ∈ listing n ↔ n.at? path = some m := by
  induction n using Node.induction with
  | step n ih =>
  intro path m
  have below : (path, m) ∈ listingOfRow n.parts ↔ nodeAt? n.parts path = some m :=
    mem_listingOfRow_iff ih
  rw [Node.at?_eq_some_iff, ← below, listing_eq]
  split <;> simp [or_comm]

theorem moment_cons (n : Node) (i : Nat) (path : List Nat) :
    moment n (i :: path) = i :: moment n path := by
  unfold moment
  split <;> rfl

/-- What is met in an earlier node of a row is met earlier. -/
theorem pairwise_listingOfRow {row : List Node}
    (each : ∀ n ∈ row, (listing n).Pairwise MetBefore) : (listingOfRow row).Pairwise MetBefore := by
  refine List.pairwise_flatMap.2 ⟨fun (n, i) mem => ?_, (pairwise_zipIdx row).imp ?_⟩
  · have own := each n (List.fst_mem_of_mem_zipIdx mem)
    refine List.pairwise_map.2 (own.imp fun {a b} before => ?_)
    rw [MetBefore, moment_cons, moment_cons]
    exact List.cons_lt_cons_iff.2 (.inr ⟨rfl, before⟩)
  · rintro ⟨n, i⟩ ⟨m, j⟩ less x hx y hy
    obtain ⟨x, -, rfl⟩ := List.mem_map.1 hx
    obtain ⟨y, -, rfl⟩ := List.mem_map.1 hy
    rw [MetBefore, moment_cons, moment_cons]
    exact List.cons_lt_cons_iff.2 (.inl less)

theorem pairwise_listing (n : Node) : (listing n).Pairwise MetBefore := by
  induction n using Node.induction with
  | step n ih =>
  have below := pairwise_listingOfRow ih
  have nonempty : ∀ a ∈ listingOfRow n.parts, ∃ i rest, i < n.parts.length ∧
      moment a.2 a.1 = i :: rest := by
    rintro ⟨path, m⟩ mem
    obtain ⟨i, rest, part, rfl, there, -⟩ := Lowered.nodeAt?_eq_some_iff.1
      ((mem_listingOfRow_iff fun n _ => mem_listing_iff n).1 mem)
    exact ⟨i, moment m rest, (List.getElem?_eq_some_iff.1 there).1, moment_cons m i rest⟩
  rw [listing_eq]
  split
  case isTrue first =>
    refine List.pairwise_cons.2 ⟨fun a mem => ?_, below⟩
    obtain ⟨i, rest, -, at'⟩ := nonempty a mem
    rw [MetBefore, at']
    simp [moment, first]
  case isFalse last =>
    refine List.pairwise_append.2 ⟨below, List.pairwise_singleton _ _, fun a mem b hb => ?_⟩
    obtain rfl := List.mem_singleton.1 hb
    obtain ⟨i, rest, less, at'⟩ := nonempty a mem
    rw [MetBefore, at']
    simpa [moment, last, List.cons_lt_cons_iff] using less

/-! ### Events with their paths -/

/-- The event that a node is, with its place. -/
def nodeEvent? : Node → Option (Event × Span)
  | .expr e => Event.ofNode? e
  | .stmt (.store _ _ span) => some (.writesStorage, span)
  | .stmt (.require _ span) => some (.requires, span)
  | .stmt (.whileDo cond _ span) => if cond.isTrue then some (.loopsEndlessly, span) else none
  | .stmt _ => none

/-- The events in a node. -/
def nodeEvents : Node → List (Event × Span)
  | .expr e => exprEvents e
  | .stmt s => stmtEvents s

theorem Expr.nodes_eq (e : Expr) : e.nodes = e.parts.flatMap Expr.nodes ++ [e] := by
  have ofList (es : List Expr) : Expr.nodesOfList es = es.flatMap Expr.nodes := by
    induction es with
    | nil => rfl
    | cons e es ih => rw [Expr.nodesOfList, ih, List.flatMap_cons]
  cases e <;> simp [Expr.nodes, Expr.parts, ofList]

theorem blockEvents_eq (body : List Stmt) :
    blockEvents body = (body.map Node.stmt).flatMap nodeEvents := by
  induction body with
  | nil => rfl
  | cons s rest ih => rw [blockEvents, ih, List.map_cons, List.flatMap_cons, nodeEvents]

/-- The scan of a node is that of its parts and, in front of it or behind it, of the node itself. -/
theorem nodeEvents_eq (n : Node) :
    nodeEvents n =
      if isMetFirst n then (nodeEvent? n).toList ++ n.parts.flatMap nodeEvents
      else n.parts.flatMap nodeEvents ++ (nodeEvent? n).toList := by
  cases n with
  | expr e =>
      have parts : (Node.expr e).parts.flatMap nodeEvents = e.parts.flatMap exprEvents := by
        rw [Node.parts, List.flatMap_map]
        rfl
      have own : [e].filterMap Event.ofNode? = (Event.ofNode? e).toList := by
        cases found : Event.ofNode? e <;> simp [found]
      rw [parts, nodeEvents, exprEvents, Expr.nodes_eq, List.filterMap_append,
        List.filterMap_flatMap, own]
      rfl
  | stmt s =>
      cases s with
      | letIn | set | store | require | eval =>
          simp [nodeEvents, stmtEvents, isMetFirst, nodeEvent?, Node.parts, Stmt.parts]
      | ifThen cond yes no span =>
          simp [nodeEvents, stmtEvents, isMetFirst, nodeEvent?, Node.parts, Stmt.parts,
            blockEvents_eq]
      | whileDo cond body span =>
          simp only [nodeEvents, stmtEvents, isMetFirst, nodeEvent?, Node.parts, Stmt.parts,
            blockEvents_eq, List.flatMap_cons, List.append_assoc, if_true]
          split <;> rfl
      | returns value span =>
          cases value <;>
            simp [nodeEvents, stmtEvents, isMetFirst, nodeEvent?, Node.parts, Stmt.parts]

theorem events_listingOfRow {row : List Node}
    (each : ∀ n ∈ row, nodeEvents n = (listing n).filterMap fun (_, m) => nodeEvent? m) :
    row.flatMap nodeEvents = (listingOfRow row).filterMap fun (_, m) => nodeEvent? m := by
  rw [listingOfRow, List.filterMap_flatMap]
  refine (flatMap_zipIdx fun (n, i) mem => ?_).symm
  rw [each n (List.fst_mem_of_mem_zipIdx mem), List.filterMap_map]
  rfl

/-- What the scan of a node finds are the events that are met. -/
theorem nodeEvents_eq_listing (n : Node) :
    nodeEvents n = (listing n).filterMap fun (_, m) => nodeEvent? m := by
  induction n using Node.induction with
  | step n ih =>
  have below := events_listingOfRow ih
  rw [nodeEvents_eq, listing_eq, below]
  split
  · cases own : nodeEvent? n <;> simp [own]
  · cases own : nodeEvent? n <;> simp [own]

/-! ### The events of a function -/

/-- When the node of a function at a path is met. -/
def momentOf (f : Function) (path : List Nat) : List Nat :=
  (f.at? path).elim path fun n => moment n path

/-- The events of a function, each with the path of its node. -/
def eventsAt (f : Function) : List (List Nat × Event × Span) :=
  (listingOfRow (f.body.map .stmt)).filterMap fun (path, n) => (nodeEvent? n).map (path, ·)

section

variable {f : Function} {path : List Nat} {span : Span} {kind : Builtin}

theorem map_eventsAt (f : Function) : (eventsAt f).map (·.2) = blockEvents f.body := by
  rw [blockEvents_eq, events_listingOfRow fun n _ => nodeEvents_eq_listing n, eventsAt,
    List.map_filterMap]
  congr 1
  funext (path, n)
  cases own : nodeEvent? n <;> simp [own]

theorem mem_eventsAt_iff {event : Event} :
    (path, event, span) ∈ eventsAt f ↔
      ∃ n, f.at? path = some n ∧ nodeEvent? n = some (event, span) := by
  simp only [eventsAt, List.mem_filterMap, Prod.exists, Option.map_eq_some_iff, Prod.mk.injEq,
    mem_listingOfRow_iff fun n _ => mem_listing_iff n, Function.at?]
  constructor
  · rintro ⟨path, n, there, event, span, own, rfl, rfl, rfl⟩
    exact ⟨n, there, own⟩
  · rintro ⟨n, there, own⟩
    exact ⟨path, n, there, event, span, own, rfl, rfl, rfl⟩

theorem pairwise_eventsAt (f : Function) :
    (eventsAt f).Pairwise fun a b => momentOf f a.1 < momentOf f b.1 := by
  have met : (listingOfRow (f.body.map .stmt)).Pairwise MetBefore :=
    pairwise_listingOfRow fun n _ => pairwise_listing n
  have at' : ∀ a ∈ listingOfRow (f.body.map .stmt), momentOf f a.1 = moment a.2 a.1 := by
    rintro ⟨path, n⟩ mem
    have there : f.at? path = some n :=
      (mem_listingOfRow_iff fun n _ => mem_listing_iff n).1 mem
    rw [momentOf, there, Option.elim_some]
  refine List.pairwise_filterMap.2 (met.imp_of_mem ?_)
  rintro ⟨p, n⟩ ⟨q, m⟩ hp hq before x hx y hy
  obtain ⟨x, -, rfl⟩ := Option.map_eq_some_iff.1 hx
  obtain ⟨y, -, rfl⟩ := Option.map_eq_some_iff.1 hy
  rw [at' _ hp, at' _ hq]
  exact before

theorem nodeEvent?_eq_calls_iff {n : Node} :
    nodeEvent? n = some (.calls kind, span) ↔ ∃ args, n = .expr (.builtin kind args span) := by
  constructor
  · intro own
    unfold nodeEvent? Event.ofNode? at own
    grind
  · rintro ⟨args, rfl⟩
    rfl

theorem nodeEvent?_eq_writesStorage_iff {n : Node} :
    nodeEvent? n = some (.writesStorage, span) ↔
      ∃ slot value, n = .stmt (.store slot value span) := by
  constructor
  · intro own
    unfold nodeEvent? Event.ofNode? at own
    grind
  · rintro ⟨slot, value, rfl⟩
    rfl

theorem nodeEvent?_eq_loopsEndlessly_iff {n : Node} :
    nodeEvent? n = some (.loopsEndlessly, span) ↔
      ∃ at' body, n = .stmt (.whileDo (.bool true at') body span) := by
  constructor
  · intro own
    unfold nodeEvent? Event.ofNode? Expr.isTrue at own
    grind
  · rintro ⟨at', body, rfl⟩
    rfl

theorem nodeEvent?_eq_requires_iff {n : Node} :
    nodeEvent? n = some (.requires, span) ↔ ∃ cond, n = .stmt (.require cond span) := by
  constructor
  · intro own
    unfold nodeEvent? Event.ofNode? at own
    grind
  · rintro ⟨cond, rfl⟩
    rfl

end

end Workbench.Security
