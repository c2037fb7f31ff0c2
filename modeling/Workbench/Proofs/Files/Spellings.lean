import Mathlib.Logic.Relation
import Workbench.Proofs.Files.Paths

/-!
# Spellings of paths

Slashes cut a path into pieces. A piece is a name, climbs, or means nothing, and a relative path
that does not climb leads to the place of its names. So two paths lead to one place exactly if they
differ in nothing but repeated slashes, slashes at the end and single dots.
-/

namespace Workbench.Files

variable {path other : String} {place : Place} {piece : List Char} {pieces : List (List Char)}

/-! ### Names -/

/-- Neither nothing nor one dot nor two. -/
def IsName (piece : List Char) : Prop :=
  piece ≠ [] ∧ piece ≠ ['.'] ∧ piece ≠ ['.', '.']

instance : DecidablePred IsName :=
  fun _ => inferInstanceAs (Decidable (_ ∧ _ ∧ _))

/-- A place that is not the root, with proper names. -/
structure Place.IsProper (place : Place) : Prop where
  proper : place ≠ []
  plain : ∀ name ∈ place, '/' ∉ name.toList
  named : ∀ name ∈ place, IsName name.toList

/-- What stands between the slashes of a path. -/
def piecesOf (path : String) : List (List Char) :=
  path.toList.splitOn '/'

/-- The names in a path, in order. -/
def namesIn (path : String) : Place :=
  ((piecesOf path).filter IsName).map String.ofList

/-- The path is absolute, climbs or names nothing. -/
def Leaves (path : String) : Prop :=
  isAbsolute path = true ∨ ['.', '.'] ∈ piecesOf path ∨ ∀ piece ∈ piecesOf path, ¬ IsName piece

theorem component?_of_name (name : IsName piece) :
    component? piece = some (.name (String.ofList piece)) := by
  rw [component?, if_neg (not_or.2 ⟨name.1, name.2.1⟩), if_neg name.2.2]

theorem piece_cases (piece : List Char) :
    component? piece = none ∧ ¬ IsName piece ∧ piece ≠ ['.', '.'] ∨
      piece = ['.', '.'] ∧ component? piece = some .above ∨ IsName piece := by
  by_cases void : piece = [] ∨ piece = ['.']
  · refine .inl ⟨component?_eq_none_iff.2 void, ?_, ?_⟩
    · rintro ⟨some, other, -⟩
      exact void.elim some other
    · rintro rfl
      simp at void
  · by_cases climbs : piece = ['.', '.']
    · exact .inr (.inl ⟨climbs, by rw [climbs]; rfl⟩)
    · exact .inr (.inr ⟨fun h => void (.inl h), fun h => void (.inr h), climbs⟩)

theorem namesOf?_filterMap (pieces : List (List Char)) :
    namesOf? (pieces.filterMap component?) =
      if ['.', '.'] ∈ pieces then none else some ((pieces.filter IsName).map String.ofList) := by
  induction pieces with
  | nil => rfl
  | cons piece rest ih =>
      rcases piece_cases piece with ⟨void, unnamed, still⟩ | ⟨rfl, climbs⟩ | name
      · rw [List.filterMap_cons_none void, ih, List.filter_cons_of_neg (by simpa using unnamed)]
        simp [Ne.symm still]
      · rw [List.filterMap_cons_some climbs, if_pos (List.mem_cons_self ..)]
        rfl
      · rw [List.filterMap_cons_some (component?_of_name name), namesOf?, ih,
          List.filter_cons_of_pos (by simpa using name)]
        by_cases climbs : ['.', '.'] ∈ rest
        · rw [if_pos climbs, if_pos (List.mem_cons_of_mem _ climbs)]
          rfl
        · rw [if_neg climbs, if_neg fun mem => (List.mem_cons.1 mem).elim (fun h => name.2.2 h.symm)
            climbs]
          rfl

theorem isAbsolute_iff : isAbsolute path = true ↔ path.toList.head? = some '/' := by
  rw [isAbsolute, beq_iff_eq]

/-- An absolute path has nothing in front of its first slash. -/
theorem piecesOf_absolute {rest : List Char} (absolute : path.toList = '/' :: rest) :
    piecesOf path = [] :: rest.splitOn '/' := by
  rw [piecesOf, absolute, List.splitOn_cons_eq_if_modifyHead, if_pos (beq_self_eq_true '/')]

theorem exists_piecesOf (path : String) : ∃ first rest, piecesOf path = first :: rest := by
  rw [piecesOf, ← splitSlashes_eq_splitOn]
  exact exists_splitSlashes path.toList

/-- What the start of a path adds to its pieces: a slash is the root, and a dot is kept. -/
def startOf (path : String) : List Component :=
  if isAbsolute path then [.root]
  else if (piecesOf path).head? = some ['.'] then [.current]
  else []

theorem filterMap_component?_cons (piece : List Char) (rest : List (List Char)) :
    (piece :: rest).filterMap component? =
      (component? piece).toList ++ rest.filterMap component? := by
  cases means : component? piece with
  | none => rw [List.filterMap_cons_none means]; rfl
  | some part => rw [List.filterMap_cons_some means]; rfl

theorem components_eq (path : String) :
    components path = startOf path ++ (piecesOf path).filterMap component? := by
  unfold components startOf
  split
  · next rest chars =>
    rw [if_pos (isAbsolute_iff.2 (by rw [chars]; rfl)), piecesOf_absolute chars,
      splitSlashes_eq_splitOn]
    rfl
  · next relative =>
    have relative : ¬ isAbsolute path = true := by
      intro absolute
      obtain ⟨rest, chars⟩ := List.head?_eq_some_iff.1 (isAbsolute_iff.1 absolute)
      exact relative rest chars
    obtain ⟨first, rest, split⟩ := exists_piecesOf path
    rw [splitSlashes_eq_splitOn, ← piecesOf, split, if_neg relative, filterMap_component?_cons,
      ← List.append_assoc]
    refine congrArg (· ++ _) ?_
    by_cases dot : first = ['.']
    · subst dot
      rfl
    · rw [firstComponent?, if_neg dot, if_neg (by simpa using dot)]
      rfl

theorem namesOf?_components (path : String) :
    namesOf? (components path) =
      if isAbsolute path = true ∨ ['.', '.'] ∈ piecesOf path then none
      else some (namesIn path) := by
  rw [components_eq, startOf, namesIn]
  by_cases absolute : isAbsolute path = true
  · rw [if_pos absolute, if_pos (.inl absolute)]
    rfl
  · simp only [absolute, Bool.false_eq_true, if_false, false_or]
    rw [← namesOf?_filterMap]
    split <;> rfl

theorem namesIn_eq_nil_iff : namesIn path = [] ↔ ∀ piece ∈ piecesOf path, ¬ IsName piece := by
  simp [namesIn, List.filter_eq_nil_iff]

/-- A path that stays below the root leads to the place of its names. -/
theorem confine?_eq_some_iff :
    confine? path = some place ↔ ¬ Leaves path ∧ namesIn path = place := by
  unfold confine? Leaves
  rw [namesOf?_components, ← namesIn_eq_nil_iff, ← or_assoc, not_or]
  by_cases leaves : isAbsolute path = true ∨ ['.', '.'] ∈ piecesOf path
  · rw [if_pos leaves]
    simp [leaves]
  · rw [if_neg leaves]
    cases names : namesIn path with
    | nil => simp
    | cons name rest => simp [leaves]

theorem confine?_of_stays (stays : ¬ Leaves path) : confine? path = some (namesIn path) :=
  confine?_eq_some_iff.2 ⟨stays, rfl⟩

theorem confine?_eq_none_iff : confine? path = none ↔ Leaves path := by
  cases confined : confine? path with
  | none =>
      refine iff_of_true rfl (Classical.byContradiction fun stays => ?_)
      rw [confine?_of_stays stays] at confined
      cases confined
  | some place => exact iff_of_false nofun (confine?_eq_some_iff.1 confined).1

theorem slash_not_mem (chars : List Char) : ∀ piece ∈ chars.splitOn '/', '/' ∉ piece := by
  induction chars with
  | nil => simp
  | cons c rest ih =>
      rw [List.splitOn_cons_eq_if_modifyHead]
      by_cases slash : c = '/'
      · simpa [slash] using ih
      · obtain ⟨first, more, split⟩ := exists_splitSlashes rest
        rw [splitSlashes_eq_splitOn] at split
        rw [if_neg (by simpa using slash), split, List.modifyHead_cons]
        rw [split] at ih
        intro piece mem
        rcases List.mem_cons.1 mem with rfl | mem
        · have plain := ih first (List.mem_cons_self ..)
          simp [plain, Ne.symm slash]
        · exact ih piece (List.mem_cons_of_mem _ mem)

theorem isProper_of_confine? (confined : confine? path = some place) : place.IsProper := by
  obtain ⟨stays, rfl⟩ := confine?_eq_some_iff.1 confined
  refine ⟨fun nothing => ?_, fun name mem => ?_, fun name mem => ?_⟩
  · exact stays (.inr (.inr (namesIn_eq_nil_iff.1 nothing)))
  · obtain ⟨piece, found, rfl⟩ := List.mem_map.1 mem
    rw [String.toList_ofList]
    exact slash_not_mem _ piece (List.mem_filter.1 found).1
  · obtain ⟨piece, found, rfl⟩ := List.mem_map.1 mem
    rw [String.toList_ofList]
    simpa using (List.mem_filter.1 found).2

/-! ### Places as paths -/

theorem piecesOf_text (proper : place.IsProper) :
    piecesOf place.text = place.map String.toList := by
  rw [piecesOf, ← splitSlashes_eq_splitOn, splitSlashes_text proper.proper proper.plain]

theorem mem_piecesOf_text (proper : place.IsProper) (mem : piece ∈ piecesOf place.text) :
    IsName piece := by
  rw [piecesOf_text proper] at mem
  obtain ⟨name, named, rfl⟩ := List.mem_map.1 mem
  exact proper.named name named

theorem namesIn_text (proper : place.IsProper) : namesIn place.text = place := by
  have all : (piecesOf place.text).filter IsName = piecesOf place.text :=
    List.filter_eq_self.2 fun piece mem => by simpa using mem_piecesOf_text proper mem
  rw [namesIn, all, piecesOf_text proper, List.map_map]
  simp [Function.comp_def]

theorem isAbsolute_text (proper : place.IsProper) : isAbsolute place.text = false := by
  rw [← Bool.not_eq_true]
  intro absolute
  obtain ⟨rest, chars⟩ := List.head?_eq_some_iff.1 (isAbsolute_iff.1 absolute)
  have mem : [] ∈ piecesOf place.text := by
    rw [piecesOf_absolute chars]
    exact List.mem_cons_self ..
  exact (mem_piecesOf_text proper mem).1 rfl

/-- The text of a place leads there. -/
theorem confine?_text (proper : place.IsProper) : confine? place.text = some place := by
  refine confine?_eq_some_iff.2 ⟨?_, namesIn_text proper⟩
  rintro (absolute | climbs | nameless)
  · rw [isAbsolute_text proper] at absolute
    cases absolute
  · exact (mem_piecesOf_text proper climbs).2.2 rfl
  · exact proper.proper (namesIn_text proper ▸ namesIn_eq_nil_iff.2 nameless)

theorem filterMap_piecesOf_text (proper : place.IsProper) :
    (piecesOf place.text).filterMap component? = place.map .name := by
  rw [piecesOf_text proper]
  replace proper := proper.named
  induction place with
  | nil => rfl
  | cons name place ih =>
      obtain ⟨named, proper⟩ := List.forall_mem_cons.1 proper
      rw [List.map_cons, List.filterMap_cons_some (component?_of_name named),
        String.ofList_toList, ih proper, List.map_cons]

theorem components_text (proper : place.IsProper) : components place.text = place.map .name := by
  have undotted : (piecesOf place.text).head? ≠ some ['.'] := fun dot =>
    (mem_piecesOf_text proper (List.mem_of_head? dot)).2.1 rfl
  rw [components_eq, startOf, isAbsolute_text proper, if_neg Bool.false_ne_true, if_neg undotted,
    filterMap_piecesOf_text proper, List.nil_append]

/-! ### Other spellings -/

/-- A path spelled with one slash or one dot more, which means nothing. -/
inductive Respelled : List Char → List Char → Prop
  | slash (a b : List Char) : Respelled (a ++ '/' :: b) (a ++ '/' :: '/' :: b)
  | trailing {a : List Char} : a ≠ [] → Respelled a (a ++ ['/'])
  | dot (a b : List Char) : Respelled (a ++ '/' :: b) (a ++ '/' :: '.' :: '/' :: b)
  | front {a : List Char} : a.head? ≠ some '/' → Respelled a ('.' :: '/' :: a)

/-- The paths differ only in single dots and in repeated or trailing slashes. -/
def SamePath (path other : String) : Prop :=
  Relation.EqvGen Respelled path.toList other.toList

/-- What a spelling tells: whether it is absolute, whether it climbs, and its names. -/
structure TellsAlike (a b : List Char) : Prop where
  absolute : a.head? = some '/' ↔ b.head? = some '/'
  climbs : ['.', '.'] ∈ a.splitOn '/' ↔ ['.', '.'] ∈ b.splitOn '/'
  names : (a.splitOn '/').filter IsName = (b.splitOn '/').filter IsName

theorem splitOn_append (a b : List Char) :
    (a ++ '/' :: b).splitOn '/' = a.splitOn '/' ++ b.splitOn '/' := by
  induction a with
  | nil => simp [List.splitOn_cons_eq_if_modifyHead]
  | cons c a ih =>
      rw [List.cons_append, List.splitOn_cons_eq_if_modifyHead, ih,
        List.splitOn_cons_eq_if_modifyHead]
      obtain ⟨first, more, split⟩ := exists_splitSlashes a
      rw [splitSlashes_eq_splitOn] at split
      rw [split]
      split <;> rfl

theorem piecesOf_append_slash (path other : String) :
    piecesOf (path ++ "/" ++ other) = piecesOf path ++ piecesOf other := by
  rw [piecesOf, String.toList_append, String.toList_append, List.append_assoc]
  exact splitOn_append path.toList other.toList

theorem tellsAlike_of_insert {a b : List Char} (front back : List (List Char))
    (absolute : a.head? = some '/' ↔ b.head? = some '/') (unnamed : ¬ IsName piece)
    (still : piece ≠ ['.', '.']) (before : a.splitOn '/' = front ++ back)
    (after : b.splitOn '/' = front ++ piece :: back) : TellsAlike a b where
  absolute := absolute
  climbs := by
    rw [before, after, List.mem_append, List.mem_append, List.mem_cons]
    simp [Ne.symm still]
  names := by
    rw [before, after, List.filter_append, List.filter_append,
      List.filter_cons_of_neg (by simpa using unnamed)]

theorem Respelled.tellsAlike {a b : List Char} (respelled : Respelled a b) : TellsAlike a b := by
  have void : ¬ IsName [] := fun name => name.1 rfl
  have dot : ¬ IsName ['.'] := fun name => name.2.1 rfl
  cases respelled with
  | slash a b =>
      refine tellsAlike_of_insert _ _ (by cases a <;> simp) void nofun (splitOn_append a b) ?_
      rw [splitOn_append, List.splitOn_cons_eq_if_modifyHead]
      rfl
  | trailing some =>
      obtain ⟨c, rest, rfl⟩ := List.exists_cons_of_ne_nil some
      exact tellsAlike_of_insert _ [] .rfl void nofun (List.append_nil _).symm
        (splitOn_append (c :: rest) [])
  | dot a b =>
      refine tellsAlike_of_insert _ _ (by cases a <;> simp) dot (by decide) (splitOn_append a b) ?_
      rw [splitOn_append]
      exact congrArg _ (splitOn_append ['.'] b)
  | front relative =>
      exact tellsAlike_of_insert [] _ (iff_of_false relative (by simp)) dot (by decide)
        rfl (splitOn_append ['.'] a)

theorem tellsAlike_of_eqvGen {a b : List Char} (same : Relation.EqvGen Respelled a b) :
    TellsAlike a b := by
  induction same with
  | rel a b respelled => exact respelled.tellsAlike
  | refl a => exact ⟨.rfl, .rfl, rfl⟩
  | symm a b _ alike => exact ⟨alike.absolute.symm, alike.climbs.symm, alike.names.symm⟩
  | trans a b c _ _ alike alike' =>
      exact ⟨alike.absolute.trans alike'.absolute, alike.climbs.trans alike'.climbs,
        alike.names.trans alike'.names⟩

/-- Spellings of one path lead to one place, or all of them leave the root. -/
theorem SamePath.confine?_eq (same : SamePath path other) : confine? path = confine? other := by
  have alike := tellsAlike_of_eqvGen same
  have names : namesIn path = namesIn other := congrArg (List.map String.ofList) alike.names
  have leaves : Leaves path ↔ Leaves other := by
    rw [Leaves, Leaves, isAbsolute_iff, isAbsolute_iff, ← namesIn_eq_nil_iff,
      ← namesIn_eq_nil_iff, names]
    exact or_congr alike.absolute (or_congr alike.climbs .rfl)
  refine Option.ext fun place => ?_
  rw [confine?_eq_some_iff, confine?_eq_some_iff, leaves, names]

/-! ### One spelling for each place -/

/-- A piece between slashes that is empty or a dot can go. -/
theorem eqvGen_drop {a : List Char} (some : a ≠ []) (void : piece = [] ∨ piece = ['.']) :
    Relation.EqvGen Respelled (a ++ (piece :: pieces).flatMap ('/' :: ·))
      (a ++ pieces.flatMap ('/' :: ·)) := by
  have trailing : ∀ {b : List Char}, b ≠ [] → Relation.EqvGen Respelled (b ++ ['/']) b :=
    fun some => .symm _ _ (.rel _ _ (.trailing some))
  cases pieces with
  | nil =>
      rcases void with rfl | rfl
      · simpa using trailing some
      · -- Only a dot that has slashes around it goes.
        have closed := trailing (b := a ++ ['/', '.']) (by simp)
        have opened : Relation.EqvGen Respelled (a ++ ['/', '.', '/']) (a ++ ['/']) :=
          .symm _ _ (.rel _ _ (.dot a []))
        rw [List.append_assoc] at closed
        simpa using (closed.symm _ _).trans _ _ _ (opened.trans _ _ _ (trailing some))
  | cons next more =>
      rcases void with rfl | rfl
      · exact .symm _ _ (.rel _ _ (.slash a (next ++ more.flatMap ('/' :: ·))))
      · exact .symm _ _ (.rel _ _ (.dot a (next ++ more.flatMap ('/' :: ·))))

/-- Only names are left of what follows a start. -/
theorem eqvGen_names (climbs : ['.', '.'] ∉ pieces) {a : List Char} (some : a ≠ []) :
    Relation.EqvGen Respelled (a ++ pieces.flatMap ('/' :: ·))
      (a ++ (pieces.filter IsName).flatMap ('/' :: ·)) := by
  induction pieces generalizing a with
  | nil => exact .refl _
  | cons piece pieces ih =>
      have later : ∀ {a : List Char}, a ≠ [] → _ :=
        ih fun mem => climbs (List.mem_cons_of_mem _ mem)
      rcases piece_cases piece with ⟨void, unnamed, -⟩ | ⟨rfl, -⟩ | name
      · rw [List.filter_cons_of_neg (by simpa using unnamed)]
        exact (eqvGen_drop some (component?_eq_none_iff.1 void)).trans _ _ _ (later some)
      · exact absurd (List.mem_cons_self ..) climbs
      · rw [List.filter_cons_of_pos (by simpa using name)]
        have longer := later (a := a ++ '/' :: piece) (by simp)
        simpa using longer

theorem intercalate_slash (first : List Char) (rest : List (List Char)) :
    ['/'].intercalate (first :: rest) = first ++ rest.flatMap ('/' :: ·) := by
  induction rest generalizing first with
  | nil => simp [List.intercalate]
  | cons next rest ih =>
      rw [List.intercalate_cons_cons, ih]
      simp

/-- Whatever leads to a place is another spelling of its text. -/
theorem samePath_text (confined : confine? path = some place) : SamePath path place.text := by
  obtain ⟨stays, rfl⟩ := confine?_eq_some_iff.1 confined
  simp only [Leaves, not_or, Classical.not_forall, Classical.not_not] at stays
  obtain ⟨relative, climbs, name, mem, named⟩ := stays
  obtain ⟨first, rest, pieces⟩ := exists_piecesOf path
  have spelled : path.toList = first ++ rest.flatMap ('/' :: ·) := by
    rw [← intercalate_slash, ← pieces, piecesOf, List.intercalate_splitOn]
  have text : (namesIn path).text.toList =
      ['/'].intercalate ((first :: rest).filter IsName) := by
    have whole : (namesIn path).text.toList =
        ['/'].intercalate ((namesIn path).map String.toList) := String.toList_intercalate
    rw [whole, namesIn, pieces, List.map_map]
    simp [Function.comp_def]
  rw [pieces] at climbs mem
  have later : ['.', '.'] ∉ rest := fun mem => climbs (List.mem_cons_of_mem _ mem)
  have outside : (namesIn path).text.toList.head? ≠ some '/' := by
    rw [ne_eq, ← isAbsolute_iff, isAbsolute_text (isProper_of_confine? confined)]
    nofun
  rw [text] at outside
  rw [SamePath, spelled, text]
  rcases piece_cases first with ⟨void, unnamed, -⟩ | ⟨rfl, -⟩ | begins
  · replace mem : name ∈ rest := (List.mem_cons.1 mem).resolve_left fun is => unnamed (is ▸ named)
    rw [List.filter_cons_of_neg (by simpa using unnamed)] at outside ⊢
    rcases component?_eq_none_iff.1 void with rfl | rfl
    · -- With nothing in front of the first slash the path would be absolute.
      refine absurd (isAbsolute_iff.2 ?_) relative
      obtain ⟨next, more, rfl⟩ := List.exists_cons_of_ne_nil (List.ne_nil_of_mem mem)
      rw [spelled]
      rfl
    · have dotted := eqvGen_names later (a := ['.']) (by simp)
      obtain ⟨head, tail, names⟩ : ∃ head tail, rest.filter IsName = head :: tail := by
        refine List.exists_cons_of_ne_nil (List.ne_nil_of_mem (a := name) ?_)
        exact List.mem_filter.2 ⟨mem, by simpa using named⟩
      rw [names, intercalate_slash] at outside ⊢
      rw [names] at dotted
      exact dotted.trans _ _ _ (.symm _ _ (.rel _ _ (.front outside)))
  · exact absurd (List.mem_cons_self ..) climbs
  · rw [List.filter_cons_of_pos (by simpa using begins), intercalate_slash]
    exact eqvGen_names later begins.1

/-- The spellings of a path are those that lead where it leads. -/
theorem confine?_eq_iff_samePath (confined : confine? path = some place) :
    confine? other = some place ↔ SamePath path other := by
  constructor
  · exact fun there => (samePath_text confined).trans _ _ _ ((samePath_text there).symm _ _)
  · exact fun same => same.confine?_eq ▸ confined

/-! ### Below a root -/

theorem piecesOf_slash (root : String) : piecesOf (root ++ "/") = piecesOf root ++ [[]] := by
  rw [← String.append_empty (s := root ++ "/"), piecesOf_append_slash]
  rfl

theorem head?_piecesOf_append (root : String) (more : List (List Char)) :
    (piecesOf root ++ more).head? = (piecesOf root).head? := by
  obtain ⟨first, rest, pieces⟩ := exists_piecesOf root
  rw [pieces]
  rfl

/-- What comes after a slash is added to the components up to it. -/
theorem components_append_slash (root path : String) :
    components (root ++ "/" ++ path) =
      components (root ++ "/") ++ (piecesOf path).filterMap component? := by
  have absolute : isAbsolute (root ++ "/" ++ path) = isAbsolute (root ++ "/") := by
    unfold isAbsolute
    cases chars : root.toList <;> simp [chars]
  have start : startOf (root ++ "/" ++ path) = startOf (root ++ "/") := by
    simp only [startOf, absolute, piecesOf_append_slash, piecesOf_slash, head?_piecesOf_append]
  rw [components_eq, components_eq (root ++ "/"), start, piecesOf_append_slash, piecesOf_slash,
    List.filterMap_append, List.filterMap_append, List.append_assoc, List.append_assoc]
  rfl

/-- A slash at the end means nothing, unless it is all there is. -/
theorem components_slash {root : String} (some : root ≠ "") :
    components (root ++ "/") = components root := by
  have absolute : isAbsolute (root ++ "/") = isAbsolute root := by
    unfold isAbsolute
    cases chars : root.toList with
    | nil => exact absurd (String.toList_eq_nil_iff.1 chars) some
    | cons c more => simp [chars]
  have start : startOf (root ++ "/") = startOf root := by
    simp only [startOf, absolute, piecesOf_slash, head?_piecesOf_append]
  rw [components_eq, components_eq root, start, piecesOf_slash, List.filterMap_append]
  exact congrArg _ (List.append_nil _)

/-- A place is shown with its names after the components of the root. -/
theorem components_joinText (proper : place.IsProper) (root : String) :
    components (joinText root place.text) = components root ++ place.map .name := by
  unfold joinText
  rw [isAbsolute_text proper, if_neg Bool.false_ne_true]
  split
  · next closed =>
    rcases Bool.or_eq_true_iff.1 closed with empty | closed
    · rw [String.isEmpty_iff.1 empty, String.empty_append, components_text proper]
      rfl
    · obtain ⟨front, chars⟩ := List.getLast?_eq_some_iff.1 (eq_of_beq closed)
      have shape : root = String.ofList front ++ "/" := by
        apply String.toList_inj.1
        simp [chars]
      rw [shape, components_append_slash, filterMap_piecesOf_text proper]
  · next opened =>
    have some : root ≠ "" := by
      rintro rfl
      exact opened rfl
    rw [components_append_slash, components_slash some, filterMap_piecesOf_text proper]

end Workbench.Files
