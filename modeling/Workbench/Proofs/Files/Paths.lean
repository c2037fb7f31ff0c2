import Mathlib.Data.List.DropRight
import Workbench.Files.Disk

/-!
# Paths and places

The text of a place names it alone, as long as no name has a slash. A relative path that is made of
names leads to the place with these names, so that comparing components and following the path come
to the same. A name is cut into a stem and an extension at its last dot.
-/

namespace Workbench.Files

variable {path : String} {place names : Place} {pieces : List (List Char)}

/-! ### Places as texts -/

theorem exists_splitSlashes (chars : List Char) :
    ∃ piece pieces, splitSlashes chars = piece :: pieces := by
  fun_cases splitSlashes chars with
  | case1 | case2 | case3 | case4 => exact ⟨_, _, rfl⟩

theorem splitSlashes_cons_of_ne {c : Char} (plain : c ≠ '/') (rest : List Char) :
    splitSlashes (c :: rest) = (splitSlashes rest).modifyHead (c :: ·) := by
  obtain ⟨piece, pieces, split⟩ := exists_splitSlashes rest
  simp [splitSlashes, split]

theorem splitSlashes_eq_splitOn (chars : List Char) : splitSlashes chars = chars.splitOn '/' := by
  induction chars with
  | nil => rfl
  | cons c rest ih =>
      rw [List.splitOn_cons_eq_if_modifyHead, ← ih]
      by_cases slash : c = '/'
      · subst slash
        rfl
      · rw [if_neg (by simpa using slash), splitSlashes_cons_of_ne slash]

theorem splitSlashes_text (proper : place ≠ []) (plain : ∀ name ∈ place, '/' ∉ name.toList) :
    splitSlashes place.text.toList = place.map String.toList := by
  have whole : place.text.toList = ['/'].intercalate (place.map String.toList) :=
    String.toList_intercalate
  rw [splitSlashes_eq_splitOn, whole]
  exact List.splitOn_intercalate '/' (by simpa using plain) (by simpa using proper)

/-- No two places have the same text. -/
theorem text_injective {q : Place} (proper : place ≠ []) (proper' : q ≠ [])
    (plain : ∀ name ∈ place, '/' ∉ name.toList) (plain' : ∀ name ∈ q, '/' ∉ name.toList)
    (same : place.text = q.text) : place = q := by
  have pieces : place.map String.toList = q.map String.toList := by
    rw [← splitSlashes_text proper plain, same, splitSlashes_text proper' plain']
  exact (List.map_inj_right fun _ _ => String.toList_inj.1).1 pieces

/-! ### Paths of names -/

theorem exactNames?_cons (part : Component) (rest : List Component) :
    exactNames? (part :: rest) =
      match part with
      | .name text => (exactNames? rest).map (text :: ·)
      | _ => none := by
  unfold exactNames?
  rw [List.mapM_cons]
  cases part with
  | name text =>
      cases rest.mapM (m := Option) fun
        | .name text => some text
        | _ => none <;> rfl
  | root | current | above => rfl

theorem exactNames?_eq_some_iff {parts : List Component} :
    exactNames? parts = some names ↔ parts = names.map .name := by
  induction parts generalizing names with
  | nil => cases names <;> simp [exactNames?]
  | cons part rest ih =>
      rw [exactNames?_cons]
      cases names with
      | nil => cases part <;> simp
      | cons name names =>
          cases part with
          | name text => simpa [ih] using and_comm
          | root | current | above => simp

theorem component?_eq_none_iff {piece : List Char} :
    component? piece = none ↔ piece = [] ∨ piece = ['.'] := by
  unfold component?
  split
  · next void => simp [void]
  · next proper => split <;> simp [proper]

/-- What a piece of a path means as a step is what it means as a component. -/
theorem stepOf_eq (piece : List Char) : Disk.stepOf piece =
    match component? piece with
    | some (.name text) => .down text
    | some _ => .up
    | none => .stay := by
  unfold Disk.stepOf component?
  split
  · rfl
  · split <;> rfl

theorem endOf_of_names (spelled : pieces.filterMap component? = names.map .name) (place : Place) :
    Disk.endOf place (pieces.map Disk.stepOf) = some (place ++ names) := by
  induction pieces generalizing names place with
  | nil =>
      cases names with
      | nil => simp [Disk.endOf]
      | cons name names => cases spelled
  | cons piece pieces ih =>
      rw [List.map_cons, stepOf_eq]
      cases means : component? piece with
      | none =>
          rw [List.filterMap_cons_none means] at spelled
          exact ih spelled place
      | some part =>
          rw [List.filterMap_cons_some means] at spelled
          cases names with
          | nil => cases spelled
          | cons name names =>
              rw [List.map_cons, List.cons.injEq] at spelled
              obtain ⟨rfl, spelled⟩ := spelled
              rw [Disk.endOf, ih spelled, List.append_assoc]
              rfl

/-- The components of a relative path, with its first piece apart. -/
theorem components_of_relative (relative : isAbsolute path = false) (some : path ≠ "") :
    ∃ c first rest, splitSlashes path.toList = (c :: first) :: rest ∧
      components path = (firstComponent? (c :: first)).toList ++ rest.filterMap component? := by
  unfold isAbsolute at relative
  unfold components
  cases chars : path.toList with
  | nil => exact absurd (String.toList_eq_nil_iff.1 chars) some
  | cons c rest =>
      have plain : c ≠ '/' := by
        rintro rfl
        rw [chars] at relative
        cases relative
      obtain ⟨first, pieces, head⟩ := exists_splitSlashes rest
      have split : splitSlashes (c :: rest) = (c :: first) :: pieces := by
        rw [splitSlashes_cons_of_ne plain, head]
        rfl
      refine ⟨c, first, pieces, split, ?_⟩
      split
      · next same =>
        exact absurd (List.cons.inj same).1 plain
      · rw [split]

/-- A relative path of names leads to the place with these names. -/
theorem endOf_of_components (relative : isAbsolute path = false) (some : path ≠ "")
    (spelled : components path = names.map .name) :
    Disk.endOf [] ((splitSlashes path.toList).map Disk.stepOf) = .some names ∧ names ≠ [] := by
  obtain ⟨c, first, rest, split, parts⟩ := components_of_relative relative some
  rw [parts] at spelled
  -- A dot in front is no name.
  have named : c :: first ≠ ['.'] := by
    intro dot
    rw [dot] at spelled
    cases names <;> cases spelled
  have whole : ((c :: first) :: rest).filterMap component? = names.map .name := by
    rw [← spelled, firstComponent?, if_neg named, List.filterMap_cons]
    cases component? (c :: first) <;> rfl
  refine ⟨by rw [split, endOf_of_names whole, List.nil_append], ?_⟩
  rintro rfl
  rcases component?_eq_none_iff.1 (List.filterMap_eq_nil_iff.1 whole _ (List.mem_cons_self ..)) with
    void | dot
  · cases void
  · exact named dot

/-! ### Extensions -/

section

variable {name stem extension : String}

/-- What stands behind the last dot has none. -/
theorem takeWhile_reverse_dotted (plain : '.' ∉ extension.toList) (before : List Char) :
    ((before ++ '.' :: extension.toList).reverse.takeWhile (· != '.')).reverse =
      extension.toList := by
  have behind : ∀ c ∈ extension.toList.reverse, (c != '.') = true := fun c mem =>
    bne_iff_ne.2 fun dot => plain (dot ▸ List.mem_reverse.1 mem)
  rw [List.reverse_append, List.reverse_cons, List.append_assoc,
    List.takeWhile_append_of_pos behind]
  simp

theorem splitExtension_dotted (plain : '.' ∉ extension.toList) :
    splitExtension (stem ++ "." ++ extension) =
      if stem ++ "." ++ extension = ".." ∨ stem = "" then (stem ++ "." ++ extension, none)
      else (stem, some extension) := by
  have chars : (stem ++ "." ++ extension).toList = stem.toList ++ '.' :: extension.toList := by
    simp
  have length : (stem.toList ++ '.' :: extension.toList).length - extension.toList.length - 1 =
      stem.toList.length := by
    simp
    omega
  unfold splitExtension
  simp only [chars, takeWhile_reverse_dotted plain, length, List.take_left, Bool.or_eq_true,
    beq_iff_eq, List.isEmpty_iff, String.toList_eq_nil_iff, String.ofList_toList]

theorem splitExtension_plain (plain : '.' ∉ name.toList) : splitExtension name = (name, none) := by
  have whole : (name.toList.reverse.takeWhile (· != '.')).reverse = name.toList :=
    List.rtakeWhile_eq_self_iff.2 fun c mem => bne_iff_ne.2 fun dot => plain (dot ▸ mem)
  unfold splitExtension
  simp only [whole]
  simp

theorem exists_dotted (dotted : '.' ∈ name.toList) :
    ∃ stem extension : String, '.' ∉ extension.toList ∧ name = stem ++ "." ++ extension := by
  obtain ⟨behind, before, cut, plain⟩ :=
    List.eq_append_cons_of_mem (List.mem_reverse.2 dotted)
  refine ⟨String.ofList before.reverse, String.ofList behind.reverse, by simpa using plain, ?_⟩
  have chars := congrArg List.reverse cut
  apply String.toList_inj.1
  simpa using chars

/-- A name is cut at its last dot if something stands in front of that. -/
theorem splitExtension_eq_iff : splitExtension name = (stem, some extension) ↔
    name = stem ++ "." ++ extension ∧ '.' ∉ extension.toList ∧ name ≠ ".." ∧ stem ≠ "" := by
  constructor
  · intro cuts
    by_cases dotted : '.' ∈ name.toList
    · obtain ⟨stem', extension', plain, rfl⟩ := exists_dotted dotted
      rw [splitExtension_dotted plain] at cuts
      split at cuts
      case isTrue => simp at cuts
      case isFalse proper =>
        cases cuts
        exact ⟨rfl, plain, not_or.1 proper⟩
    · rw [splitExtension_plain dotted] at cuts
      simp at cuts
  · rintro ⟨rfl, plain, proper⟩
    rw [splitExtension_dotted plain, if_neg (not_or.2 proper)]

end

end Workbench.Files
