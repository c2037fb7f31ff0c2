import Workbench.Files.Disk
import Workbench.Proofs.Lang.Texts

/-!
# Trees of files

On a disk that is a tree everything lies in a directory, so that what stands in the table can also
be reached. All calls keep it a tree, and a call at one place changes no file at another.
-/

namespace Workbench.Files.Disk

open Wasm (Bytes)

variable {d d' : Disk} {place : Place} {node : Node}

/-- Everything on the disk lies in a directory. -/
def IsTree (d : Disk) : Prop :=
  ∀ place node, place ≠ [] → d.node? place = some node → d.node? place.dropLast = some .directory

/-- The bytes of the file at a place, if there is one. -/
def fileAt (d : Disk) (place : Place) : Option Bytes :=
  match d.node? place with
  | some (.file content _) => some content
  | _ => none

theorem fileAt_eq_some_iff {content : Bytes} :
    d.fileAt place = some content ↔ ∃ modified, d.node? place = some (.file content modified) := by
  unfold fileAt
  split
  · next content' modified found => simp [found]
  · next h =>
      constructor
      · simp
      · rintro ⟨modified, found⟩
        exact absurd found (h content modified)

/-- The bytes of the file at a place, if there is one, and the time of their last change. -/
def datedAt (d : Disk) (place : Place) : Option (Bytes × Nat) :=
  match d.node? place with
  | some (.file content modified) => some (content, modified)
  | _ => none

theorem datedAt_eq_some_iff {content : Bytes} {modified : Nat} :
    d.datedAt place = some (content, modified) ↔
      d.node? place = some (.file content modified) := by
  unfold datedAt
  split
  · next content' modified' found => simp [found]
  · next h =>
      constructor
      · simp
      · intro found
        exact absurd found (h content modified)

theorem datedAt_eq_none_of {found : Option Node} (is : d.node? place = found)
    (noFile : ∀ content modified, found ≠ some (.file content modified)) :
    d.datedAt place = none := by
  cases dated : d.datedAt place with
  | none => rfl
  | some file => exact absurd (is.symm.trans (datedAt_eq_some_iff.1 dated)) (noFile _ _)

theorem fileAt_eq_map (d : Disk) (place : Place) :
    d.fileAt place = (d.datedAt place).map (·.1) := by
  unfold fileAt datedAt
  split <;> rfl

/-- The second disk is a tree with a given file, or none, at a place, and else has the files of the
first. -/
structure Sets (place : Place) (file : Option Bytes) (d d' : Disk) : Prop where
  tree : d'.IsTree
  here : d'.fileAt place = file
  others : ∀ q, q ≠ place → d'.fileAt q = d.fileAt q

/-- As `Sets`, with the times of all files. -/
structure SetsDated (place : Place) (file : Option (Bytes × Nat)) (d d' : Disk) : Prop where
  tree : d'.IsTree
  here : d'.datedAt place = file
  others : ∀ q, q ≠ place → d'.datedAt q = d.datedAt q

section

variable {file file' : Option (Bytes × Nat)} {d'' : Disk}

theorem SetsDated.sets (h : SetsDated place file d d') : Sets place (file.map (·.1)) d d' where
  tree := h.tree
  here := by rw [fileAt_eq_map, h.here]
  others q apart := by rw [fileAt_eq_map, h.others q apart, ← fileAt_eq_map]

theorem SetsDated.refl (tree : d.IsTree) (place : Place) :
    SetsDated place (d.datedAt place) d d :=
  ⟨tree, rfl, fun _ _ => rfl⟩

theorem SetsDated.trans (first : SetsDated place file d d')
    (second : SetsDated place file' d' d'') : SetsDated place file' d d'' where
  tree := second.tree
  here := second.here
  others q apart := (second.others q apart).trans (first.others q apart)

end

theorem isTree_empty : empty.IsTree := by
  intro place node some h
  simp [node?, empty, lookup?, some] at h

@[simp] theorem node?_nil (d : Disk) : d.node? [] = some .directory := by
  simp [node?]

theorem dropLast_ne (h : place ≠ []) : place.dropLast ≠ place := by
  intro same
  have := congrArg List.length same
  have := List.length_pos_iff.2 h
  simp only [List.length_dropLast] at *
  omega

/-! ### Looking things up -/

theorem node?_of_follow {names : List String} {q r : Place} {n : Node} (start : d.node? q = some n)
    (follows : d.follow q n (names.map .down) = .ok (r, node)) :
    d.node? (q ++ names) = some node := by
  induction names generalizing q n with
  | nil =>
      simp only [List.map_nil, follow, Except.ok.injEq, Prod.mk.injEq] at follows
      rw [List.append_nil, start, follows.2]
  | cons name names ih =>
      simp only [List.map_cons, follow] at follows
      split at follows
      · split at follows
        · next n' found =>
            have := ih found follows
            rwa [List.append_assoc] at this
        · cases follows
      · cases follows

theorem node?_of_stat (h : d.stat place = .ok node) : d.node? place = some node := by
  unfold stat at h
  cases follows : d.follow [] .directory (place.map .down) with
  | error fault => simp [follows, Except.map] at h
  | ok found =>
      obtain ⟨r, n⟩ := found
      simp only [follows, Except.map, Except.ok.injEq] at h
      subst h
      exact node?_of_follow (node?_nil d) follows

/-- On the way to anything there are only directories. -/
theorem IsTree.directory_above (tree : d.IsTree) {q : Place} {names : List String}
    (below : names ≠ []) (h : d.node? (q ++ names) = some node) :
    d.node? q = some .directory := by
  induction names generalizing q with
  | nil => exact absurd rfl below
  | cons name names ih =>
      have next : d.node? (q ++ [name] ++ names) = some node := by simpa using h
      obtain ⟨n, found⟩ : ∃ n, d.node? (q ++ [name]) = some n := by
        by_cases last : names = []
        · exact ⟨node, by simpa [last] using next⟩
        · exact ⟨_, ih last next⟩
      simpa using tree _ n (by simp) found

theorem IsTree.follow (tree : d.IsTree) {names : List String} {q : Place} {n : Node}
    (start : d.node? q = some n) (h : d.node? (q ++ names) = some node) :
    d.follow q n (names.map .down) = .ok (q ++ names, node) := by
  induction names generalizing q n with
  | nil =>
      rw [List.append_nil, start, Option.some.injEq] at h
      simp [Disk.follow, h]
  | cons name names ih =>
      have directory := tree.directory_above (by simp) h
      rw [start, Option.some.injEq] at directory
      have next : d.node? (q ++ [name] ++ names) = some node := by simpa using h
      obtain ⟨n', found⟩ : ∃ n', d.node? (q ++ [name]) = some n' := by
        by_cases last : names = []
        · exact ⟨node, by simpa [last] using next⟩
        · exact ⟨_, tree.directory_above last next⟩
      have rest := ih found next
      simpa [Disk.follow, directory, Node.isDirectory, found] using rest

theorem IsTree.stat_eq_ok_iff (tree : d.IsTree) :
    d.stat place = .ok node ↔ d.node? place = some node := by
  refine ⟨node?_of_stat, fun h => ?_⟩
  simp [stat, tree.follow (node?_nil d) h, Except.map]

/-! ### Texts -/

/-- The text of a file is in its bytes. -/
theorem fileAt_of_readText {text : String} (h : d.readText place = .ok text) :
    d.fileAt place = some text.toUTF8.toList := by
  unfold readText at h
  cases found : d.stat place with
  | error fault => simp [found, Except.bind] at h
  | ok node =>
      have there := node?_of_stat found
      simp only [found, Except.bind] at h
      cases node with
      | directory => cases h
      | file content modified =>
          simp only [Node.text] at h
          split at h
          · next text' decodes =>
              cases h
              rw [Lang.toUTF8_of_fromUTF8? decodes]
              exact fileAt_eq_some_iff.2 ⟨modified, there⟩
          · cases h

/-! ### Entries -/

theorem lookup?_filter_ne {other : Place} (h : other ≠ place) (entries : List (Place × Node)) :
    lookup? other (entries.filter fun (p, _) => p ≠ place) = lookup? other entries := by
  induction entries with
  | nil => rfl
  | cons e rest ih =>
      by_cases he : e.1 = place
      · simpa [lookup?, he, h.symm] using ih
      · by_cases ho : e.1 = other <;> simp_all [lookup?]

theorem lookup?_filter_self (entries : List (Place × Node)) :
    lookup? place (entries.filter fun (p, _) => p ≠ place) = none := by
  induction entries with
  | nil => rfl
  | cons e rest ih =>
      by_cases he : e.1 = place
      · simpa [he] using ih
      · simpa [lookup?, he] using ih

theorem node?_erase_self (h : place ≠ []) : (d.erase place).node? place = none := by
  have : lookup? place (d.entries.filter fun (p, _) => p ≠ place) = none :=
    lookup?_filter_self d.entries
  simp_all [node?, erase]

theorem node?_erase_of_ne {q : Place} (h : q ≠ place) :
    (d.erase place).node? q = d.node? q := by
  have := lookup?_filter_ne h d.entries
  simp_all [node?, erase]

/-- A file is not put over a directory. -/
theorem IsTree.put (tree : d.IsTree) (some : place ≠ [])
    (above : d.node? place.dropLast = .some .directory)
    (replaces : node = .directory ∨ d.node? place ≠ .some .directory) :
    (d.put place node).IsTree := by
  intro q n proper h
  by_cases here : q = place
  · subst here
    rwa [node?_put_of_ne d (dropLast_ne proper)]
  · rw [node?_put_of_ne d here] at h
    have directory := tree q n proper h
    by_cases parent : q.dropLast = place
    · subst parent
      rw [node?_put_self d some]
      rw [replaces.resolve_right (not_not_intro directory)]
    · rwa [node?_put_of_ne d parent]

/-- One node in the root is a tree. -/
theorem isTree_single (name : String) (node : Node) : (empty.put [name] node).IsTree :=
  isTree_empty.put (List.cons_ne_nil name []) (node?_nil empty)
    (.inr (by simp [node?, empty, lookup?]))

theorem IsTree.erase (tree : d.IsTree) (file : d.node? place ≠ some .directory) :
    (d.erase place).IsTree := by
  intro q n proper h
  by_cases here : q = place
  · subst here
    rw [node?_erase_self proper] at h
    cases h
  · rw [node?_erase_of_ne here] at h
    have directory := tree q n proper h
    have apart : q.dropLast ≠ place := fun same => file (same ▸ directory)
    rwa [node?_erase_of_ne apart]

theorem datedAt_put_self {content : Bytes} {modified : Nat} (h : place ≠ []) :
    (d.put place (.file content modified)).datedAt place = some (content, modified) := by
  simp [datedAt, node?_put_self d h]

theorem datedAt_put_of_ne {q : Place} (h : q ≠ place) :
    (d.put place node).datedAt q = d.datedAt q := by
  simp [datedAt, node?_put_of_ne d h]

/-! ### Calls that change a disk -/

theorem node?_of_checkParent (h : d.checkParent place = .ok ()) :
    d.node? place.dropLast = some .directory := by
  unfold checkParent at h
  split at h
  · next found => exact node?_of_stat found
  · cases h
  · cases h

/-- A file can be put where there is no directory. -/
theorem IsTree.put_dated {content : Bytes} {modified : Nat} (tree : d.IsTree) (proper : place ≠ [])
    (above : d.node? place.dropLast = some .directory)
    (file : d.node? place ≠ some .directory) :
    SetsDated place (some (content, modified)) d (d.put place (.file content modified)) where
  tree := tree.put proper above (.inr file)
  here := datedAt_put_self proper
  others _ apart := datedAt_put_of_ne apart

theorem eq_put_of_write {content : Bytes} {now : Nat} (h : d.write place content now = .ok d') :
    d.node? place.dropLast = some .directory ∧ d.node? place ≠ some .directory ∧
      d' = d.put place (.file content now) := by
  unfold Disk.write at h
  cases parent : d.checkParent place with
  | error fault => simp [parent, bind, Except.bind] at h
  | ok u =>
      simp only [parent, bind, Except.bind] at h
      split at h
      · cases h
      · next file =>
          cases h
          exact ⟨node?_of_checkParent parent, fun is => file is, rfl⟩

theorem IsTree.write_dated {content : Bytes} {now : Nat} (tree : d.IsTree) (proper : place ≠ [])
    (h : d.write place content now = .ok d') : SetsDated place (some (content, now)) d d' := by
  obtain ⟨above, file, rfl⟩ := eq_put_of_write h
  exact tree.put_dated proper above file

theorem IsTree.createNew_dated {now : Nat} (tree : d.IsTree) (proper : place ≠ [])
    (h : d.createNew place now = .ok d') :
    d.datedAt place = none ∧ SetsDated place (some ([], now)) d d' := by
  unfold Disk.createNew at h
  cases parent : d.checkParent place with
  | error fault => simp [parent, bind, Except.bind] at h
  | ok u =>
      simp only [parent, bind, Except.bind] at h
      split at h
      · cases h
      · next free =>
          cases h
          refine ⟨datedAt_eq_none_of free (by simp), ?_⟩
          exact tree.put_dated proper (node?_of_checkParent parent) (by simp [free])

theorem IsTree.removeFile_dated (tree : d.IsTree) (proper : place ≠ [])
    (h : d.removeFile place = .ok d') :
    (∃ content modified, d.datedAt place = some (content, modified)) ∧
      SetsDated place none d d' := by
  unfold Disk.removeFile at h
  split at h
  · cases h
  · next content modified found =>
      cases h
      have there := node?_of_stat found
      refine ⟨⟨content, modified, datedAt_eq_some_iff.2 there⟩, tree.erase (by simp [there]), ?_,
        fun q apart => ?_⟩
      · simp [datedAt, node?_erase_self proper]
      · simp [datedAt, node?_erase_of_ne apart]
  · cases h

theorem IsTree.setModified_dated {time : Nat} (tree : d.IsTree) (proper : place ≠ [])
    (h : d.setModified place time = .ok d') :
    ∃ content modified, d.datedAt place = some (content, modified) ∧
      SetsDated place (some (content, time)) d d' := by
  unfold Disk.setModified at h
  split at h
  · cases h
  · next content modified found =>
      cases h
      have there := node?_of_stat found
      exact ⟨content, modified, datedAt_eq_some_iff.2 there,
        tree.put_dated proper (tree _ _ proper there) (by simp [there])⟩
  · cases h

/-- The time of a file that is there can be set. -/
theorem IsTree.setModified_of_file {content : Bytes} (tree : d.IsTree)
    (file : d.fileAt place = some content) (time : Nat) :
    ∃ d', d.setModified place time = .ok d' := by
  obtain ⟨modified, there⟩ := fileAt_eq_some_iff.1 file
  refine ⟨d.put place (.file content time), ?_⟩
  simp [Disk.setModified, tree.stat_eq_ok_iff.2 there]

/-- Directories that are made take the place of nothing. -/
theorem IsTree.makeAlong (tree : d.IsTree) {names : List String} {q : Place}
    (start : d.node? q = some .directory) (h : d.makeAlong q (names.map .down) = .ok d') :
    d'.IsTree ∧ ∀ r, d'.datedAt r = d.datedAt r := by
  induction names generalizing d q with
  | nil =>
      cases h
      exact ⟨tree, fun _ => rfl⟩
  | cons name names ih =>
      simp only [List.map_cons, Disk.makeAlong] at h
      split at h
      · next there => exact ih tree there h
      · cases h
      · next free =>
          have proper : q ++ [name] ≠ [] := by simp
          have made : (d.put (q ++ [name]) .directory).IsTree :=
            tree.put proper (by rwa [List.dropLast_concat]) (.inl rfl)
          obtain ⟨tree', same⟩ := ih made (node?_put_self d proper _) h
          refine ⟨tree', fun r => ?_⟩
          rw [same r]
          by_cases here : r = q ++ [name]
          · subst here
            simp [datedAt, node?_put_self d proper, free]
          · exact datedAt_put_of_ne here

theorem IsTree.makeDirectories_dated (tree : d.IsTree) {above : Place}
    (h : d.makeDirectories above = .ok d') (place : Place) :
    SetsDated place (d.datedAt place) d d' := by
  obtain ⟨tree', same⟩ := tree.makeAlong (node?_nil d) h
  exact ⟨tree', same place, fun q _ => same q⟩

/-! ### Calls and bytes -/

theorem IsTree.write {content : Bytes} {now : Nat} (tree : d.IsTree) (proper : place ≠ [])
    (h : d.write place content now = .ok d') : Sets place (some content) d d' :=
  (tree.write_dated proper h).sets

theorem IsTree.createNew {now : Nat} (tree : d.IsTree) (proper : place ≠ [])
    (h : d.createNew place now = .ok d') : Sets place (some []) d d' :=
  (tree.createNew_dated proper h).2.sets

theorem IsTree.removeFile (tree : d.IsTree) (proper : place ≠ [])
    (h : d.removeFile place = .ok d') : Sets place none d d' :=
  (tree.removeFile_dated proper h).2.sets

theorem IsTree.setModified {time : Nat} (tree : d.IsTree) (proper : place ≠ [])
    (h : d.setModified place time = .ok d') : Sets place (d.fileAt place) d d' := by
  obtain ⟨content, modified, dated, sets⟩ := tree.setModified_dated proper h
  rw [fileAt_eq_map, dated]
  exact sets.sets

theorem IsTree.makeDirectories (tree : d.IsTree) {above : Place}
    (h : d.makeDirectories above = .ok d') (place : Place) : Sets place (d.fileAt place) d d' := by
  rw [fileAt_eq_map]
  exact (tree.makeDirectories_dated h place).sets

end Workbench.Files.Disk
