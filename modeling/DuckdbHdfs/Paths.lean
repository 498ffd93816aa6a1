import DuckdbHdfs.Errors
import Mathlib.Data.List.DropRight

/-!
# Paths

Paths are compared by their non-empty components: a child's path has the components of its
directory followed by its own name, whatever separators the directory's path ends with.
-/

namespace DuckdbHdfs

/-- A path component: non-empty and free of separators. -/
structure ValidName (name : Text) : Prop where
  ne_nil : name ≠ []
  no_slash : '/' ∉ name

/-- The non-empty components of a path, `split('/')` without its empty parts. -/
def splitPath (path : Text) : List Text :=
  (path.splitOn '/').filter (· ≠ [])

/-- The absolute path spelled from its names. -/
def pathOf (names : List Text) : Text :=
  '/' :: ['/'].intercalate names

/-- The path reported for a child of a directory. -/
def childPath (path name : Text) : Text :=
  path.rdropWhile (· = '/') ++ '/' :: name

/-- What follows the last separator, or the whole path without one. -/
def baseName (path : Text) : Text :=
  path.rtakeWhile (· ≠ '/')

theorem not_mem_of_mem_splitOn {a : Char} {text part : Text} (mem : part ∈ text.splitOn a) :
    a ∉ part := by
  induction text generalizing part with
  | nil =>
      obtain rfl : part = [] := by simpa using mem
      simp
  | cons c text ih =>
      rw [List.splitOn_cons_eq_if_modifyHead] at mem
      split at mem
      · rcases List.mem_cons.mp mem with rfl | later
        · simp
        · exact ih later
      · rename_i different
        cases parts : text.splitOn a with
        | nil => simp [parts] at mem
        | cons first rest =>
            rw [parts, List.modifyHead_cons] at mem
            rcases List.mem_cons.mp mem with rfl | later
            · have earlier := ih (parts ▸ List.mem_cons_self)
              simpa [earlier] using fun equality : a = c => different (by simp [equality])
            · exact ih (parts ▸ .tail _ later)

theorem validName_of_mem_splitPath {path name : Text} (mem : name ∈ splitPath path) :
    ValidName name := by
  obtain ⟨part, nonempty⟩ : name ∈ path.splitOn '/' ∧ name ≠ [] := by
    simpa [splitPath] using mem
  exact ⟨nonempty, not_mem_of_mem_splitOn part⟩

theorem splitPath_append_slash (front back : Text) :
    splitPath (front ++ '/' :: back) = splitPath front ++ splitPath back := by
  rw [splitPath, List.splitOn_append_cons_self, List.filter_append, splitPath, splitPath]

@[simp]
theorem splitPath_nil : splitPath [] = [] := rfl

@[simp]
theorem splitPath_slash (path : Text) : splitPath ('/' :: path) = splitPath path := by
  simpa using splitPath_append_slash [] path

theorem splitPath_of_validName {name : Text} (valid : ValidName name) :
    splitPath name = [name] := by
  rw [splitPath, List.splitOn_eq_singleton valid.no_slash]
  simp [valid.ne_nil]

theorem splitPath_rdropWhile (path : Text) :
    splitPath (path.rdropWhile (· = '/')) = splitPath path := by
  induction path using List.reverseRecOn with
  | nil => rfl
  | append_singleton path c ih =>
      by_cases slash : c = '/'
      · subst slash
        rw [List.rdropWhile_concat_pos _ _ _ (by simp), ih, splitPath_append_slash]
        simp
      · rw [List.rdropWhile_concat_neg _ _ _ (by simpa using slash)]

theorem splitPath_childPath {path name : Text} (valid : ValidName name) :
    splitPath (childPath path name) = splitPath path ++ [name] := by
  rw [childPath, splitPath_append_slash, splitPath_rdropWhile, splitPath_of_validName valid]

theorem baseName_childPath {path name : Text} (valid : ValidName name) :
    baseName (childPath path name) = name := by
  have plain : ∀ c ∈ name.reverse, (decide (c ≠ '/')) = true := fun c mem => by
    simpa using fun equality : c = '/' => valid.no_slash (by simpa [equality] using mem)
  rw [baseName, childPath, List.rtakeWhile, List.reverse_append, List.reverse_cons,
    List.append_assoc, List.takeWhile_append_of_pos plain]
  simp

theorem pathOf_eq_flatMap {names : List Text} (nonempty : names ≠ []) :
    pathOf names = names.flatMap ('/' :: ·) := by
  induction names with
  | nil => exact absurd rfl nonempty
  | cons name names ih =>
      cases names with
      | nil => simp [pathOf]
      | cons next rest =>
          have later := ih (by simp)
          rw [pathOf] at later
          rw [pathOf, List.intercalate_cons_cons, List.flatMap_cons, ← later]
          simp

theorem pathOf_concat {names : List Text} {name : Text} (nonempty : names ≠ []) :
    pathOf (names ++ [name]) = pathOf names ++ '/' :: name := by
  rw [pathOf_eq_flatMap nonempty, pathOf_eq_flatMap (by simp), List.flatMap_append]
  simp

theorem childPath_pathOf {names : List Text} {name : Text}
    (valid : ∀ name ∈ names, ValidName name) :
    childPath (pathOf names) name = pathOf (names ++ [name]) := by
  induction names using List.reverseRecOn with
  | nil => simp [childPath, pathOf, List.rdropWhile]
  | append_singleton names last _ =>
      have last_valid := valid last (by simp)
      obtain ⟨front, c, rfl⟩ : ∃ front c, last = front ++ [c] :=
        ⟨last.dropLast, last.getLast last_valid.ne_nil,
          (List.dropLast_append_getLast last_valid.ne_nil).symm⟩
      have not_slash : c ≠ '/' := fun equality =>
        last_valid.no_slash (by simp [equality])
      obtain ⟨path, path_eq⟩ : ∃ path, pathOf (names ++ [front ++ [c]]) = path ++ [c] := by
        cases names with
        | nil => exact ⟨'/' :: front, by simp [pathOf]⟩
        | cons first rest =>
            refine ⟨pathOf (first :: rest) ++ '/' :: front, ?_⟩
            rw [pathOf_concat (by simp)]
            simp
      have grown : pathOf (names ++ [front ++ [c]] ++ [name]) =
          pathOf (names ++ [front ++ [c]]) ++ '/' :: name := pathOf_concat (by simp)
      rw [grown, childPath, path_eq, List.rdropWhile_concat_neg _ _ _ (by simpa using not_slash)]

/-- Splitting recovers the names an absolute path was spelled from. -/
theorem splitPath_pathOf {names : List Text} (valid : ∀ name ∈ names, ValidName name) :
    splitPath (pathOf names) = names := by
  induction names using List.reverseRecOn with
  | nil => rfl
  | append_singleton names name ih =>
      rw [← childPath_pathOf fun other mem => valid other (by simp [mem]),
        splitPath_childPath (valid name (by simp)), ih fun other mem => valid other (by simp [mem])]

theorem pathOf_inj {names names' : List Text} (valid : ∀ name ∈ names, ValidName name)
    (valid' : ∀ name ∈ names', ValidName name) : pathOf names = pathOf names' ↔ names = names' := by
  constructor
  · intro equality
    rw [← splitPath_pathOf valid, equality, splitPath_pathOf valid']
  · rintro rfl
    rfl

end DuckdbHdfs
