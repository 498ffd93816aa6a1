import DuckdbHdfs.Entries

/-!
# A namespace server that is asked twice

What the file system relies on when a mutating request reaches the server a second time, and a
tree of names that behaves so.
-/

namespace DuckdbHdfs

/-- A namespace server over states `σ` that no other client changes, with what the file system
relies on when a request is repeated. -/
structure NamespaceServer (σ : Type*) where
  missing : Text → σ → Prop
  isDirectory : Text → σ → Prop
  mkdirs : (path : Text) → (permission : Nat) → (createParent : Bool) → σ →
    Except HdfsError Unit × σ
  delete : (path : Text) → (recursive : Bool) → σ → Except HdfsError Bool × σ
  rename : (src dst : Text) → (overwrite : Bool) → σ → Except HdfsError Unit × σ
  isDirectory_of_mkdirs : ∀ {path permission createParent s s'},
    mkdirs path permission createParent s = (.ok (), s') → isDirectory path s'
  mkdirs_of_isDirectory : ∀ {path permission createParent s}, isDirectory path s →
    mkdirs path permission createParent s = (.ok (), s)
  missing_of_delete : ∀ {path recursive s s'},
    delete path recursive s = (.ok true, s') → missing path s'
  delete_of_missing : ∀ {path recursive s}, missing path s →
    delete path recursive s = (.ok false, s)
  missing_of_rename : ∀ {src dst overwrite s s'},
    rename src dst overwrite s = (.ok (), s') → missing src s'
  rename_of_missing : ∀ {src dst overwrite s}, missing src s →
    ∃ e, classify e = .notFound ∧ rename src dst overwrite s = (.error e, s)

/-- The files and directories below the root, by their names, with whether each is a directory. -/
abbrev NameTree := List (List Text × Bool)

namespace NameTree

/-- Whether a path is a directory, if it exists. -/
def find (names : List Text) (tree : NameTree) : Option Bool :=
  if names = [] then some true else tree.lookup names

/-- Something lies strictly below a path. -/
def occupied (names : List Text) (tree : NameTree) : Bool :=
  tree.any fun node => names <+: node.1 ∧ node.1 ≠ names

/-- The tree without a path and what lies below it. -/
def prune (names : List Text) (tree : NameTree) : NameTree :=
  tree.filter fun node => ¬names <+: node.1

/-- The subtree at `src`, put at `dst`. -/
def graft (src dst : List Text) (tree : NameTree) : NameTree :=
  (tree.filter fun node => src <+: node.1).map fun node =>
    (dst ++ node.1.drop src.length, node.2)

/-- An exception of the server. -/
def exception (className message : String) : HdfsError :=
  .rpcError className.toList message.toList

def mkdirs (names : List Text) (tree : NameTree) : Except HdfsError Unit × NameTree :=
  let paths := names.inits.tail
  if tree.find names = some true then
    (.ok (), tree)
  else if paths.any fun path => tree.find path = some false then
    (.error (exception "org.apache.hadoop.fs.ParentNotDirectoryException" "not a directory"), tree)
  else
    (.ok (), tree ++ (paths.filter fun path => tree.find path = none).map fun path => (path, true))

def delete (names : List Text) (recursive : Bool) (tree : NameTree) :
    Except HdfsError Bool × NameTree :=
  if tree.find names = none ∨ names = [] then
    (.ok false, tree)
  else if tree.occupied names ∧ recursive = false then
    (.error (exception "org.apache.hadoop.fs.PathIsNotEmptyDirectoryException" "not empty"), tree)
  else
    (.ok true, tree.prune names)

def rename (src dst : List Text) (overwrite : Bool) (tree : NameTree) :
    Except HdfsError Unit × NameTree :=
  if tree.find src = none then
    (.error (exception "java.io.FileNotFoundException" "rename source not found"), tree)
  else if src <+: dst then
    (.error (exception "java.io.IOException" "rename destination is under the source"), tree)
  else if tree.find dst.dropLast ≠ some true then
    (.error (exception "java.io.FileNotFoundException" "rename destination parent not found"), tree)
  else if tree.find dst ≠ none ∧ overwrite = false then
    (.error (exception "org.apache.hadoop.fs.FileAlreadyExistsException" "destination exists"),
      tree)
  else if tree.occupied dst ∨ (tree.find dst ≠ none ∧ tree.find dst ≠ tree.find src) then
    (.error (exception "java.io.IOException" "rename destination cannot be replaced"), tree)
  else
    (.ok (), (tree.prune src).prune dst ++ tree.graft src dst)

variable {names src dst : List Text} {tree tree' : NameTree}

theorem find_eq_none (nonempty : names ≠ []) :
    tree.find names = none ↔ ∀ node ∈ tree, node.1 ≠ names := by
  rw [find, if_neg nonempty, List.lookup_eq_none_iff]
  simp only [bne_iff_ne]
  exact forall₂_congr fun _ _ => ne_comm

theorem find_prune (nonempty : names ≠ []) : (tree.prune names).find names = none := by
  rw [find_eq_none nonempty]
  rintro node mem rfl
  simp [prune] at mem

theorem missing_of_delete {recursive : Bool}
    (deleted : tree.delete names recursive = (.ok true, tree')) : tree'.find names = none := by
  unfold delete at deleted
  split at deleted
  · cases deleted
  · rename_i present
    split at deleted
    · cases deleted
    · cases deleted
      exact find_prune fun root => present (.inr root)

theorem not_mem_graft (nonempty : src ≠ []) (not_below : ¬src <+: dst)
    (there : tree.find src ≠ none) (empty : ¬tree.occupied dst) :
    ∀ node ∈ tree.graft src dst, node.1 ≠ src := by
  intro node grafted node_eq
  obtain ⟨old, -, rfl⟩ := List.mem_map.mp grafted
  have above : dst <+: src := node_eq ▸ List.prefix_append dst _
  have differs : src ≠ dst := by
    rintro rfl
    exact not_below List.prefix_rfl
  rw [Ne, find_eq_none nonempty] at there
  push Not at there
  obtain ⟨source, mem, rfl⟩ := there
  exact empty (List.any_eq_true.mpr ⟨source, mem, by simpa using ⟨above, differs⟩⟩)

theorem missing_of_rename {overwrite : Bool}
    (moved : tree.rename src dst overwrite = (.ok (), tree')) : tree'.find src = none := by
  unfold rename at moved
  split_ifs at moved with absent below parent refused replaced
  all_goals cases moved
  have nonempty : src ≠ [] := by
    rintro rfl
    exact below List.nil_prefix
  rw [find_eq_none nonempty]
  intro node mem
  rcases List.mem_append.mp mem with kept | grafted
  · rintro rfl
    simp [prune] at kept
  · have empty : ¬tree.occupied dst := fun occupied => replaced (.inl occupied)
    exact not_mem_graft nonempty below absent empty node grafted

theorem find_of_mkdirs (made : tree.mkdirs names = (.ok (), tree')) :
    tree'.find names = some true := by
  unfold mkdirs at made
  simp only at made
  split at made
  · rename_i there
    cases made
    exact there
  · rename_i not_directory
    split at made
    · cases made
    · rename_i no_file
      cases made
      have nonempty : names ≠ [] := by
        rintro rfl
        exact not_directory rfl
      have own_path : names ∈ names.inits.tail := by
        obtain ⟨name, rest, rfl⟩ := List.exists_cons_of_ne_nil nonempty
        simp
      have not_file : tree.find names ≠ some false := by
        intro file
        exact no_file (List.any_eq_true.mpr ⟨names, own_path, by simpa using file⟩)
      have absent : tree.find names = none := by
        rcases found : tree.find names with _ | _ | _
        · rfl
        · exact absurd found not_file
        · exact absurd found not_directory
      have added : names ∈ names.inits.tail.filter fun path => tree.find path = none :=
        List.mem_filter.mpr ⟨own_path, by simpa using absent⟩
      rw [find, if_neg nonempty] at absent ⊢
      rw [List.lookup_append, absent, List.lookup_graph _ added]
      rfl

end NameTree

/-- The tree of names as a server. -/
def treeServer : NamespaceServer NameTree where
  missing path tree := tree.find (splitPath path) = none
  isDirectory path tree := tree.find (splitPath path) = some true
  mkdirs path _ _ tree := tree.mkdirs (splitPath path)
  delete path recursive tree := tree.delete (splitPath path) recursive
  rename src dst overwrite tree := tree.rename (splitPath src) (splitPath dst) overwrite
  isDirectory_of_mkdirs := NameTree.find_of_mkdirs
  mkdirs_of_isDirectory there := by
    simp only [NameTree.mkdirs]
    exact if_pos there
  missing_of_delete := NameTree.missing_of_delete
  delete_of_missing gone := if_pos (.inl gone)
  missing_of_rename := NameTree.missing_of_rename
  rename_of_missing gone := ⟨_, by decide, if_pos gone⟩

end DuckdbHdfs
