import DuckdbHdfs.Glob.Braces
import DuckdbHdfs.Glob.Matching
import DuckdbHdfs.Paths
import Mathlib.Data.List.Count

/-!
# Glob plans

A pattern compiles to a `GlobPlan`: the component lists of its brace expansions and the literal
root they share.  A walk carries a set of positions per directory and `GlobPlan.step` matches one
child against them.  Where the source indexes a vector or reaches `unreachable!`, the model
answers `none`.
-/

namespace DuckdbHdfs
namespace Glob

/-- One path level of an expanded pattern. -/
inductive Component
  /-- `**`: zero or more levels. -/
  | crawl
  /-- No unescaped wildcards; stored unescaped. -/
  | literal (text : Text)
  /-- Contains wildcards; stored raw. -/
  | pattern (raw : Text)
  deriving DecidableEq, Repr

/-- The current directory matched components `0..comp` of pattern `pat`. -/
structure Pos where
  /-- Index of the expanded pattern. -/
  pat : Nat
  /-- Index of the component the children are matched against. -/
  comp : Nat
  deriving DecidableEq, Repr

/-- The result of matching one child against a state set. -/
structure Step where
  /-- The child is itself a match. -/
  emit : Bool
  /-- States to descend into the child with. -/
  next : List Pos
  deriving DecidableEq, Repr

/-- A compiled glob pattern. -/
structure GlobPlan where
  /-- Component lists of the brace expansions. -/
  patterns : List (List Component)
  /-- Literal path the walk starts from. -/
  root : Text
  /-- States for the children of the root. -/
  initial : List Pos
  /-- Some pattern is fully literal and matches the root itself. -/
  emitRoot : Bool
  includeHidden : Bool
  deriving DecidableEq, Repr

/-- Hadoop-convention hidden name: it starts with `.` or `_`. -/
def isHidden (name : Text) : Bool :=
  name.head? = some '.' || name.head? = some '_'

/-- A name that starts with a dot or an underscore. -/
def HiddenName (name : Text) : Prop :=
  ∃ c rest, name = c :: rest ∧ (c = '.' ∨ c = '_')

theorem isHidden_iff {name : Text} : isHidden name = true ↔ HiddenName name := by
  cases name <;> simp [isHidden, HiddenName]

theorem isHidden_eq_false_iff {name : Text} : isHidden name = false ↔ ¬HiddenName name := by
  rw [← Bool.not_eq_true, isHidden_iff]

/-- Whether a raw component names a hidden first character, possibly escaped. -/
def explicitHiddenPrefix : Text → Bool
  | [] => false
  | c :: rest =>
      if c = '\\' then
        rest.head? = some '.' || rest.head? = some '_'
      else
        c = '.' || c = '_'

/-- Insert a state, keeping the set duplicate-free. -/
def pushState (states : List Pos) (pos : Pos) : List Pos :=
  if pos ∈ states then states else states ++ [pos]

/-- The scan of `parse_component`: the unescaped text, or `none` at an unescaped wildcard. -/
def literalText (literal : Text) : Text → Option Text
  | [] => some literal
  | c :: rest =>
      if c = '\\' then
        match rest with
        | [] => some (literal ++ ['\\'])
        | escaped :: after => literalText (literal ++ [escaped]) after
      else if c = '*' ∨ c = '?' ∨ c = '[' then
        none
      else
        literalText (literal ++ [c]) rest

/-- Classify one raw path component. -/
def parseComponent (comp : Text) : Component :=
  if comp = ['*', '*'] then
    .crawl
  else
    match literalText [] comp with
    | some literal => .literal literal
    | none => .pattern comp

/-- Compile one expansion, refusing a second `**`. -/
def parseExpansion (pattern expanded : Text) : Except HdfsError (List Component) :=
  let components := (splitPath expanded).map parseComponent
  if components.count .crawl > 1 then
    .error (.invalidPath
      ("Cannot use multiple '**' in one path: '".toList ++ pattern ++ "'".toList))
  else
    .ok components

/-- Grow the literal prefix from component `k` of the first pattern, as long as the other
patterns agree on it. -/
def growPrefix (others : List (List Component)) (k : Nat) : List Component → List Text
  | .literal first :: rest =>
      if others.all fun pattern => pattern[k]? = some (.literal first) then
        first :: growPrefix others (k + 1) rest
      else
        []
  | _ => []

/-- The longest literal prefix shared by all patterns.  The source reads `patterns[0]`, which
exists because `expandBraces` never returns an empty list. -/
def sharedPrefix : List (List Component) → List Text
  | [] => []
  | first :: others => growPrefix others 0 first

namespace GlobPlan

/-- Compile the component lists of the expansions. -/
def ofPatterns (patterns : List (List Component)) (includeHidden : Bool) : GlobPlan :=
  let shared := sharedPrefix patterns
  let consumed := shared.length
  { patterns
    root := pathOf shared
    initial := (patterns.zipIdx.filter fun (components, _) => components.length ≠ consumed).map
      fun (_, pat) => { pat, comp := consumed }
    emitRoot := patterns.any fun components => components.length = consumed
    includeHidden }

/-- Compile a glob pattern. -/
def parse (pattern : Text) (includeHidden : Bool) : Except HdfsError GlobPlan := do
  let expansions ← expandBraces pattern
  let patterns ← expansions.mapM (parseExpansion pattern)
  return ofPatterns patterns includeHidden

/-- Match a name against the single component at `pos`, recording an emission or a descent
state in `step`. -/
def matchAt (plan : GlobPlan) (pos : Pos) (name : Text) (isDir : Bool) (step : Step) :
    Option Step := do
  let components ← plan.patterns[pos.pat]?
  let matched ←
    match ← components[pos.comp]? with
    | .literal s => some (decide (name = s))
    | .pattern p =>
        some ((plan.includeHidden || !isHidden name || explicitHiddenPrefix p) &&
          matchComponent name p)
    | .crawl => none
  if !matched then
    some step
  else if pos.comp + 1 = components.length then
    some { step with emit := true }
  else if isDir then
    some { step with next := pushState step.next { pos with comp := pos.comp + 1 } }
  else
    some step

/-- Match a name against one state. -/
def stepState (plan : GlobPlan) (name : Text) (isDir crawlBlocked : Bool) (step : Step)
    (pos : Pos) : Option Step := do
  let components ← plan.patterns[pos.pat]?
  let component ← components[pos.comp]?
  if component = .crawl then
    let step ←
      if pos.comp + 1 = components.length then
        some (if crawlBlocked then step else { step with emit := true })
      else
        plan.matchAt { pos with comp := pos.comp + 1 } name isDir step
    some (if isDir && !crawlBlocked then { step with next := pushState step.next pos } else step)
  else
    plan.matchAt pos name isDir step

/-- Match one child of a directory holding `states` by name. -/
def step (plan : GlobPlan) (states : List Pos) (name : Text) (isDir : Bool) : Option Step :=
  let crawlBlocked := !plan.includeHidden && isHidden name
  states.foldlM (plan.stepState name isDir crawlBlocked) { emit := false, next := [] }

end GlobPlan

@[simp]
theorem mem_pushState {states : List Pos} {pos other : Pos} :
    other ∈ pushState states pos ↔ other ∈ states ∨ other = pos := by
  unfold pushState
  split
  · rename_i mem
    constructor
    · exact .inl
    · rintro (old | rfl)
      · exact old
      · exact mem
  · simp

theorem nodup_pushState {states : List Pos} (nodup : states.Nodup) (pos : Pos) :
    (pushState states pos).Nodup := by
  unfold pushState
  split
  · exact nodup
  · rename_i fresh
    simpa [List.nodup_append, fresh] using ⟨nodup, fun other mem equality => fresh (equality ▸ mem)⟩

end Glob
end DuckdbHdfs
