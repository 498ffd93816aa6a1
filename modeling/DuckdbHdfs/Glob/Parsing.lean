import DuckdbHdfs.Glob.Residual

/-!
# What parsing establishes

A parsed plan has one component list per brace expansion, each with at most one `**`.  All of
them start with the literals of the root, and the initial states stand for what is left of them.
-/

namespace DuckdbHdfs
namespace Glob

/-- The text a component without unescaped wildcards spells: escapes drop their backslash, and a
dangling one stands for itself. -/
inductive Spells : Text → Text → Prop
  | nil : Spells [] []
  | dangling : Spells ['\\'] ['\\']
  | escaped {c : Char} {comp text : Text} (rest : Spells comp text) :
      Spells ('\\' :: c :: comp) (c :: text)
  | plain {c : Char} {comp text : Text} (ordinary : c ∉ ['\\', '*', '?', '['])
      (rest : Spells comp text) : Spells (c :: comp) (c :: text)

theorem literalText_eq_some_iff {comp literal result : Text} :
    literalText literal comp = some result ↔
      ∃ text, Spells comp text ∧ result = literal ++ text := by
  fun_induction literalText literal comp with
  | case1 literal =>
      constructor
      · intro scan
        exact ⟨[], .nil, by simpa using scan.symm⟩
      · rintro ⟨text, spells, rfl⟩
        cases spells
        simp
  | case2 literal =>
      constructor
      · intro scan
        exact ⟨['\\'], .dangling, by simpa using scan.symm⟩
      · rintro ⟨text, spells, rfl⟩
        cases spells with
        | dangling => rfl
        | plain ordinary _ => simp at ordinary
  | case3 literal escaped after ih =>
      rw [ih]
      constructor
      · rintro ⟨text, spells, rfl⟩
        exact ⟨escaped :: text, .escaped spells, by simp⟩
      · rintro ⟨text, spells, rfl⟩
        cases spells with
        | escaped rest => exact ⟨_, rest, by simp⟩
        | plain ordinary _ => simp at ordinary
  | case4 literal c rest not_escape wild =>
      constructor
      · intro scan
        simp at scan
      · rintro ⟨text, spells, rfl⟩
        cases spells with
        | plain ordinary _ => simp_all
        | _ => exact absurd rfl not_escape
  | case5 literal c rest not_escape tame ih =>
      rw [ih]
      constructor
      · rintro ⟨text, spells, rfl⟩
        exact ⟨c :: text, .plain (by simp_all) spells, by simp⟩
      · rintro ⟨text, spells, rfl⟩
        cases spells with
        | plain _ rest => exact ⟨_, rest, by simp⟩
        | _ => exact absurd rfl not_escape

theorem parseComponent_crawl_iff {comp : Text} :
    parseComponent comp = .crawl ↔ comp = ['*', '*'] := by
  unfold parseComponent
  split
  · simp_all
  · split <;> simp_all

theorem parseComponent_literal_iff {comp text : Text} :
    parseComponent comp = .literal text ↔ Spells comp text := by
  have spelled : literalText [] comp = some text ↔ Spells comp text := by
    simp [literalText_eq_some_iff]
  unfold parseComponent
  split
  · rename_i crawls
    subst crawls
    constructor
    · simp
    · intro spells
      cases spells with
      | plain ordinary _ => simp at ordinary
  · rw [← spelled]
    split <;> simp_all

theorem parseComponent_pattern_iff {comp raw : Text} :
    parseComponent comp = .pattern raw ↔
      raw = comp ∧ comp ≠ ['*', '*'] ∧ ∀ text, ¬Spells comp text := by
  constructor
  · intro parsed
    have not_crawl : comp ≠ ['*', '*'] := fun crawls => by
      simp [parseComponent_crawl_iff.mpr crawls] at parsed
    refine ⟨?_, not_crawl, fun text spells => ?_⟩
    · unfold parseComponent at parsed
      rw [if_neg not_crawl] at parsed
      split at parsed
      · simp at parsed
      · simpa using parsed.symm
    · simp [parseComponent_literal_iff.mpr spells] at parsed
  · rintro ⟨rfl, not_crawl, wild⟩
    cases parsed : parseComponent raw with
    | crawl => exact absurd (parseComponent_crawl_iff.mp parsed) not_crawl
    | literal text => exact absurd (parseComponent_literal_iff.mp parsed) (wild text)
    | pattern raw' =>
        unfold parseComponent at parsed
        rw [if_neg not_crawl] at parsed
        split at parsed
        · simp at parsed
        · exact parsed.symm

theorem Spells.validName {comp text : Text} (spells : Spells comp text) (valid : ValidName comp) :
    ValidName text := by
  constructor
  · cases spells with
    | nil => exact valid.ne_nil
    | _ => simp
  · have no_slash := valid.no_slash
    clear valid
    induction spells with
    | nil => simp
    | dangling => simp
    | escaped _ ih => simp_all
    | plain _ _ ih => simp_all

theorem literals_growPrefix (others : List (List Component)) (k : Nat) (first : List Component) :
    (growPrefix others k first).map .literal <+: first ∧
      ∀ other ∈ others, (growPrefix others k first).map .literal <+: other.drop k := by
  fun_induction growPrefix others k first with
  | case1 k s rest agree ih =>
      refine ⟨by simpa using ih.1, fun other mem => ?_⟩
      have here : other[k]? = some (.literal s) := by
        simpa using List.all_eq_true.mp agree other mem
      obtain ⟨inside, here⟩ := List.getElem?_eq_some_iff.mp here
      rw [List.drop_eq_getElem_cons inside, here]
      simpa using ih.2 other mem
  | case2 => simp
  | case3 => simp

/-- Every pattern starts with the literals of the shared prefix. -/
theorem literals_prefix_of_mem {patterns : List (List Component)} {components : List Component}
    (mem : components ∈ patterns) : (sharedPrefix patterns).map .literal <+: components := by
  cases patterns with
  | nil => simp at mem
  | cons first others =>
      have grown := literals_growPrefix others 0 first
      rcases List.mem_cons.mp mem with rfl | other
      · exact grown.1
      · exact grown.2 components other

/-- The components of an expanded pattern. -/
def componentsOf (expanded : Text) : List Component :=
  (splitPath expanded).map parseComponent

theorem parseExpansion_eq_ok_iff {pattern expanded : Text} {components : List Component} :
    parseExpansion pattern expanded = .ok components ↔
      components = componentsOf expanded ∧ components.count .crawl ≤ 1 := by
  unfold parseExpansion
  simp only
  split
  · rename_i many
    constructor
    · simp
    · rintro ⟨rfl, few⟩
      exact absurd few (not_le.mpr many)
  · rename_i few
    constructor
    · intro ok
      obtain rfl := Except.ok.inj ok
      exact ⟨rfl, not_lt.mp few⟩
    · rintro ⟨rfl, -⟩
      rfl

namespace GlobPlan

theorem parse_eq_ok {pattern : Text} {includeHidden : Bool} {plan : GlobPlan}
    (parsed : parse pattern includeHidden = .ok plan) :
    ∃ expansions, expandBraces pattern = .ok expansions ∧
      plan = ofPatterns (expansions.map componentsOf) includeHidden ∧ plan.WellFormed := by
  obtain ⟨expansions, expanded, parsed⟩ := Except.bind_eq_ok_iff.mp parsed
  obtain ⟨patterns, compiled, built⟩ := Except.bind_eq_ok_iff.mp parsed
  obtain rfl := Except.ok.inj built
  have each := List.mapM_except_eq_ok_iff.mp compiled
  simp only [parseExpansion_eq_ok_iff] at each
  have patterns_eq : expansions.map componentsOf = patterns := by
    rw [← List.forall₂_eq_eq_eq, List.forall₂_map_left_iff]
    exact each.imp fun _ _ compiled => compiled.1.symm
  refine ⟨expansions, expanded, by rw [patterns_eq], fun components mem => ?_⟩
  obtain ⟨_, -, -, few⟩ := each.exists_left_of_mem mem
  exact few

section OfPatterns

variable {patterns : List (List Component)} {includeHidden : Bool}

theorem mem_initial_ofPatterns {pos : Pos} :
    pos ∈ (ofPatterns patterns includeHidden).initial ↔
      ∃ components, patterns[pos.pat]? = some components ∧
        components.length ≠ (sharedPrefix patterns).length ∧
        pos.comp = (sharedPrefix patterns).length := by
  simp only [ofPatterns, List.mem_map, List.mem_filter, List.mem_zipIdx_iff_getElem?, Prod.exists,
    decide_eq_true_eq]
  constructor
  · rintro ⟨components, pat, ⟨pattern, longer⟩, rfl⟩
    exact ⟨components, pattern, longer, rfl⟩
  · rintro ⟨components, pattern, longer, comp_eq⟩
    exact ⟨components, pos.pat, ⟨pattern, longer⟩, by rw [← comp_eq]⟩

theorem emitRoot_ofPatterns :
    (ofPatterns patterns includeHidden).emitRoot = true ↔
      ∃ components ∈ patterns, components.length = (sharedPrefix patterns).length := by
  simp [ofPatterns]

/-- An initial state stands for what its pattern has left after the root. -/
theorem residual_initial_ofPatterns {pos : Pos}
    (mem : pos ∈ (ofPatterns patterns includeHidden).initial) :
    ∃ components, patterns[pos.pat]? = some components ∧
      (ofPatterns patterns includeHidden).Residual pos
        (components.drop (sharedPrefix patterns).length) := by
  obtain ⟨components, pattern, longer, comp_eq⟩ := mem_initial_ofPatterns.mp mem
  have shared := (literals_prefix_of_mem (List.mem_of_getElem? pattern)).length_le
  rw [List.length_map] at shared
  exact ⟨components, pattern, components, pattern, by omega, by rw [comp_eq]⟩

theorem initial_valid_ofPatterns :
    (ofPatterns patterns includeHidden).Valid (ofPatterns patterns includeHidden).initial := by
  intro pos mem
  obtain ⟨components, -, residual⟩ := residual_initial_ofPatterns mem
  exact ⟨_, residual⟩

end OfPatterns

theorem sharedPrefix_valid {expansions : List Text} (nonempty : expansions ≠ [])
    {name : Text} (mem : name ∈ sharedPrefix (expansions.map componentsOf)) : ValidName name := by
  obtain ⟨expanded, expanded_mem⟩ := List.exists_mem_of_ne_nil expansions nonempty
  have shared :
      (sharedPrefix (expansions.map componentsOf)).map .literal <+: componentsOf expanded :=
    literals_prefix_of_mem (List.mem_map_of_mem expanded_mem)
  obtain ⟨comp, comp_mem, parsed⟩ := List.mem_map.mp (shared.subset (List.mem_map_of_mem mem))
  exact (parseComponent_literal_iff.mp parsed).validName (validName_of_mem_splitPath comp_mem)

/-- What a walk may rely on: at most one `**` in each pattern, and initial states that stand for
remaining components. -/
structure Sound (plan : GlobPlan) : Prop where
  wellFormed : plan.WellFormed
  initial_valid : plan.Valid plan.initial

theorem parse_sound {pattern : Text} {includeHidden : Bool} {plan : GlobPlan}
    (parsed : parse pattern includeHidden = .ok plan) : plan.Sound := by
  obtain ⟨_, -, rfl, wellFormed⟩ := parse_eq_ok parsed
  exact ⟨wellFormed, initial_valid_ofPatterns⟩

end GlobPlan
end Glob
end DuckdbHdfs
