import DuckdbHdfs.Glob.BraceGrammar
import DuckdbHdfs.Glob.Parsing

/-!
# Expansions as patterns

The expansions of a pattern are patterns themselves: they have nothing left to expand, they consist
of characters of the pattern, they start where it starts, and they parse if it does.
-/

namespace DuckdbHdfs
namespace Glob

variable {pattern expanded : Text} {expansions : List Text}

theorem collectAlternatives_subset {depth : Nat} {alternatives collected : List Text}
    {current group after : Text}
    (scan : collectAlternatives depth alternatives current group = some (collected, after)) :
    after ⊆ group ∧
      ∀ alternative ∈ collected, alternative ∈ alternatives ∨ alternative ⊆ current ++ group := by
  fun_induction collectAlternatives depth alternatives current group with
  | case1 => cases scan
  | case2 => cases scan
  | case5 depth alternatives current rest =>
      obtain ⟨rfl, rfl⟩ : alternatives ++ [current] = collected ∧ rest = after := by
        simpa using scan
      refine ⟨List.subset_cons_self _ _, fun alternative mem => ?_⟩
      rcases List.mem_append.mp mem with old | new
      · exact .inl old
      · obtain rfl := List.mem_singleton.mp new
        exact .inr (List.subset_append_left _ _)
  | case7 depth alternatives current c rest _ _ _ _ ih =>
      obtain ⟨after_sub, ih⟩ := ih scan
      refine ⟨List.subset_cons_of_subset _ after_sub, fun alternative mem => ?_⟩
      rcases ih alternative mem with earlier | inside
      · rcases List.mem_append.mp earlier with old | new
        · exact .inl old
        · obtain rfl := List.mem_singleton.mp new
          exact .inr (List.subset_append_left _ _)
      · refine .inr fun d d_mem => ?_
        have d_mem := inside d_mem
        simp only [List.nil_append, List.mem_append, List.mem_cons] at d_mem ⊢
        tauto
  | _ =>
      rename_i ih
      obtain ⟨after_sub, ih⟩ := ih scan
      refine ⟨fun d d_mem => ?_, fun alternative mem => ?_⟩
      · have d_mem := after_sub d_mem
        simp only [List.mem_cons]
        tauto
      · refine (ih alternative mem).imp_right fun inside d d_mem => ?_
        have d_mem := inside d_mem
        simp only [List.mem_append, List.mem_cons] at d_mem ⊢
        tauto

/-- The induction over expansions: a property of plain patterns that holds of a pattern if it holds
of each of its splices that expands. -/
theorem expansion_induction {motive : Text → Text → Prop}
    (plain : ∀ pattern, splitBrace pattern = none → motive pattern pattern)
    (splice : ∀ {pattern before group alternatives after alternative expanded},
      splitBrace pattern = some (before, group) →
      collectAlternatives 1 [] [] group = some (alternatives, after) →
      alternative ∈ alternatives → motive (before ++ alternative ++ after) expanded →
        motive pattern expanded)
    (expanded_eq : expandBraces pattern = .ok expansions) (mem : expanded ∈ expansions) :
    motive pattern expanded := by
  induction length : pattern.length using Nat.strong_induction_on
    generalizing pattern expansions with
  | _ n ih =>
      rcases expandBraces_eq_ok expanded_eq with
        ⟨none_left, rfl⟩ | ⟨before, group, alternatives, after, parts, split, scan, all, rfl⟩
      · obtain rfl := List.mem_singleton.mp mem
        exact plain _ none_left
      · obtain ⟨part, part_mem, mem⟩ := List.mem_flatten.mp mem
        obtain ⟨alternative, alternative_mem, part_eq⟩ := all.exists_left_of_mem part_mem
        have shorter := splice_length split scan alternative_mem
        exact splice split scan alternative_mem (ih _ (length ▸ shorter) part_eq mem rfl)

theorem expandBraces_of_mem (expanded_eq : expandBraces pattern = .ok expansions)
    (mem : expanded ∈ expansions) : expandBraces expanded = .ok [expanded] := by
  refine expandBraces_of_splitBrace_none ?_
  exact expansion_induction (motive := fun _ expanded => splitBrace expanded = none)
    (fun _ none_left => none_left) (fun _ _ _ none_left => none_left) expanded_eq mem

theorem expansion_subset (expanded_eq : expandBraces pattern = .ok expansions)
    (mem : expanded ∈ expansions) : expanded ⊆ pattern := by
  refine expansion_induction (motive := fun pattern expanded => expanded ⊆ pattern)
    (fun _ _ => List.Subset.refl _) ?_ expanded_eq mem
  intro pattern before group alternatives after alternative expanded split scan alternative_mem sub
  obtain ⟨rfl, -, -⟩ := splitBrace_eq_some split
  obtain ⟨after_sub, collected_sub⟩ := collectAlternatives_subset scan
  have alternative_sub : alternative ⊆ group := by
    simpa using collected_sub alternative alternative_mem
  refine List.Subset.trans sub fun c c_mem => ?_
  rcases List.mem_append.mp c_mem with front | behind
  · rcases List.mem_append.mp front with first | inside
    · exact List.mem_append_left _ first
    · exact List.mem_append_right _ (.tail _ (alternative_sub inside))
  · exact List.mem_append_right _ (.tail _ (after_sub behind))

theorem head?_expansion (expanded_eq : expandBraces pattern = .ok expansions)
    (mem : expanded ∈ expansions) (absolute : pattern.head? = some '/') :
    expanded.head? = some '/' := by
  refine expansion_induction
    (motive := fun pattern expanded => pattern.head? = some '/' → expanded.head? = some '/')
    (fun _ _ absolute => absolute) ?_ expanded_eq mem absolute
  intro pattern before group alternatives after alternative expanded split scan _ ih absolute
  refine ih ?_
  obtain ⟨rfl, -, -⟩ := splitBrace_eq_some split
  cases before with
  | nil => simp at absolute
  | cons c before => exact absolute

/-- The expansions of a valid pattern are valid. -/
theorem GlobPlan.exists_parse_of_mem {includeHidden : Bool} {plan : GlobPlan}
    (parsed : parse pattern includeHidden = .ok plan)
    (expanded_eq : expandBraces pattern = .ok expansions) (mem : expanded ∈ expansions) :
    ∃ plan, parse expanded includeHidden = .ok plan := by
  obtain ⟨expansions', expanded_eq', parsed⟩ := Except.bind_eq_ok_iff.mp parsed
  obtain ⟨patterns, compiled, -⟩ := Except.bind_eq_ok_iff.mp parsed
  obtain rfl := Except.ok.inj (expanded_eq.symm.trans expanded_eq')
  have each := List.mapM_except_eq_ok_iff.mp compiled
  obtain ⟨components, -, component_eq⟩ := each.flip.exists_left_of_mem mem
  have own : parseExpansion expanded expanded = .ok components :=
    parseExpansion_eq_ok_iff.mpr (parseExpansion_eq_ok_iff.mp component_eq)
  refine ⟨ofPatterns [components] includeHidden, Except.bind_eq_ok_iff.mpr
    ⟨_, expandBraces_of_mem expanded_eq mem, Except.bind_eq_ok_iff.mpr ⟨[components], ?_, rfl⟩⟩⟩
  exact List.mapM_except_eq_ok_iff.mpr (.cons own .nil)

end Glob
end DuckdbHdfs
