import DuckdbHdfs.Errors
import DuckdbHdfs.Library.ExceptList

/-!
# Brace expansion

`expandBraces` splices each alternative of the leftmost group into the text around it and
rescans the result.  Every splice drops at least the two braces, so the text shrinks.
-/

namespace DuckdbHdfs
namespace Glob

/-- Split a pattern around its first unescaped `{`; `none` when there is none. -/
def splitBrace : Text → Option (Text × Text)
  | [] => none
  | c :: rest =>
      if c = '\\' then
        match rest with
        | [] => none
        | escaped :: after =>
            (splitBrace after).map fun (before, group) => (c :: escaped :: before, group)
      else if c = '{' then
        some ([], rest)
      else
        (splitBrace rest).map fun (before, group) => (c :: before, group)

/-- Collect the top-level alternatives of a group up to its matching `}`, with the text behind
it; `none` when the group is unclosed. -/
def collectAlternatives (depth : Nat) (alternatives : List Text) (current : Text) :
    Text → Option (List Text × Text)
  | [] => none
  | c :: rest =>
      if c = '\\' then
        match rest with
        | [] => none
        | escaped :: after =>
            collectAlternatives depth alternatives (current ++ [c, escaped]) after
      else if c = '{' then
        collectAlternatives (depth + 1) alternatives (current ++ [c]) rest
      else if c = '}' then
        if depth - 1 = 0 then
          some (alternatives ++ [current], rest)
        else
          collectAlternatives (depth - 1) alternatives (current ++ [c]) rest
      else if c = ',' ∧ depth = 1 then
        collectAlternatives depth (alternatives ++ [current]) [] rest
      else
        collectAlternatives depth alternatives (current ++ [c]) rest

theorem splitBrace_length {pattern before group : Text}
    (split : splitBrace pattern = some (before, group)) :
    before.length + group.length < pattern.length := by
  fun_induction splitBrace pattern generalizing before group with
  | case1 => simp at split
  | case2 => simp at split
  | case3 escaped after ih =>
      obtain ⟨before', split', rfl⟩ : ∃ before', splitBrace after = some (before', group) ∧
          '\\' :: escaped :: before' = before := by simpa using split
      have := ih split'
      simp only [List.length_cons]
      omega
  | case4 =>
      obtain ⟨rfl, rfl⟩ : [] = before ∧ _ = group := by simpa using split
      simp
  | case5 c rest not_escape not_open ih =>
      obtain ⟨before', split', rfl⟩ : ∃ before', splitBrace rest = some (before', group) ∧
          c :: before' = before := by simpa using split
      have := ih split'
      simp only [List.length_cons]
      omega

theorem collectAlternatives_after_length {depth : Nat} {alternatives collected : List Text}
    {current group after : Text}
    (scan : collectAlternatives depth alternatives current group = some (collected, after)) :
    after.length < group.length := by
  fun_induction collectAlternatives depth alternatives current group with
  | case1 => simp at scan
  | case2 => simp at scan
  | case5 depth alternatives current rest =>
      obtain ⟨-, rfl⟩ : alternatives ++ [current] = collected ∧ rest = after := by
        simpa using scan
      simp
  | _ =>
      rename_i ih
      have := ih scan
      simp only [List.length_cons]
      omega

theorem collectAlternatives_length {depth : Nat} {alternatives collected : List Text}
    {current group after : Text}
    (scan : collectAlternatives depth alternatives current group = some (collected, after))
    {alternative : Text} (mem : alternative ∈ collected) :
    alternative ∈ alternatives ∨
      alternative.length + after.length < current.length + group.length := by
  fun_induction collectAlternatives depth alternatives current group with
  | case1 => simp at scan
  | case2 => simp at scan
  | case5 depth alternatives current rest =>
      obtain ⟨rfl, rfl⟩ : alternatives ++ [current] = collected ∧ rest = after := by
        simpa using scan
      rcases List.mem_append.mp mem with old | new
      · exact .inl old
      · obtain rfl := List.mem_singleton.mp new
        exact .inr (by simp)
  | case7 depth alternatives current c rest _ _ _ _ ih =>
      rcases ih scan with earlier | shorter
      · rcases List.mem_append.mp earlier with old | new
        · exact .inl old
        · obtain rfl := List.mem_singleton.mp new
          have := collectAlternatives_after_length scan
          exact .inr (by simp; omega)
      · simp only [List.length_nil] at shorter
        exact .inr (by simp; omega)
  | _ =>
      rename_i ih
      refine (ih scan).imp_right fun shorter => ?_
      simp only [List.length_append, List.length_cons, List.length_nil] at shorter ⊢
      omega

/-- Splicing an alternative into the text around its group shortens the pattern. -/
theorem splice_length {pattern before group after alternative : Text} {alternatives : List Text}
    (split : splitBrace pattern = some (before, group))
    (scan : collectAlternatives 1 [] [] group = some (alternatives, after))
    (mem : alternative ∈ alternatives) :
    (before ++ alternative ++ after).length < pattern.length := by
  have splitLength := splitBrace_length split
  have groupLength := collectAlternatives_length scan mem
  simp only [List.not_mem_nil, List.length_nil, Nat.zero_add, false_or] at groupLength
  simp only [List.length_append]
  omega

/-- Expand the brace groups of a pattern, leftmost first, into brace-free patterns. -/
def expandBraces (pattern : Text) : Except HdfsError (List Text) :=
  match _split : splitBrace pattern with
  | none => .ok [pattern]
  | some (before, group) =>
      match _scan : collectAlternatives 1 [] [] group with
      | none =>
          .error (.invalidPath
            ("Unclosed brace group in glob pattern '".toList ++ pattern ++ "'".toList))
      | some (alternatives, after) => do
          let expanded ← alternatives.attach.mapM fun ⟨alternative, _⟩ =>
            expandBraces (before ++ alternative ++ after)
          return expanded.flatten
termination_by pattern.length
decreasing_by
  exact splice_length ‹splitBrace pattern = some (before, group)›
    ‹collectAlternatives 1 [] [] group = some (alternatives, after)› ‹alternative ∈ alternatives›

theorem expandBraces_of_group {pattern before group after : Text} {alternatives : List Text}
    (split : splitBrace pattern = some (before, group))
    (scan : collectAlternatives 1 [] [] group = some (alternatives, after)) :
    expandBraces pattern =
      (do
        let expanded ← alternatives.mapM fun alternative =>
          expandBraces (before ++ alternative ++ after)
        return expanded.flatten) := by
  rw [expandBraces]
  split
  · simp_all
  · rename_i before' group' split'
    obtain ⟨rfl, rfl⟩ : before' = before ∧ group' = group := by simpa [split] using split'.symm
    split
    · simp_all
    · rename_i alternatives' after' scan'
      obtain ⟨rfl, rfl⟩ : alternatives' = alternatives ∧ after' = after := by
        simpa [scan] using scan'.symm
      simp only [List.mapM_subtype, List.unattach_attach]

theorem expandBraces_of_unclosed {pattern before group : Text}
    (split : splitBrace pattern = some (before, group))
    (scan : collectAlternatives 1 [] [] group = none) :
    expandBraces pattern =
      .error (.invalidPath
        ("Unclosed brace group in glob pattern '".toList ++ pattern ++ "'".toList)) := by
  rw [expandBraces]
  split
  · simp_all
  · rename_i before' group' split'
    obtain ⟨rfl, rfl⟩ : before' = before ∧ group' = group := by simpa [split] using split'.symm
    split
    · rfl
    · simp_all

theorem expandBraces_of_splitBrace_none {pattern : Text} (plain : splitBrace pattern = none) :
    expandBraces pattern = .ok [pattern] := by
  rw [expandBraces]
  split
  · rfl
  · simp_all

theorem collectAlternatives_ne_nil {depth : Nat} {alternatives collected : List Text}
    {current group after : Text}
    (scan : collectAlternatives depth alternatives current group = some (collected, after)) :
    collected ≠ [] := by
  fun_induction collectAlternatives depth alternatives current group with
  | case1 => simp at scan
  | case2 => simp at scan
  | case5 depth alternatives current rest =>
      obtain ⟨rfl, -⟩ : alternatives ++ [current] = collected ∧ rest = after := by
        simpa using scan
      simp
  | _ =>
      rename_i ih
      exact ih scan

/-- The two ways an expansion succeeds: the pattern is plain, or each of its splices expands. -/
theorem expandBraces_eq_ok {pattern : Text} {expansions : List Text}
    (expanded : expandBraces pattern = .ok expansions) :
    (splitBrace pattern = none ∧ expansions = [pattern]) ∨
      ∃ before group alternatives after parts,
        splitBrace pattern = some (before, group) ∧
          collectAlternatives 1 [] [] group = some (alternatives, after) ∧
          List.Forall₂ (fun alternative part =>
            expandBraces (before ++ alternative ++ after) = .ok part) alternatives parts ∧
          expansions = parts.flatten := by
  cases split : splitBrace pattern with
  | none =>
      rw [expandBraces_of_splitBrace_none split] at expanded
      exact .inl ⟨rfl, (Except.ok.inj expanded).symm⟩
  | some result =>
      obtain ⟨before, group⟩ := result
      cases scan : collectAlternatives 1 [] [] group with
      | none =>
          rw [expandBraces_of_unclosed split scan] at expanded
          contradiction
      | some result =>
          obtain ⟨alternatives, after⟩ := result
          rw [expandBraces_of_group split scan] at expanded
          obtain ⟨parts, all, flattened⟩ := Except.bind_eq_ok_iff.mp expanded
          exact .inr ⟨before, group, alternatives, after, parts, rfl, scan,
            List.mapM_except_eq_ok_iff.mp all, (Except.ok.inj flattened).symm⟩

/-- The list of expansions is never empty, so the pattern that fixes the walk root exists. -/
theorem expandBraces_ne_nil {pattern : Text} {expansions : List Text}
    (expanded : expandBraces pattern = .ok expansions) : expansions ≠ [] := by
  induction length : pattern.length using Nat.strong_induction_on
    generalizing pattern expansions with
  | _ n ih =>
      rcases expandBraces_eq_ok expanded with
        ⟨-, rfl⟩ | ⟨before, group, alternatives, after, parts, split, scan, all, rfl⟩
      · simp
      · cases all with
        | nil => exact absurd rfl (collectAlternatives_ne_nil scan)
        | cons first rest =>
            have shorter := splice_length split scan List.mem_cons_self
            have := ih _ (length ▸ shorter) first rfl
            simp [this]

end Glob
end DuckdbHdfs
