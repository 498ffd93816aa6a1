import DuckdbHdfs.Glob.Escapes
import DuckdbHdfs.Glob.Parsing
import DuckdbHdfs.Glob.PatternLanguage

/-!
# Literal components

A component without unescaped wildcards is compared as a string, and the string is what the
wildcard matcher would accept.  Any text is spelled by escaping all of its characters, so a plan
can name every path exactly.
-/

namespace DuckdbHdfs
namespace Glob

section Spells

variable {comp text : Text}

/-- The wildcard matcher accepts exactly the spelled text. -/
theorem Spells.inLanguage_iff (spells : Spells comp text) (paired : Paired comp) {name : Text} :
    InLanguage name comp ↔ name = text := by
  induction spells generalizing name with
  | nil => exact inLanguage_nil
  | dangling => exact absurd paired not_paired_dangling
  | escaped rest ih =>
      have later := @ih (paired_escaped_iff.mp paired)
      cases name with
      | nil => simp [inLanguage_nil_name]
      | cons d name =>
          rw [inLanguage_escaped]
          simp [later, eq_comm]
  | @plain c _ _ ordinary rest ih =>
      have not_escape : c ≠ '\\' := fun escape => by simp [escape] at ordinary
      have not_star : c ≠ '*' := fun star => by simp [star] at ordinary
      have later := @ih ((paired_plain_iff not_escape).mp paired)
      cases name with
      | nil => simp [inLanguage_nil_name, not_star]
      | cons d name =>
          rw [inLanguage_plain (by simpa [and_comm, and_assoc] using ordinary), later]
          simp

theorem Spells.explicitHiddenPrefix (spells : Spells comp text) (hidden : isHidden text = true) :
    Glob.explicitHiddenPrefix comp = true := by
  cases spells with
  | nil => simp [isHidden] at hidden
  | dangling => simp [isHidden] at hidden
  | escaped rest => simpa [Glob.explicitHiddenPrefix, isHidden] using hidden
  | plain ordinary rest =>
      rw [Glob.explicitHiddenPrefix, if_neg fun escape => by simp [escape] at ordinary]
      simpa [isHidden] using hidden

end Spells

/-- `parse_component` classifies a component as a literal exactly if it has no unescaped
wildcard.  Its comparison with the unescaped text then agrees with `match_component`, and with
what the wildcard arm of `match_at` would accept, hidden names included. -/
theorem parseComponent_literal_agrees {comp : Text} (not_crawl : comp ≠ ['*', '*'])
    (paired : Paired comp) :
    ((∃ s, parseComponent comp = .literal s) ↔ ¬HasUnescaped ['*', '?', '['] comp) ∧
      ∀ s, parseComponent comp = .literal s → ∀ name,
        (name = s ↔ matchComponent name comp = true) ∧
          ∀ includeHidden, (Component.literal s).accepts includeHidden name =
            (Component.pattern comp).accepts includeHidden name := by
  constructor
  · rw [← literalText_eq_none_iff, ← ne_eq, Option.ne_none_iff_exists']
    unfold parseComponent
    rw [if_neg not_crawl]
    cases literalText [] comp <;> simp
  · intro s parsed name
    have spells := parseComponent_literal_iff.mp parsed
    have agrees : name = s ↔ matchComponent name comp = true := by
      rw [matchComponent, matchChars_iff, spells.inLanguage_iff paired]
    refine ⟨agrees, fun includeHidden => ?_⟩
    rw [Bool.eq_iff_iff]
    simp only [Component.accepts, decide_eq_true_eq, Bool.and_eq_true, Bool.or_eq_true, visible,
      Bool.not_eq_true']
    rw [← agrees]
    constructor
    · rintro rfl
      refine ⟨?_, rfl⟩
      cases hidden : isHidden name with
      | false => exact .inl (.inr rfl)
      | true => exact .inr (spells.explicitHiddenPrefix hidden)
    · exact fun accepted => accepted.2

/-- `a\*` is the literal `a*`. -/
theorem parseComponent_literal_agrees_escapedStar :
    ((∃ s, parseComponent ['a', '\\', '*'] = .literal s) ↔
        ¬HasUnescaped ['*', '?', '['] ['a', '\\', '*']) ∧
      ∀ s, parseComponent ['a', '\\', '*'] = .literal s → ∀ name,
        (name = s ↔ matchComponent name ['a', '\\', '*'] = true) ∧
          ∀ includeHidden, (Component.literal s).accepts includeHidden name =
            (Component.pattern ['a', '\\', '*']).accepts includeHidden name :=
  parseComponent_literal_agrees (by decide) (.plain (by decide) (.escaped .nil))

namespace GlobPlan

end GlobPlan
end Glob
end DuckdbHdfs
