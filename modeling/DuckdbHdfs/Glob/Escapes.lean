import DuckdbHdfs.Glob.Plan

/-!
# Escapes

Every scanner of a pattern skips a backslash together with the character behind it.  A text is
`Paired` when it consists of such pairs and of plain characters; a character is unescaped when the
text in front of it is paired.
-/

namespace DuckdbHdfs
namespace Glob

/-- The text does not end in an unpaired backslash. -/
inductive Paired : Text → Prop
  | nil : Paired []
  | escaped {c : Char} {text : Text} (rest : Paired text) : Paired ('\\' :: c :: text)
  | plain {c : Char} {text : Text} (ordinary : c ≠ '\\') (rest : Paired text) : Paired (c :: text)

/-- Some character of `marks` occurs unescaped. -/
def HasUnescaped (marks : List Char) (text : Text) : Prop :=
  ∃ front mark back, text = front ++ mark :: back ∧ Paired front ∧ mark ∈ marks

@[simp]
theorem paired_escaped_iff {c : Char} {text : Text} : Paired ('\\' :: c :: text) ↔ Paired text := by
  constructor
  · intro paired
    cases paired with
    | escaped rest => exact rest
    | plain ordinary _ => exact absurd rfl ordinary
  · exact .escaped

theorem paired_plain_iff {c : Char} {text : Text} (ordinary : c ≠ '\\') :
    Paired (c :: text) ↔ Paired text := by
  constructor
  · intro paired
    cases paired with
    | escaped _ => exact absurd rfl ordinary
    | plain _ rest => exact rest
  · exact .plain ordinary

@[simp]
theorem not_paired_dangling : ¬Paired ['\\'] := by
  intro paired
  cases paired with
  | plain ordinary _ => exact ordinary rfl

theorem Paired.append {front back : Text} (paired : Paired front) :
    Paired (front ++ back) ↔ Paired back := by
  induction paired with
  | nil => rfl
  | escaped _ ih => exact paired_escaped_iff.trans ih
  | plain ordinary _ ih => exact (paired_plain_iff ordinary).trans ih

section HasUnescaped

variable {marks : List Char} {text : Text}

@[simp]
theorem not_hasUnescaped_nil : ¬HasUnescaped marks [] := by
  rintro ⟨front, mark, back, split, -⟩
  simp at split

theorem hasUnescaped_escaped_iff {c : Char} (no_escape : '\\' ∉ marks) :
    HasUnescaped marks ('\\' :: c :: text) ↔ HasUnescaped marks text := by
  constructor
  · rintro ⟨front, mark, back, split, paired, mem⟩
    cases paired with
    | nil =>
        obtain ⟨rfl, -⟩ : '\\' = mark ∧ c :: text = back := by simpa using split
        exact absurd mem no_escape
    | escaped rest =>
        obtain ⟨-, rfl⟩ : c = _ ∧ text = _ := by simpa using split
        exact ⟨_, mark, back, rfl, rest, mem⟩
    | plain ordinary _ =>
        obtain ⟨rfl, -⟩ : '\\' = _ ∧ c :: text = _ := by simpa using split
        exact absurd rfl ordinary
  · rintro ⟨front, mark, back, rfl, paired, mem⟩
    exact ⟨'\\' :: c :: front, mark, back, by simp, .escaped paired, mem⟩

theorem hasUnescaped_plain_iff {c : Char} (ordinary : c ≠ '\\') :
    HasUnescaped marks (c :: text) ↔ c ∈ marks ∨ HasUnescaped marks text := by
  constructor
  · rintro ⟨front, mark, back, split, paired, mem⟩
    cases paired with
    | nil =>
        obtain ⟨rfl, -⟩ : c = mark ∧ text = back := by simpa using split
        exact .inl mem
    | escaped _ =>
        obtain ⟨rfl, -⟩ : c = '\\' ∧ text = _ := by simpa using split
        exact absurd rfl ordinary
    | plain _ rest =>
        obtain ⟨-, rfl⟩ : c = _ ∧ text = _ := by simpa using split
        exact .inr ⟨_, mark, back, rfl, rest, mem⟩
  · rintro (mem | ⟨front, mark, back, rfl, paired, mem⟩)
    · exact ⟨[], c, text, rfl, .nil, mem⟩
    · exact ⟨c :: front, mark, back, rfl, .plain ordinary paired, mem⟩

theorem not_hasUnescaped_dangling (no_escape : '\\' ∉ marks) : ¬HasUnescaped marks ['\\'] := by
  rintro ⟨front, mark, back, split, -, mem⟩
  rcases List.append_eq_cons_iff.mp split.symm with ⟨rfl, last⟩ | ⟨front, rfl, empty⟩
  · obtain ⟨rfl, -⟩ : mark = '\\' ∧ back = [] := by simpa using last
    exact no_escape mem
  · simp at empty

end HasUnescaped

/-- The brace scanner stops at the first unescaped `{`. -/
theorem splitBrace_eq_none_iff {pattern : Text} :
    splitBrace pattern = none ↔ ¬HasUnescaped ['{'] pattern := by
  fun_induction splitBrace pattern with
  | case1 => simp
  | case2 => simp [not_hasUnescaped_dangling]
  | case3 escaped after ih => simp [ih, hasUnescaped_escaped_iff]
  | case4 rest not_escape => simp [hasUnescaped_plain_iff not_escape]
  | case5 c rest not_escape not_open ih =>
      simp [ih, hasUnescaped_plain_iff not_escape, not_open]

/-- The component classifier finds a literal exactly without an unescaped wildcard. -/
theorem literalText_eq_none_iff {comp literal : Text} :
    literalText literal comp = none ↔ HasUnescaped ['*', '?', '['] comp := by
  fun_induction literalText literal comp with
  | case1 => simp
  | case2 => simp [not_hasUnescaped_dangling]
  | case3 literal escaped after ih => simp [ih, hasUnescaped_escaped_iff]
  | case4 literal c rest not_escape wild => simp [hasUnescaped_plain_iff not_escape, wild]
  | case5 literal c rest not_escape tame ih =>
      simp [ih, hasUnescaped_plain_iff not_escape, tame]

theorem hasUnescaped_append_iff {marks : List Char} {front back : Text}
    (no_escape : '\\' ∉ marks) (paired : Paired front) :
    HasUnescaped marks (front ++ back) ↔ HasUnescaped marks front ∨ HasUnescaped marks back := by
  induction paired with
  | nil => simp
  | escaped _ ih =>
      simpa [hasUnescaped_escaped_iff no_escape] using ih
  | plain ordinary _ ih =>
      rw [List.cons_append, hasUnescaped_plain_iff ordinary, hasUnescaped_plain_iff ordinary, ih,
        or_assoc]

end Glob
end DuckdbHdfs
