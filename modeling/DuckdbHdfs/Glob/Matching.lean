import DuckdbHdfs.Errors

/-!
# Matching one path component

`matchComponent` is the index loop of the globber read on suffixes: where the source advances
`si` and `pi`, the model drops the consumed characters.
-/

namespace DuckdbHdfs
namespace Glob

/-- Scan class members up to the closing bracket.  `first` holds at the position right after
the optional `!`, where a `]` is a member. -/
def matchClassMembers (c : Char) (first found : Bool) : Text → Option (Bool × Text)
  | [] => none
  | head :: rest =>
      if head = ']' ∧ first = false then
        some (found, rest)
      else
        match rest with
        | dash :: high :: after =>
            if dash = '-' ∧ high ≠ ']' then
              matchClassMembers c false (found || (head ≤ c && c ≤ high)) after
            else
              matchClassMembers c false (found || head == c) (dash :: high :: after)
        | short => matchClassMembers c false (found || head == c) short

/-- The optional `!` of a class, and the members after it. -/
def classInvert (p : Text) : Bool × Text :=
  if p.head? = some '!' then (true, p.tail) else (false, p)

/-- Match `c` against the class whose text starts just past its `[`; the result is what follows
the closing `]`, or `none` when the class is unclosed or does not match. -/
def matchClass (c : Char) (p : Text) : Option Text :=
  match matchClassMembers c true false (classInvert p).2 with
  | none => none
  | some (found, after) => if found ≠ (classInvert p).1 then some after else none

theorem matchClassMembers_length {c : Char} {p after : Text} {first found matched : Bool}
    (scan : matchClassMembers c first found p = some (matched, after)) :
    after.length < p.length := by
  fun_induction matchClassMembers c first found p with
  | case1 => simp at scan
  | case2 first found head rest closing =>
      obtain ⟨-, rfl⟩ := by simpa using scan
      simp
  | case3 first found head closing dash high after' range ih =>
      have := ih scan
      simp only [List.length_cons]
      omega
  | case4 first found head closing dash high after' range ih =>
      have := ih scan
      simp only [List.length_cons] at this ⊢
      omega
  | case5 first found head short closing _ ih =>
      have := ih scan
      simp only [List.length_cons]
      omega

theorem classInvert_length (p : Text) : (classInvert p).2.length ≤ p.length := by
  unfold classInvert
  split <;> simp

theorem matchClass_eq_some_iff {c : Char} {p after : Text} :
    matchClass c p = some after ↔
      matchClassMembers c true false (classInvert p).2 = some (!(classInvert p).1, after) := by
  unfold matchClass
  cases matchClassMembers c true false (classInvert p).2 with
  | none => simp
  | some result =>
      obtain ⟨found, rest⟩ := result
      cases found <;> cases (classInvert p).1 <;> simp

theorem matchClass_length {c : Char} {p after : Text} (scan : matchClass c p = some after) :
    after.length < p.length :=
  (matchClassMembers_length (matchClass_eq_some_iff.mp scan)).trans_le (classInvert_length p)

/-- Match a name against a pattern, both as character sequences.  A run of `*` tries the rest of
the pattern at every non-empty suffix of the name. -/
def matchChars : Text → Text → Bool
  | c :: s, d :: p =>
      if d = '*' then
        let after := p.dropWhile (· = '*')
        if after = [] then
          true
        else
          (List.range (s.length + 1)).any fun start => matchChars ((c :: s).drop start) after
      else if d = '?' then
        matchChars s p
      else if d = '[' then
        match _scan : matchClass c p with
        | some after => matchChars s after
        | none => false
      else if d = '\\' then
        match p with
        | [] => false
        | e :: after => if c = e then matchChars s after else false
      else if c = d then
        matchChars s p
      else
        false
  | s, p => s = [] && p.dropWhile (· = '*') = []
termination_by _ p => p.length
decreasing_by
  · simp only [List.length_cons]
    have := (List.dropWhile_suffix (l := p) (· = '*')).length_le
    omega
  · simp
  · have := matchClass_length ‹matchClass c p = some after›
    simp only [List.length_cons]
    omega
  · simp only [List.length_cons]
    omega
  · simp

/-- Match a single path component `name` against `pattern`. -/
def matchComponent (name pattern : Text) : Bool :=
  matchChars name pattern

end Glob
end DuckdbHdfs
