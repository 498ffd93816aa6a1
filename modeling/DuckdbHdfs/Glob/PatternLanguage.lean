import DuckdbHdfs.Glob.Matching
import Mathlib.Data.List.DropRight
import Mathlib.Data.List.Forall2
import Mathlib.Data.List.TakeWhile

/-!
# The language of a component pattern

A pattern is read left to right as a sequence of tokens, and a name matches when it splits into
consecutive pieces matched by them.  The index loop of `matchComponent` decides exactly this
relation; a pattern that cannot be read completely matches no name.
-/

namespace DuckdbHdfs
namespace Glob

/-- A member of a character class. -/
inductive Member
  | single (c : Char)
  | range (low high : Char)
  deriving DecidableEq, Repr

/-- The characters a member stands for. -/
def Member.Contains : Member → Char → Prop
  | .single d, c => d = c
  | .range low high, c => low ≤ c ∧ c ≤ high

/-- A token of a component pattern. -/
inductive Token
  /-- A maximal run of `*`. -/
  | run
  /-- `?`. -/
  | anyChar
  | charClass (invert : Bool) (members : List Member)
  /-- A backslash and the character it escapes. -/
  | escaped (c : Char)
  | plain (c : Char)
  deriving DecidableEq, Repr

/-- The pieces of a name a token matches. -/
def Token.Matches : Token → Text → Prop
  | .run, _ => True
  | .anyChar, piece => ∃ c, piece = [c]
  | .charClass invert members, piece =>
      ∃ c, piece = [c] ∧ ((∃ member ∈ members, member.Contains c) ↔ invert = false)
  | .escaped c, piece => piece = [c]
  | .plain c, piece => piece = [c]

/-- Read one class member; `a-b` is a range unless its third character is missing or `]`. -/
inductive ReadsMember : Text → Member → Text → Prop
  | range {low high : Char} {after : Text} (not_close : high ≠ ']') :
      ReadsMember (low :: '-' :: high :: after) (.range low high) after
  | single {c : Char} {after : Text}
      (not_range : ∀ high rest, after = '-' :: high :: rest → high = ']') :
      ReadsMember (c :: after) (.single c) after

/-- Read class members up to the first `]` that starts one.  While `first` holds there is no
member yet, and a `]` is read as a member. -/
inductive ReadsMembers : Bool → Text → List Member → Text → Prop
  | close {after : Text} : ReadsMembers false (']' :: after) [] after
  | member {first : Bool} {text rest after : Text} {member : Member} {members : List Member}
      (opens : text.head? = some ']' → first = true)
      (head : ReadsMember text member rest) (tail : ReadsMembers false rest members after) :
      ReadsMembers first text (member :: members) after

/-- Read a class from just past its `[`. -/
inductive ReadsClass : Text → Bool → List Member → Text → Prop
  | inverted {text after : Text} {members : List Member}
      (body : ReadsMembers true text members after) :
      ReadsClass ('!' :: text) true members after
  | direct {text after : Text} {members : List Member} (not_inverted : text.head? ≠ some '!')
      (body : ReadsMembers true text members after) :
      ReadsClass text false members after

/-- Read one token off the front of a pattern. -/
inductive ReadsToken : Text → Token → Text → Prop
  | run {count : Nat} {text after : Text} (stars : text = List.replicate (count + 1) '*' ++ after)
      (maximal : after.head? ≠ some '*') : ReadsToken text .run after
  | anyChar {after : Text} : ReadsToken ('?' :: after) .anyChar after
  | charClass {text after : Text} {invert : Bool} {members : List Member}
      (body : ReadsClass text invert members after) :
      ReadsToken ('[' :: text) (.charClass invert members) after
  | escaped {c : Char} {after : Text} : ReadsToken ('\\' :: c :: after) (.escaped c) after
  | plain {c : Char} {after : Text} (ordinary : c ∉ ['*', '?', '[', '\\']) :
      ReadsToken (c :: after) (.plain c) after

/-- Read a pattern completely. -/
inductive Reads : Text → List Token → Prop
  | nil : Reads [] []
  | cons {pattern after : Text} {token : Token} {tokens : List Token}
      (head : ReadsToken pattern token after) (tail : Reads after tokens) :
      Reads pattern (token :: tokens)

/-- The name splits into pieces matched by the tokens of the pattern, in order. -/
def InLanguage (name pattern : Text) : Prop :=
  ∃ tokens pieces,
    Reads pattern tokens ∧ pieces.flatten = name ∧ List.Forall₂ Token.Matches tokens pieces

theorem readsMember_short {c : Char} {rest after : Text} {member : Member}
    (short : ∀ dash high tail, rest ≠ dash :: high :: tail) :
    ReadsMember (c :: rest) member after ↔ member = .single c ∧ after = rest := by
  constructor
  · intro reads
    cases reads with
    | range => exact absurd rfl (short _ _ _)
    | single => exact ⟨rfl, rfl⟩
  · rintro ⟨rfl, rfl⟩
    exact .single fun high tail equality => absurd equality (short _ _ _)

theorem readsMember_range {c high : Char} {rest after : Text} {member : Member}
    (not_close : high ≠ ']') :
    ReadsMember (c :: '-' :: high :: rest) member after ↔
      member = .range c high ∧ after = rest := by
  constructor
  · intro reads
    cases reads with
    | range => exact ⟨rfl, rfl⟩
    | single not_range => exact absurd (not_range _ _ rfl) not_close
  · rintro ⟨rfl, rfl⟩
    exact .range not_close

theorem readsMember_single {c dash high : Char} {rest after : Text} {member : Member}
    (not_range : ¬(dash = '-' ∧ high ≠ ']')) :
    ReadsMember (c :: dash :: high :: rest) member after ↔
      member = .single c ∧ after = dash :: high :: rest := by
  constructor
  · intro reads
    cases reads with
    | range not_close => exact absurd ⟨rfl, not_close⟩ not_range
    | single => exact ⟨rfl, rfl⟩
  · rintro ⟨rfl, rfl⟩
    refine .single fun high' rest' equality => ?_
    obtain ⟨dash_eq, high_eq, -⟩ : dash = '-' ∧ high = high' ∧ rest = rest' := by
      simpa using equality
    by_contra not_close
    exact not_range ⟨dash_eq, high_eq ▸ not_close⟩

/-- Past a position that does not close the class, the readings start with its one member. -/
theorem exists_readsMembers_iff {c : Char} {first : Bool} {text rest after : Text}
    {member : Member} {Property : List Member → Prop} (opens : ¬(c = ']' ∧ first = false))
    (unique : ∀ other middle,
      ReadsMember (c :: text) other middle ↔ other = member ∧ middle = rest) :
    (∃ members, ReadsMembers first (c :: text) members after ∧ Property members) ↔
      ∃ members, ReadsMembers false rest members after ∧ Property (member :: members) := by
  constructor
  · rintro ⟨members, reads, property⟩
    cases reads with
    | close => exact absurd ⟨rfl, rfl⟩ opens
    | member _ head tail =>
        obtain ⟨rfl, rfl⟩ := (unique _ _).mp head
        exact ⟨_, tail, property⟩
  · rintro ⟨members, reads, property⟩
    refine ⟨_, .member (fun close => ?_) ((unique _ _).mpr ⟨rfl, rfl⟩) reads, property⟩
    cases first with
    | true => rfl
    | false => exact absurd ⟨by simpa using close, rfl⟩ opens

/-- The scan finds the closing bracket exactly where a reading does, and its flag records
whether some member contains the character. -/
theorem matchClassMembers_iff {c : Char} {first found matched : Bool} {p after : Text} :
    matchClassMembers c first found p = some (matched, after) ↔
      ∃ members, ReadsMembers first p members after ∧
        (matched = true ↔ found = true ∨ ∃ member ∈ members, member.Contains c) := by
  fun_induction matchClassMembers c first found p with
  | case1 first found =>
      constructor
      · intro scan
        simp at scan
      · rintro ⟨members, reads, -⟩
        cases reads with
        | member _ head _ => cases head
  | case2 first found head rest closing =>
      obtain ⟨rfl, rfl⟩ := closing
      constructor
      · intro scan
        obtain ⟨rfl, rfl⟩ : found = matched ∧ rest = after := by simpa using scan
        exact ⟨[], .close, by simp⟩
      · rintro ⟨members, reads, flag⟩
        cases reads with
        | close =>
            have flag_eq : found = matched := by
              cases found <;> cases matched <;> simp at flag ⊢
            rw [flag_eq]
        | member opens _ _ => simp at opens
  | case3 first found head closing dash high rest range ih =>
      obtain ⟨rfl, not_close⟩ := range
      rw [ih, exists_readsMembers_iff closing fun _ _ => readsMember_range not_close]
      simp [Member.Contains, or_assoc]
  | case4 first found head closing dash high rest range ih =>
      rw [ih, exists_readsMembers_iff closing fun _ _ => readsMember_single range]
      simp [Member.Contains, or_assoc]
  | case5 first found head closing short not_long ih =>
      rw [ih, exists_readsMembers_iff closing fun _ _ => readsMember_short not_long]
      simp [Member.Contains, or_assoc]

theorem matchClass_iff {c : Char} {p after : Text} :
    matchClass c p = some after ↔
      ∃ invert members, ReadsClass p invert members after ∧
        Token.Matches (.charClass invert members) [c] := by
  rw [matchClass_eq_some_iff, matchClassMembers_iff]
  simp only [Token.Matches, List.cons.injEq, and_true, exists_eq_left']
  unfold classInvert
  split
  · rename_i inverted
    obtain ⟨text, rfl⟩ : ∃ text, p = '!' :: text := by
      cases p with
      | nil => simp at inverted
      | cons d text => exact ⟨text, by simpa using inverted⟩
    constructor
    · rintro ⟨members, body, flag⟩
      exact ⟨true, members, .inverted body, by simpa using flag⟩
    · rintro ⟨invert, members, reads, flag⟩
      cases reads with
      | inverted body => exact ⟨members, body, by simpa using flag⟩
      | direct not_inverted _ => simp at not_inverted
  · rename_i not_inverted
    constructor
    · rintro ⟨members, body, flag⟩
      exact ⟨false, members, .direct not_inverted body, by simpa using flag⟩
    · rintro ⟨invert, members, reads, flag⟩
      cases reads with
      | inverted _ => simp at not_inverted
      | direct _ body => exact ⟨members, body, by simpa using flag⟩

theorem readsToken_run {p after : Text} {token : Token} :
    ReadsToken ('*' :: p) token after ↔ token = .run ∧ after = p.dropWhile (· = '*') := by
  constructor
  · intro reads
    cases reads with
    | @run count _ _ stars maximal =>
        obtain rfl : p = List.replicate count '*' ++ after := by
          simpa [List.replicate_succ] using stars
        refine ⟨rfl, ?_⟩
        rw [List.dropWhile_append_of_pos (by simp)]
        cases after with
        | nil => rfl
        | cons d rest => rw [List.dropWhile_cons_of_neg (by simpa using maximal)]
    | plain ordinary => simp at ordinary
  · rintro ⟨rfl, rfl⟩
    have stars : p.takeWhile (· = '*') = List.replicate (p.takeWhile (· = '*')).length '*' :=
      List.eq_replicate_of_mem fun d mem => by simpa using List.mem_takeWhile_imp mem
    refine @ReadsToken.run (p.takeWhile (· = '*')).length _ _ ?_ ?_
    · rw [List.replicate_succ, List.cons_append, ← stars, List.takeWhile_append_dropWhile]
    · intro head
      simpa [head] using List.head?_dropWhile_not (· = '*') p

theorem readsToken_anyChar {p after : Text} {token : Token} :
    ReadsToken ('?' :: p) token after ↔ token = .anyChar ∧ after = p := by
  constructor
  · intro reads
    cases reads with
    | run stars _ => simp [List.replicate_succ] at stars
    | anyChar => exact ⟨rfl, rfl⟩
    | plain ordinary => simp at ordinary
  · rintro ⟨rfl, rfl⟩
    exact .anyChar

theorem readsToken_charClass {p after : Text} {token : Token} :
    ReadsToken ('[' :: p) token after ↔
      ∃ invert members, token = .charClass invert members ∧ ReadsClass p invert members after := by
  constructor
  · intro reads
    cases reads with
    | run stars _ => simp [List.replicate_succ] at stars
    | charClass body => exact ⟨_, _, rfl, body⟩
    | plain ordinary => simp at ordinary
  · rintro ⟨invert, members, rfl, body⟩
    exact .charClass body

theorem readsToken_escaped {p after : Text} {token : Token} :
    ReadsToken ('\\' :: p) token after ↔ ∃ c, token = .escaped c ∧ p = c :: after := by
  constructor
  · intro reads
    cases reads with
    | run stars _ => simp [List.replicate_succ] at stars
    | escaped => exact ⟨_, rfl, rfl⟩
    | plain ordinary => simp at ordinary
  · rintro ⟨c, rfl, rfl⟩
    exact .escaped

theorem readsToken_plain {c : Char} {p after : Text} {token : Token}
    (ordinary : c ∉ ['*', '?', '[', '\\']) :
    ReadsToken (c :: p) token after ↔ token = .plain c ∧ after = p := by
  constructor
  · intro reads
    cases reads with
    | run stars _ =>
        obtain ⟨rfl, -⟩ : c = '*' ∧ _ := by simpa [List.replicate_succ] using stars
        simp at ordinary
    | anyChar => simp at ordinary
    | charClass _ => simp at ordinary
    | escaped => simp at ordinary
    | plain _ => exact ⟨rfl, rfl⟩
  · rintro ⟨rfl, rfl⟩
    exact .plain ordinary

/-! ## Names -/

theorem inLanguage_nil {name : Text} : InLanguage name [] ↔ name = [] := by
  constructor
  · rintro ⟨tokens, pieces, reads, rfl, split⟩
    cases reads with
    | nil =>
        cases split
        rfl
    | cons head _ =>
        cases head with
        | run stars _ => simp [List.replicate_succ] at stars
  · rintro rfl
    exact ⟨[], [], .nil, rfl, .nil⟩

/-- A name in the language of a non-empty pattern is a piece for its first token, followed by a
name in the language of the rest. -/
theorem inLanguage_cons_iff {name p : Text} {c : Char} :
    InLanguage name (c :: p) ↔
      ∃ token after piece tail, ReadsToken (c :: p) token after ∧ name = piece ++ tail ∧
        token.Matches piece ∧ InLanguage tail after := by
  constructor
  · rintro ⟨tokens, pieces, reads, rfl, split⟩
    cases reads with
    | cons head tail =>
        cases split with
        | cons first rest =>
            exact ⟨_, _, _, _, head, List.flatten_cons, first, _, _, tail, rfl, rest⟩
  · rintro ⟨token, after, piece, tail, head, rfl, first, tokens, pieces, reads, rfl, rest⟩
    exact ⟨token :: tokens, piece :: pieces, .cons head reads, List.flatten_cons, .cons first rest⟩

theorem inLanguage_run {name p : Text} :
    InLanguage name ('*' :: p) ↔
      ∃ piece tail, name = piece ++ tail ∧ InLanguage tail (p.dropWhile (· = '*')) := by
  simp [inLanguage_cons_iff, readsToken_run, Token.Matches]

/-- Every token other than a run of `*` matches single characters. -/
theorem Token.Matches.singleton {token : Token} {piece : Text} (first : token.Matches piece)
    (not_run : token ≠ .run) : ∃ c, piece = [c] := by
  cases token with
  | run => exact absurd rfl not_run
  | anyChar => exact first
  | charClass invert members => exact first.imp fun _ found => found.1
  | escaped c => exact ⟨c, first⟩
  | plain c => exact ⟨c, first⟩

theorem inLanguage_nil_name {p : Text} :
    InLanguage [] p ↔ p.dropWhile (· = '*') = [] := by
  have leading_run : ∀ {q : Text}, InLanguage [] q → q = [] ∨ q.head? = some '*' := by
    intro q matched
    cases q with
    | nil => exact .inl rfl
    | cons c q =>
        obtain ⟨token, after, piece, tail, reads, split, first, -⟩ :=
          inLanguage_cons_iff.mp matched
        obtain ⟨rfl, -⟩ : piece = [] ∧ tail = [] := by simpa using split.symm
        cases reads with
        | run stars _ =>
            obtain ⟨rfl, -⟩ : c = '*' ∧ _ := by simpa [List.replicate_succ] using stars
            exact .inr rfl
        | _ =>
            obtain ⟨d, equality⟩ := first.singleton (by simp)
            simp at equality
  constructor
  · intro matched
    rcases leading_run matched with rfl | head
    · rfl
    · obtain ⟨q, rfl⟩ : ∃ q, p = '*' :: q := by
        cases p with
        | nil => simp at head
        | cons d q => exact ⟨q, by simpa using head⟩
      obtain ⟨piece, tail, split, rest⟩ := inLanguage_run.mp matched
      obtain ⟨-, rfl⟩ : piece = [] ∧ tail = [] := by simpa using split.symm
      rw [List.dropWhile_cons_of_pos (by simp)]
      rcases leading_run rest with empty | head
      · exact empty
      · simpa [head] using List.head?_dropWhile_not (· = '*') q
  · intro stars
    cases p with
    | nil => exact inLanguage_nil.mpr rfl
    | cons c q =>
        obtain rfl : c = '*' := by
          by_contra other
          simp [List.dropWhile_cons_of_neg, other] at stars
        rw [List.dropWhile_cons_of_pos (by simp)] at stars
        exact inLanguage_run.mpr ⟨[], [], rfl, stars ▸ inLanguage_nil.mpr rfl⟩

theorem inLanguage_cons_singleton {c d : Char} {name p : Text}
    (not_run : ∀ token after, ReadsToken (d :: p) token after → token ≠ .run) :
    InLanguage (c :: name) (d :: p) ↔
      ∃ token after, ReadsToken (d :: p) token after ∧ token.Matches [c] ∧
        InLanguage name after := by
  rw [inLanguage_cons_iff]
  constructor
  · rintro ⟨token, after, piece, tail, reads, split, first, rest⟩
    obtain ⟨e, rfl⟩ := first.singleton (not_run token after reads)
    obtain ⟨rfl, rfl⟩ : c = e ∧ name = tail := by simpa using split
    exact ⟨token, after, reads, first, rest⟩
  · rintro ⟨token, after, reads, first, rest⟩
    exact ⟨token, after, [c], name, reads, rfl, first, rest⟩

/-- A run of `*` may leave any suffix; when more pattern follows, the empty suffix is hopeless. -/
theorem inLanguage_run_suffix {c : Char} {name p : Text}
    (more : p.dropWhile (· = '*') ≠ []) :
    InLanguage (c :: name) ('*' :: p) ↔
      ∃ start < name.length + 1, InLanguage ((c :: name).drop start) (p.dropWhile (· = '*')) := by
  rw [inLanguage_run]
  constructor
  · rintro ⟨piece, tail, split, rest⟩
    refine ⟨piece.length, ?_, by simpa [split] using rest⟩
    by_contra! long
    have lengths := congrArg List.length split
    obtain rfl : tail = [] := by
      simp only [List.length_cons, List.length_append] at lengths
      exact List.length_eq_zero_iff.mp (by omega)
    rw [inLanguage_nil_name, List.dropWhile_idempotent] at rest
    exact more rest
  · rintro ⟨start, -, rest⟩
    exact ⟨(c :: name).take start, (c :: name).drop start, (List.take_append_drop _ _).symm, rest⟩

theorem inLanguage_anyChar {c : Char} {name p : Text} :
    InLanguage (c :: name) ('?' :: p) ↔ InLanguage name p := by
  rw [inLanguage_cons_singleton (by simp +contextual [readsToken_anyChar])]
  simp [readsToken_anyChar, Token.Matches]

theorem inLanguage_charClass {c : Char} {name p : Text} :
    InLanguage (c :: name) ('[' :: p) ↔
      ∃ after, matchClass c p = some after ∧ InLanguage name after := by
  rw [inLanguage_cons_singleton (by
    rintro token after reads rfl
    simpa using readsToken_charClass.mp reads)]
  simp only [readsToken_charClass, matchClass_iff]
  constructor
  · rintro ⟨_, after, ⟨invert, members, rfl, body⟩, first, rest⟩
    exact ⟨after, ⟨invert, members, body, first⟩, rest⟩
  · rintro ⟨after, ⟨invert, members, body, first⟩, rest⟩
    exact ⟨_, after, ⟨invert, members, rfl, body⟩, first, rest⟩

theorem inLanguage_escaped {c : Char} {name p : Text} :
    InLanguage (c :: name) ('\\' :: p) ↔ ∃ after, p = c :: after ∧ InLanguage name after := by
  rw [inLanguage_cons_singleton (by
    rintro token after reads rfl
    simpa using readsToken_escaped.mp reads)]
  simp only [readsToken_escaped]
  constructor
  · rintro ⟨_, after, ⟨d, rfl, rfl⟩, first, rest⟩
    obtain rfl : c = d := by simpa [Token.Matches] using first
    exact ⟨after, rfl, rest⟩
  · rintro ⟨after, rfl, rest⟩
    exact ⟨.escaped c, after, ⟨c, rfl, rfl⟩, rfl, rest⟩

theorem inLanguage_plain {c d : Char} {name p : Text} (ordinary : d ∉ ['*', '?', '[', '\\']) :
    InLanguage (c :: name) (d :: p) ↔ c = d ∧ InLanguage name p := by
  rw [inLanguage_cons_singleton (by simp +contextual [readsToken_plain ordinary])]
  simp [readsToken_plain ordinary, Token.Matches]

theorem matchChars_iff (name pattern : Text) :
    matchChars name pattern = true ↔ InLanguage name pattern := by
  fun_induction matchChars name pattern with
  | case1 c s p after trailing =>
      -- a trailing run swallows whatever is left of the name
      simp only [true_iff, inLanguage_run]
      exact ⟨c :: s, [], by simp, trailing ▸ inLanguage_nil.mpr rfl⟩
  | case2 c s p after more ih =>
      rw [inLanguage_run_suffix more]
      simp only [List.any_eq_true, List.mem_range]
      exact exists_congr fun start => and_congr_right fun _ => ih start
  | case3 c s p _ ih => rw [ih, inLanguage_anyChar]
  | case4 c s p after scan _ _ ih => simp [ih, inLanguage_charClass, scan]
  | case5 c s p scan => simp [inLanguage_charClass, scan]
  | case6 c s => simp [inLanguage_escaped]
  | case7 s e after _ _ _ ih => simp [ih, inLanguage_escaped]
  | case8 c s e after different => simp [inLanguage_escaped, Ne.symm different]
  | case9 s d p not_star not_any not_open not_escape ih =>
      rw [ih, inLanguage_plain (by simp [not_star, not_any, not_open, not_escape])]
      simp
  | case10 c s d p not_star not_any not_open not_escape different =>
      rw [inLanguage_plain (by simp [not_star, not_any, not_open, not_escape])]
      simp [different]
  | case11 s p exhausted =>
      cases s with
      | nil => simp [inLanguage_nil_name]
      | cons c s =>
          cases p with
          | nil => simp [inLanguage_nil]
          | cons d p => exact (exhausted c s d p rfl rfl).elim

theorem ReadsMember.unique {text after₁ after₂ : Text} {member₁ member₂ : Member}
    (first : ReadsMember text member₁ after₁) (second : ReadsMember text member₂ after₂) :
    after₁ = after₂ := by
  cases first with
  | range not_close =>
      cases second with
      | range => rfl
      | single not_range => exact absurd (not_range _ _ rfl) not_close
  | single not_range =>
      cases second with
      | range not_close => exact absurd (not_range _ _ rfl) not_close
      | single => rfl

theorem ReadsMembers.unique {first : Bool} {text after₁ after₂ : Text}
    {members₁ members₂ : List Member} (reads₁ : ReadsMembers first text members₁ after₁)
    (reads₂ : ReadsMembers first text members₂ after₂) : after₁ = after₂ := by
  induction reads₁ generalizing members₂ with
  | close =>
      cases reads₂ with
      | close => rfl
      | member opens _ _ => simp at opens
  | member opens head _ ih =>
      cases reads₂ with
      | close => simp at opens
      | member _ head' tail' =>
          obtain rfl := head.unique head'
          exact ih tail'

theorem ReadsClass.unique {text after₁ after₂ : Text} {invert₁ invert₂ : Bool}
    {members₁ members₂ : List Member} (reads₁ : ReadsClass text invert₁ members₁ after₁)
    (reads₂ : ReadsClass text invert₂ members₂ after₂) : after₁ = after₂ := by
  cases reads₁ with
  | inverted body =>
      cases reads₂ with
      | inverted body' => exact body.unique body'
      | direct not_inverted _ => simp at not_inverted
  | direct not_inverted body =>
      cases reads₂ with
      | inverted _ => simp at not_inverted
      | direct _ body' => exact body.unique body'

/-- At most one token can be read off the front of a pattern. -/
theorem ReadsToken.unique {pattern after₁ after₂ : Text} {token₁ token₂ : Token}
    (reads₁ : ReadsToken pattern token₁ after₁) (reads₂ : ReadsToken pattern token₂ after₂) :
    after₁ = after₂ := by
  cases reads₁ with
  | @run count _ _ stars maximal =>
      obtain rfl : pattern = '*' :: (List.replicate count '*' ++ after₁) := by
        simpa [List.replicate_succ] using stars
      have run : ReadsToken _ .run after₁ := .run stars maximal
      rw [(readsToken_run.mp run).2, (readsToken_run.mp reads₂).2]
  | anyChar => exact (readsToken_anyChar.mp reads₂).2.symm
  | charClass body =>
      obtain ⟨_, _, _, body'⟩ := readsToken_charClass.mp reads₂
      exact body.unique body'
  | escaped =>
      obtain ⟨_, _, equality⟩ := readsToken_escaped.mp reads₂
      exact (List.cons.inj equality).2
  | plain ordinary => exact ((readsToken_plain ordinary).mp reads₂).2.symm

/-- A pattern some token of which cannot be read: a class is unclosed, or the last character is
a lone backslash. -/
inductive Malformed : Text → Prop
  | unclosed {text : Text}
      (unreadable : ∀ invert members after, ¬ReadsClass text invert members after) :
      Malformed ('[' :: text)
  | dangling : Malformed ['\\']
  | later {pattern after : Text} {token : Token} (head : ReadsToken pattern token after)
      (tail : Malformed after) : Malformed pattern

theorem Malformed.not_reads {pattern : Text} (malformed : Malformed pattern)
    (tokens : List Token) : ¬Reads pattern tokens := by
  induction malformed generalizing tokens with
  | unclosed unreadable =>
      rintro (_ | ⟨head, _⟩)
      obtain ⟨invert, members, _, body⟩ := readsToken_charClass.mp head
      exact unreadable invert members _ body
  | dangling =>
      rintro (_ | ⟨head, _⟩)
      simpa using readsToken_escaped.mp head
  | later head _ ih =>
      rintro (_ | ⟨head', tail⟩)
      · cases head with
        | run stars _ => simp [List.replicate_succ] at stars
      · exact ih _ (head.unique head' ▸ tail)

/-- `match_component` accepts exactly the names in the language of the pattern; in particular a
pattern with an unclosed class or a dangling escape matches nothing. -/
theorem matchComponent_iff (name pattern : Text) :
    (matchComponent name pattern = true ↔ InLanguage name pattern) ∧
      (Malformed pattern → matchComponent name pattern = false) := by
  have decides : matchComponent name pattern = true ↔ InLanguage name pattern :=
    matchChars_iff name pattern
  refine ⟨decides, fun malformed => ?_⟩
  rw [Bool.eq_false_iff, Ne, decides]
  rintro ⟨tokens, -, reads, -⟩
  exact malformed.not_reads tokens reads

end Glob
end DuckdbHdfs
