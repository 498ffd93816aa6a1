import DuckdbHdfs.Glob.Escapes

/-!
# The brace grammar

A pattern is read as a tree of groups.  `expandBraces` never builds that tree: it splices an
alternative into the text and scans again.  The choices the tree offers are nevertheless what it
returns, in the same order.
-/

namespace DuckdbHdfs
namespace Glob

/-- Whether a sequence stands at the top of a pattern or is an alternative of a group. -/
inductive Place
  | outside
  | inside

/-- The characters with a meaning of their own at a place. -/
def Place.reserved : Place → List Char
  | .outside => ['\\', '{']
  | .inside => ['\\', '{', '}', ',']

mutual

/-- A sequence of escaped pairs, plain characters and groups.  Only the end of a pattern has room
for a backslash with nothing behind it. -/
inductive Sequence : Place → Type
  | nil {place : Place} : Sequence place
  | dangling : Sequence .outside
  | escaped {place : Place} (c : Char) (rest : Sequence place) : Sequence place
  | plain {place : Place} (c : Char) (ordinary : c ∉ place.reserved) (rest : Sequence place) :
      Sequence place
  | group {place : Place} (alternatives : Alternatives) (rest : Sequence place) : Sequence place

/-- The alternatives of a group, at least one. -/
inductive Alternatives : Type
  | last (alternative : Sequence .inside)
  | cons (alternative : Sequence .inside) (others : Alternatives)

end

mutual

/-- The text a sequence is a reading of. -/
def Sequence.text {place : Place} : Sequence place → Text
  | .nil => []
  | .dangling => ['\\']
  | .escaped c rest => '\\' :: c :: rest.text
  | .plain c _ rest => c :: rest.text
  | .group alternatives rest => '{' :: alternatives.text ++ '}' :: rest.text

/-- The text between the braces of a group. -/
def Alternatives.text : Alternatives → Text
  | .last alternative => alternative.text
  | .cons alternative others => alternative.text ++ ',' :: others.text

end

mutual

/-- Every choice of one alternative per group; an earlier group varies slower than a later one. -/
def Sequence.expand {place : Place} : Sequence place → List Text
  | .nil => [[]]
  | .dangling => [['\\']]
  | .escaped c rest => rest.expand.map fun tail => '\\' :: c :: tail
  | .plain c _ rest => rest.expand.map fun tail => c :: tail
  | .group alternatives rest =>
      alternatives.expand.flatMap fun choice => rest.expand.map fun tail => choice ++ tail

/-- The choices of each alternative, in their written order. -/
def Alternatives.expand : Alternatives → List Text
  | .last alternative => alternative.expand
  | .cons alternative others => alternative.expand ++ others.expand

end

/-- The alternatives in their written order. -/
def Alternatives.toList : Alternatives → List (Sequence .inside)
  | .last alternative => [alternative]
  | .cons alternative others => alternative :: others.toList

theorem Place.outside_of_inside {c : Char} (ordinary : c ∉ Place.inside.reserved) :
    c ∉ Place.outside.reserved := by
  simp_all [Place.reserved]

/-- Splice an alternative in front of the rest of a pattern. -/
def Sequence.append : Sequence .inside → Sequence .outside → Sequence .outside
  | .nil, back => back
  | .escaped c rest, back => .escaped c (rest.append back)
  | .plain c ordinary rest, back =>
      .plain c (Place.outside_of_inside ordinary) (rest.append back)
  | .group alternatives rest, back => .group alternatives (rest.append back)

section append

variable {back : Sequence .outside}

theorem Sequence.text_append :
    ∀ alternative : Sequence .inside, (alternative.append back).text = alternative.text ++ back.text
  | .nil => by simp [append, text]
  | .escaped c rest => by simp [append, text, rest.text_append]
  | .plain c ordinary rest => by simp [append, text, rest.text_append]
  | .group alternatives rest => by simp [append, text, rest.text_append]

theorem Sequence.expand_append :
    ∀ alternative : Sequence .inside, (alternative.append back).expand =
      alternative.expand.flatMap fun choice => back.expand.map fun tail => choice ++ tail
  | .nil => by simp [append, expand]
  | .escaped c rest => by
      simp [append, expand, rest.expand_append, List.map_flatMap, List.flatMap_map,
        Function.comp_def]
  | .plain c ordinary rest => by
      simp [append, expand, rest.expand_append, List.map_flatMap, List.flatMap_map,
        Function.comp_def]
  | .group alternatives rest => by
      simp [append, expand, rest.expand_append, List.flatMap_assoc, List.map_flatMap,
        List.flatMap_map, Function.comp_def]

end append

theorem Alternatives.expand_eq_flatMap : ∀ alternatives : Alternatives,
    alternatives.expand = alternatives.toList.flatMap fun alternative => alternative.expand
  | .last alternative => by simp [expand, toList]
  | .cons alternative others => by simp [expand, toList, others.expand_eq_flatMap]

theorem Sequence.expand_group {alternatives : Alternatives} {rest : Sequence .outside} :
    (Sequence.group alternatives rest).expand =
      alternatives.toList.flatMap fun alternative => (alternative.append rest).expand := by
  simp only [expand, alternatives.expand_eq_flatMap, List.flatMap_assoc, expand_append]

section Scan

variable {depth : Nat} {alternatives : List Text} {current rest : Text}

theorem collectAlternatives_escaped {c : Char} :
    collectAlternatives depth alternatives current ('\\' :: c :: rest) =
      collectAlternatives depth alternatives (current ++ ['\\', c]) rest := by
  rw [collectAlternatives.eq_def]
  simp

theorem collectAlternatives_open :
    collectAlternatives depth alternatives current ('{' :: rest) =
      collectAlternatives (depth + 1) alternatives (current ++ ['{']) rest := by
  rw [collectAlternatives.eq_def]
  simp

theorem collectAlternatives_close_inner :
    collectAlternatives (depth + 2) alternatives current ('}' :: rest) =
      collectAlternatives (depth + 1) alternatives (current ++ ['}']) rest := by
  rw [collectAlternatives.eq_def]
  simp

theorem collectAlternatives_close :
    collectAlternatives 1 alternatives current ('}' :: rest) =
      some (alternatives ++ [current], rest) := by
  rw [collectAlternatives.eq_def]
  simp

theorem collectAlternatives_comma :
    collectAlternatives 1 alternatives current (',' :: rest) =
      collectAlternatives 1 (alternatives ++ [current]) [] rest := by
  rw [collectAlternatives.eq_def]
  simp

theorem collectAlternatives_comma_inner :
    collectAlternatives (depth + 2) alternatives current (',' :: rest) =
      collectAlternatives (depth + 2) alternatives (current ++ [',']) rest := by
  rw [collectAlternatives.eq_def]
  simp

theorem collectAlternatives_plain {c : Char} (ordinary : c ∉ Place.inside.reserved) :
    collectAlternatives depth alternatives current (c :: rest) =
      collectAlternatives depth alternatives (current ++ [c]) rest := by
  obtain ⟨not_escape, not_open, not_close, not_comma⟩ :
      c ≠ '\\' ∧ c ≠ '{' ∧ c ≠ '}' ∧ c ≠ ',' := by
    simpa [Place.reserved] using ordinary
  rw [collectAlternatives.eq_def]
  simp [*]

end Scan

mutual

/-- The scan of a group adds a whole sequence to the alternative it is in. -/
theorem Sequence.collectAlternatives_text (depth : Nat) (collected : List Text)
    (current tail : Text) : ∀ sequence : Sequence .inside,
    collectAlternatives (depth + 1) collected current (sequence.text ++ tail) =
      collectAlternatives (depth + 1) collected (current ++ sequence.text) tail
  | .nil => by simp [Sequence.text]
  | .escaped c rest => by
      simp only [Sequence.text, List.cons_append]
      rw [collectAlternatives_escaped, rest.collectAlternatives_text]
      simp
  | .plain c ordinary rest => by
      simp only [Sequence.text, List.cons_append]
      rw [collectAlternatives_plain ordinary, rest.collectAlternatives_text]
      simp
  | .group alternatives rest => by
      simp only [Sequence.text, List.cons_append, List.append_assoc]
      rw [collectAlternatives_open, alternatives.collectAlternatives_inner,
        collectAlternatives_close_inner, rest.collectAlternatives_text]
      simp

/-- Below the top of the scanned group a comma separates nothing. -/
theorem Alternatives.collectAlternatives_inner (depth : Nat) (collected : List Text)
    (current tail : Text) : ∀ alternatives : Alternatives,
    collectAlternatives (depth + 2) collected current (alternatives.text ++ tail) =
      collectAlternatives (depth + 2) collected (current ++ alternatives.text) tail
  | .last alternative => alternative.collectAlternatives_text _ _ _ _
  | .cons alternative others => by
      simp only [Alternatives.text, List.append_assoc, List.cons_append]
      rw [alternative.collectAlternatives_text, collectAlternatives_comma_inner,
        others.collectAlternatives_inner]
      simp

end

/-- The scan of a group returns its alternatives and stops behind its `}`. -/
theorem Alternatives.collectAlternatives_group (tail : Text) : ∀ (alternatives : Alternatives)
    (collected : List Text),
    collectAlternatives 1 collected [] (alternatives.text ++ '}' :: tail) =
      some (collected ++ alternatives.toList.map Sequence.text, tail)
  | .last alternative, collected => by
      rw [text, alternative.collectAlternatives_text, collectAlternatives_close]
      simp [toList]
  | .cons alternative others, collected => by
      simp only [text, List.append_assoc, List.cons_append]
      rw [alternative.collectAlternatives_text, collectAlternatives_comma,
        others.collectAlternatives_group]
      simp [toList]

theorem splitBrace_append_open {front back : Text} (paired : Paired front)
    (flat : ¬HasUnescaped ['{'] front) :
    splitBrace (front ++ '{' :: back) = some (front, back) := by
  induction paired with
  | nil =>
      rw [List.nil_append, splitBrace.eq_def]
      simp
  | escaped _ ih =>
      rw [hasUnescaped_escaped_iff (by simp)] at flat
      rw [List.cons_append, List.cons_append, splitBrace.eq_def]
      simp [ih flat]
  | plain ordinary _ ih =>
      rw [hasUnescaped_plain_iff ordinary, List.mem_singleton, not_or] at flat
      rw [List.cons_append, splitBrace.eq_def]
      simp [ordinary, flat.1, ih flat.2]

/-- The text in front of the first unescaped `{` is paired and has none itself. -/
theorem splitBrace_eq_some {pattern before group : Text}
    (split : splitBrace pattern = some (before, group)) :
    pattern = before ++ '{' :: group ∧ Paired before ∧ ¬HasUnescaped ['{'] before := by
  fun_induction splitBrace pattern generalizing before group with
  | case1 => simp at split
  | case2 => simp at split
  | case3 escaped after ih =>
      obtain ⟨before', split', rfl⟩ : ∃ before', splitBrace after = some (before', group) ∧
          '\\' :: escaped :: before' = before := by simpa using split
      obtain ⟨rfl, paired, flat⟩ := ih split'
      exact ⟨rfl, .escaped paired, (hasUnescaped_escaped_iff (by simp)).not.mpr flat⟩
  | case4 =>
      obtain ⟨rfl, rfl⟩ : [] = before ∧ _ = group := by simpa using split
      exact ⟨rfl, .nil, not_hasUnescaped_nil⟩
  | case5 c rest not_escape not_open ih =>
      obtain ⟨before', split', rfl⟩ : ∃ before', splitBrace rest = some (before', group) ∧
          c :: before' = before := by simpa using split
      obtain ⟨rfl, paired, flat⟩ := ih split'
      refine ⟨rfl, .plain not_escape paired, ?_⟩
      simp [hasUnescaped_plain_iff not_escape, not_open, flat]

/-! ## Trees expand -/

theorem paired_append_plain {front : Text} {c : Char} (paired : Paired front)
    (ordinary : c ≠ '\\') : Paired (front ++ [c]) :=
  paired.append.mpr (.plain ordinary .nil)

theorem paired_append_escaped {front : Text} (c : Char) (paired : Paired front) :
    Paired (front ++ ['\\', c]) :=
  paired.append.mpr (.escaped .nil)

/-- A group expands to the choices of its splices, each the tree of an alternative put in front of
the rest. -/
theorem Sequence.expandBraces_group {front : Text} (paired : Paired front)
    (flat : ¬HasUnescaped ['{'] front) (alternatives : Alternatives) (rest : Sequence .outside)
    (spliced : ∀ alternative ∈ alternatives.toList,
      (alternative.append rest).text.length < (Sequence.group alternatives rest).text.length →
        expandBraces (front ++ (alternative.append rest).text) =
          .ok ((alternative.append rest).expand.map fun choice => front ++ choice)) :
    expandBraces (front ++ (Sequence.group alternatives rest).text) =
      .ok ((Sequence.group alternatives rest).expand.map fun choice => front ++ choice) := by
  have split : splitBrace (front ++ (Sequence.group alternatives rest).text) =
      some (front, alternatives.text ++ '}' :: rest.text) := by
    rw [text, List.cons_append]
    exact splitBrace_append_open paired flat
  have scan := alternatives.collectAlternatives_group rest.text []
  rw [List.nil_append] at scan
  have expanded : ∀ alternative ∈ alternatives.toList,
      expandBraces (front ++ alternative.text ++ rest.text) =
        .ok ((alternative.append rest).expand.map fun choice => front ++ choice) := by
    intro alternative mem
    have fewer := splice_length split scan (List.mem_map_of_mem mem)
    rw [List.append_assoc, ← text_append] at fewer ⊢
    apply spliced alternative mem
    simp only [List.length_append] at fewer
    omega
  rw [expandBraces_of_group split scan]
  apply Except.bind_eq_ok_iff.mpr
  refine ⟨alternatives.toList.map fun alternative =>
    (alternative.append rest).expand.map fun choice => front ++ choice, ?_, ?_⟩
  · rw [List.mapM_except_eq_ok_iff, List.forall₂_map_left_iff, List.forall₂_map_right_iff,
      List.forall₂_same]
    exact expanded
  · rw [expand_group, List.map_flatMap, List.flatMap_def]
    rfl

theorem Sequence.expandBraces_append (sequence : Sequence .outside) {front : Text}
    (paired : Paired front) (flat : ¬HasUnescaped ['{'] front) :
    expandBraces (front ++ sequence.text) =
      .ok (sequence.expand.map fun choice => front ++ choice) := by
  have no_escape : '\\' ∉ ['{'] := by simp
  induction size : sequence.text.length using Nat.strong_induction_on
    generalizing sequence front with
  | _ size shorter =>
      subst size
      match sequence with
      | .nil =>
          have plain := splitBrace_eq_none_iff.mpr flat
          simp [text, expand, expandBraces_of_splitBrace_none plain]
      | .dangling =>
          have still_flat : ¬HasUnescaped ['{'] (front ++ ['\\']) := by
            rw [hasUnescaped_append_iff no_escape paired, not_or]
            exact ⟨flat, not_hasUnescaped_dangling no_escape⟩
          have plain := splitBrace_eq_none_iff.mpr still_flat
          simp [text, expand, expandBraces_of_splitBrace_none plain]
      | .escaped c rest =>
          have still_flat : ¬HasUnescaped ['{'] (front ++ ['\\', c]) := by
            rw [hasUnescaped_append_iff no_escape paired, not_or,
              hasUnescaped_escaped_iff no_escape]
            exact ⟨flat, not_hasUnescaped_nil⟩
          have fewer : rest.text.length < (Sequence.escaped c rest).text.length := by
            simp only [text, List.length_cons]
            omega
          have rest_expands :=
            shorter _ fewer rest (paired_append_escaped c paired) still_flat rfl
          simpa [text, expand, Function.comp_def] using rest_expands
      | .plain c ordinary rest =>
          obtain ⟨not_escape, not_open⟩ : c ≠ '\\' ∧ c ≠ '{' := by
            simpa [Place.reserved] using ordinary
          have still_flat : ¬HasUnescaped ['{'] (front ++ [c]) := by
            rw [hasUnescaped_append_iff no_escape paired, not_or,
              hasUnescaped_plain_iff not_escape]
            simp [flat, not_open]
          have fewer : rest.text.length < (Sequence.plain c ordinary rest).text.length := by
            simp only [text, List.length_cons]
            omega
          have rest_expands :=
            shorter _ fewer rest (paired_append_plain paired not_escape) still_flat rfl
          simpa [text, expand, Function.comp_def] using rest_expands
      | .group alternatives rest =>
          apply expandBraces_group paired flat
          intro alternative _ fewer
          exact shorter _ fewer (alternative.append rest) paired flat rfl

/-- The choices of a tree are what the expansion of its text returns. -/
theorem Sequence.expandBraces_text (sequence : Sequence .outside) :
    expandBraces sequence.text = .ok sequence.expand := by
  simpa using sequence.expandBraces_append .nil not_hasUnescaped_nil

/-- Every unescaped brace of the text has its partner in the text. -/
inductive Balanced : Text → Prop
  | nil : Balanced []
  | escaped {c : Char} {text : Text} (rest : Balanced text) : Balanced ('\\' :: c :: text)
  | plain {c : Char} {text : Text} (ordinary : c ≠ '\\' ∧ c ≠ '{' ∧ c ≠ '}')
      (rest : Balanced text) : Balanced (c :: text)
  | group {body text : Text} (inner : Balanced body) (rest : Balanced text) :
      Balanced ('{' :: body ++ '}' :: text)

/-- The `}` that ends a group is in the text: what stands before it is balanced. -/
def HasClose (text : Text) : Prop :=
  ∃ body tail, text = body ++ '}' :: tail ∧ Balanced body

/-- Some unescaped `{` of the text has no matching `}`. -/
def HasUnmatched (text : Text) : Prop :=
  ∃ front back, text = front ++ '{' :: back ∧ Paired front ∧ ¬HasClose back

section HasUnmatched

variable {text : Text}

theorem hasUnmatched_escaped_iff {c : Char} :
    HasUnmatched ('\\' :: c :: text) ↔ HasUnmatched text := by
  constructor
  · intro unmatched
    obtain ⟨front, back, split, paired, unclosed⟩ := unmatched
    cases paired with
    | nil => simp at split
    | escaped rest =>
        obtain ⟨-, rfl⟩ : c = _ ∧ text = _ := by simpa using split
        exact ⟨_, back, rfl, rest, unclosed⟩
    | plain ordinary _ =>
        obtain ⟨rfl, -⟩ : '\\' = _ ∧ c :: text = _ := by simpa using split
        exact absurd rfl ordinary
  · intro unmatched
    obtain ⟨front, back, rfl, paired, unclosed⟩ := unmatched
    exact ⟨'\\' :: c :: front, back, by simp, .escaped paired, unclosed⟩

theorem hasUnmatched_cons_iff {c : Char} (ordinary : c ≠ '\\') :
    HasUnmatched (c :: text) ↔ (c = '{' ∧ ¬HasClose text) ∨ HasUnmatched text := by
  constructor
  · intro unmatched
    obtain ⟨front, back, split, paired, unclosed⟩ := unmatched
    cases paired with
    | nil =>
        obtain ⟨rfl, rfl⟩ : c = '{' ∧ text = back := by simpa using split
        exact .inl ⟨rfl, unclosed⟩
    | escaped _ =>
        obtain ⟨rfl, -⟩ : c = '\\' ∧ text = _ := by simpa using split
        exact absurd rfl ordinary
    | plain _ rest =>
        obtain ⟨-, rfl⟩ : c = _ ∧ text = _ := by simpa using split
        exact .inr ⟨_, back, rfl, rest, unclosed⟩
  · intro unmatched
    obtain ⟨rfl, unclosed⟩ | ⟨front, back, rfl, paired, unclosed⟩ := unmatched
    · exact ⟨[], text, rfl, .nil, unclosed⟩
    · exact ⟨c :: front, back, by simp, .plain ordinary paired, unclosed⟩

theorem HasUnmatched.append_left {front : Text} (paired : Paired front)
    (unmatched : HasUnmatched text) : HasUnmatched (front ++ text) := by
  obtain ⟨before, back, rfl, before_paired, unclosed⟩ := unmatched
  exact ⟨front ++ before, back, by simp, paired.append.mpr before_paired, unclosed⟩

theorem hasUnmatched_append_of_flat {front : Text} (paired : Paired front)
    (flat : ¬HasUnescaped ['{'] front) (unmatched : HasUnmatched (front ++ text)) :
    HasUnmatched text := by
  induction paired with
  | nil => exact unmatched
  | escaped _ ih =>
      rw [hasUnescaped_escaped_iff (by simp)] at flat
      exact ih flat (hasUnmatched_escaped_iff.mp unmatched)
  | plain ordinary _ ih =>
      rw [hasUnescaped_plain_iff ordinary, List.mem_singleton, not_or] at flat
      rcases (hasUnmatched_cons_iff ordinary).mp unmatched with ⟨is_open, -⟩ | later
      · exact absurd is_open flat.1
      · exact ih flat.2 later

theorem Balanced.hasUnmatched_append {body : Text} (balanced : Balanced body)
    (unmatched : HasUnmatched (body ++ text)) : HasUnmatched text := by
  induction balanced generalizing text with
  | nil => exact unmatched
  | escaped _ ih => exact ih (hasUnmatched_escaped_iff.mp unmatched)
  | plain ordinary _ ih =>
      rcases (hasUnmatched_cons_iff ordinary.1).mp unmatched with ⟨is_open, -⟩ | later
      · exact absurd is_open ordinary.2.1
      · exact ih later
  | @group body tail inner _ inner_ih ih =>
      have unfolded : HasUnmatched ('{' :: (body ++ '}' :: (tail ++ text))) := by
        simpa using unmatched
      rcases (hasUnmatched_cons_iff (by decide)).mp unfolded with ⟨-, unclosed⟩ | later
      · exact absurd ⟨body, tail ++ text, rfl, inner⟩ unclosed
      · rcases (hasUnmatched_cons_iff (by decide)).mp (inner_ih later) with ⟨is_open, -⟩ | later
        · simp at is_open
        · exact ih later

end HasUnmatched

theorem Balanced.paired {text : Text} (balanced : Balanced text) : Paired text := by
  induction balanced with
  | nil => exact .nil
  | escaped _ ih => exact .escaped ih
  | plain ordinary _ ih => exact .plain ordinary.1 ih
  | group _ _ inner_ih ih =>
      refine .plain (by decide) (inner_ih.append.mpr ?_)
      exact .plain (by decide) ih

theorem Balanced.append {front back : Text} (balanced : Balanced front) (rest : Balanced back) :
    Balanced (front ++ back) := by
  induction balanced with
  | nil => exact rest
  | escaped _ ih => exact .escaped ih
  | plain ordinary _ ih => exact .plain ordinary ih
  | group inner _ _ ih => simpa using Balanced.group inner ih

/-- Balanced texts, each ended by a `}`, one for every open group. -/
inductive Closes : Nat → Text → Text → Prop
  | last {body after : Text} (inner : Balanced body) : Closes 0 (body ++ '}' :: after) after
  | step {depth : Nat} {body rest after : Text} (inner : Balanced body)
      (outer : Closes depth rest after) : Closes (depth + 1) (body ++ '}' :: rest) after

theorem Closes.append_left {depth : Nat} {front group after : Text} (balanced : Balanced front)
    (closes : Closes depth group after) : Closes depth (front ++ group) after := by
  cases closes with
  | last inner =>
      rw [← List.append_assoc]
      exact .last (balanced.append inner)
  | step inner outer =>
      rw [← List.append_assoc]
      exact .step (balanced.append inner) outer

theorem closes_of_collectAlternatives {depth : Nat} {alternatives collected : List Text}
    {current group after : Text} (inside : 0 < depth)
    (scan : collectAlternatives depth alternatives current group = some (collected, after)) :
    Closes (depth - 1) group after := by
  fun_induction collectAlternatives depth alternatives current group with
  | case1 => simp at scan
  | case2 => simp at scan
  | case3 depth alternatives current escaped rest ih =>
      exact .append_left (.escaped .nil) (ih inside scan)
  | case4 depth alternatives current rest not_escape ih =>
      obtain ⟨outer, rfl⟩ := Nat.exists_eq_succ_of_ne_zero inside.ne'
      cases ih (by omega) scan with
      | step inner closes => simpa using closes.append_left (.group inner .nil)
  | case5 depth alternatives current rest top =>
      obtain ⟨-, rfl⟩ : alternatives ++ [current] = collected ∧ rest = after := by
        simpa using scan
      rw [top]
      exact .last .nil
  | case6 depth alternatives current rest nested not_escape not_open ih =>
      obtain ⟨outer, level⟩ := Nat.exists_eq_succ_of_ne_zero nested
      have closes := ih (by omega) scan
      rw [level] at closes ⊢
      exact .step .nil closes
  | case7 depth alternatives current c rest not_escape not_open not_close comma ih =>
      exact (ih inside scan).append_left (.plain ⟨not_escape, not_open, not_close⟩ .nil)
  | case8 depth alternatives current c rest not_escape not_open not_close ordinary ih =>
      exact (ih inside scan).append_left (.plain ⟨not_escape, not_open, not_close⟩ .nil)

theorem paired_of_collectAlternatives {depth : Nat} {alternatives collected : List Text}
    {current group after : Text}
    (scan : collectAlternatives depth alternatives current group = some (collected, after))
    (alternatives_paired : ∀ alternative ∈ alternatives, Paired alternative)
    (current_paired : Paired current) : ∀ alternative ∈ collected, Paired alternative := by
  have close : ∀ {alternatives : List Text} {current : Text},
      (∀ alternative ∈ alternatives, Paired alternative) → Paired current →
        ∀ alternative ∈ alternatives ++ [current], Paired alternative := by
    intro alternatives current all last alternative mem
    rcases List.mem_append.mp mem with earlier | final
    · exact all alternative earlier
    · rwa [List.mem_singleton.mp final]
  fun_induction collectAlternatives depth alternatives current group with
  | case1 => simp at scan
  | case2 => simp at scan
  | case3 depth alternatives current escaped rest ih =>
      exact ih scan alternatives_paired (paired_append_escaped escaped current_paired)
  | case5 depth alternatives current rest top =>
      obtain ⟨rfl, -⟩ : alternatives ++ [current] = collected ∧ rest = after := by
        simpa using scan
      exact close alternatives_paired current_paired
  | case7 depth alternatives current c rest not_escape not_open not_close comma ih =>
      exact ih scan (close alternatives_paired current_paired) .nil
  | _ =>
      rename_i ih
      exact ih scan alternatives_paired (paired_append_plain current_paired ‹_›)

/-- An expansion succeeds only when every group is closed: a splice keeps what is unmatched. -/
theorem not_hasUnmatched_of_expandBraces {pattern : Text} {expansions : List Text}
    (expanded : expandBraces pattern = .ok expansions) : ¬HasUnmatched pattern := by
  intro unmatched
  induction size : pattern.length using Nat.strong_induction_on
    generalizing pattern expansions with
  | _ size shorter =>
      subst size
      rcases expandBraces_eq_ok expanded with
        ⟨plain, -⟩ | ⟨before, group, alternatives, after, parts, split, scan, all, -⟩
      · obtain ⟨front, back, split, paired, -⟩ := unmatched
        exact splitBrace_eq_none_iff.mp plain ⟨front, '{', back, split, paired, by simp⟩
      · cases all with
        | nil => exact absurd rfl (collectAlternatives_ne_nil scan)
        | @cons alternative part others parts first rest =>
            obtain ⟨rfl, before_paired, flat⟩ := splitBrace_eq_some split
            have alternative_paired := paired_of_collectAlternatives scan (by simp) .nil
              alternative List.mem_cons_self
            have inside_group := hasUnmatched_append_of_flat before_paired flat unmatched
            have behind : HasUnmatched after := by
              cases closes_of_collectAlternatives Nat.one_pos scan with
              | last inner =>
                  apply (Balanced.group inner .nil).hasUnmatched_append
                  simpa using inside_group
            exact shorter _ (splice_length split scan List.mem_cons_self) first
              (behind.append_left (before_paired.append.mpr alternative_paired)) rfl

/-! ## Patterns have trees -/

/-- Put a piece in front of the first alternative. -/
def Alternatives.mapFirst (piece : Sequence .inside → Sequence .inside) :
    Alternatives → Alternatives
  | .last alternative => .last (piece alternative)
  | .cons alternative others => .cons (piece alternative) others

theorem Alternatives.text_mapFirst {piece : Sequence .inside → Sequence .inside} {front : Text}
    (piece_text : ∀ sequence, (piece sequence).text = front ++ sequence.text)
    (alternatives : Alternatives) :
    (alternatives.mapFirst piece).text = front ++ alternatives.text := by
  cases alternatives with
  | last alternative => rw [mapFirst, text, text, piece_text]
  | cons alternative others => rw [mapFirst, text, text, piece_text, List.append_assoc]

/-- A balanced text is read as the alternatives of a group. -/
theorem Balanced.exists_alternatives {body : Text} (balanced : Balanced body) :
    ∃ alternatives : Alternatives, alternatives.text = body := by
  induction balanced with
  | nil => exact ⟨.last .nil, by simp [Alternatives.text, Sequence.text]⟩
  | @escaped c text _ ih =>
      obtain ⟨alternatives, rfl⟩ := ih
      have piece_text : ∀ sequence : Sequence .inside,
          (Sequence.escaped c sequence).text = ['\\', c] ++ sequence.text := by
        simp [Sequence.text]
      exact ⟨alternatives.mapFirst (.escaped c), alternatives.text_mapFirst piece_text⟩
  | @plain c text ordinary _ ih =>
      obtain ⟨alternatives, rfl⟩ := ih
      by_cases comma : c = ','
      · exact ⟨.cons .nil alternatives, by simp [Alternatives.text, Sequence.text, comma]⟩
      · have unreserved : c ∉ Place.inside.reserved := by simp [Place.reserved, ordinary, comma]
        have piece_text : ∀ sequence : Sequence .inside,
            (Sequence.plain c unreserved sequence).text = [c] ++ sequence.text := by
          simp [Sequence.text]
        exact ⟨alternatives.mapFirst (.plain c unreserved),
          alternatives.text_mapFirst piece_text⟩
  | group _ _ inner_ih ih =>
      obtain ⟨inner, rfl⟩ := inner_ih
      obtain ⟨alternatives, rfl⟩ := ih
      have piece_text : ∀ sequence : Sequence .inside, (Sequence.group inner sequence).text =
          '{' :: inner.text ++ ['}'] ++ sequence.text := by
        simp [Sequence.text]
      have text_eq := alternatives.text_mapFirst piece_text
      exact ⟨alternatives.mapFirst (.group inner), by simpa using text_eq⟩

theorem exists_sequence {pattern : Text} (matched : ¬HasUnmatched pattern) :
    ∃ sequence : Sequence .outside, sequence.text = pattern := by
  induction size : pattern.length using Nat.strong_induction_on generalizing pattern with
  | _ size shorter =>
      subst size
      match pattern with
      | [] => exact ⟨.nil, by simp [Sequence.text]⟩
      | c :: rest =>
          by_cases escape : c = '\\'
          · subst escape
            match rest with
            | [] => exact ⟨.dangling, by simp [Sequence.text]⟩
            | c :: rest =>
                rw [hasUnmatched_escaped_iff] at matched
                have fewer : rest.length < ('\\' :: c :: rest).length := by
                  simp only [List.length_cons]
                  omega
                obtain ⟨sequence, rfl⟩ := shorter rest.length fewer matched rfl
                exact ⟨.escaped c sequence, by simp [Sequence.text]⟩
          · rw [hasUnmatched_cons_iff escape, not_or, not_and, not_not] at matched
            by_cases is_open : c = '{'
            · subst is_open
              obtain ⟨body, tail, rfl, balanced⟩ := matched.1 rfl
              have tail_matched : ¬HasUnmatched tail := by
                intro unmatched
                have body_paired := paired_append_plain balanced.paired (c := '}') (by decide)
                apply matched.2
                simpa using unmatched.append_left body_paired
              obtain ⟨alternatives, rfl⟩ := balanced.exists_alternatives
              have fewer : tail.length < ('{' :: (alternatives.text ++ '}' :: tail)).length := by
                simp only [List.length_cons, List.length_append]
                omega
              obtain ⟨sequence, rfl⟩ := shorter tail.length fewer tail_matched rfl
              exact ⟨.group alternatives sequence, by simp [Sequence.text]⟩
            · obtain ⟨sequence, rfl⟩ := shorter rest.length (by simp) matched.2 rfl
              exact ⟨.plain c (by simp [Place.reserved, escape, is_open]) sequence,
                by simp [Sequence.text]⟩

theorem not_hasUnescaped_of_expandBraces {pattern : Text} {expansions : List Text}
    (expanded : expandBraces pattern = .ok expansions) :
    ∀ expansion ∈ expansions, ¬HasUnescaped ['{'] expansion := by
  induction size : pattern.length using Nat.strong_induction_on
    generalizing pattern expansions with
  | _ size shorter =>
      subst size
      rcases expandBraces_eq_ok expanded with
        ⟨plain, rfl⟩ | ⟨before, group, alternatives, after, parts, split, scan, all, rfl⟩
      · intro expansion mem
        rw [List.mem_singleton.mp mem]
        exact splitBrace_eq_none_iff.mp plain
      · intro expansion mem
        obtain ⟨part, part_mem, mem⟩ := List.mem_flatten.mp mem
        obtain ⟨alternative, alternative_mem, part_expands⟩ := all.exists_left_of_mem part_mem
        exact shorter _ (splice_length split scan alternative_mem) part_expands rfl expansion mem

/-- Expansion fails exactly on an unmatched `{`; any other pattern has a tree, and is expanded to
the choices of the tree in order. -/
theorem expandBraces_grammar (pattern : Text) :
    ((∃ failure, expandBraces pattern = .error failure) ↔ HasUnmatched pattern) ∧
      (¬HasUnmatched pattern → ∃ sequence : Sequence .outside, sequence.text = pattern) ∧
      ∀ sequence : Sequence .outside, sequence.text = pattern →
        expandBraces pattern = .ok sequence.expand ∧ sequence.expand ≠ [] ∧
          ∀ expansion ∈ sequence.expand, ¬HasUnescaped ['{'] expansion := by
  refine ⟨⟨?_, ?_⟩, exists_sequence, ?_⟩
  · intro error
    obtain ⟨failure, failed⟩ := error
    by_contra matched
    obtain ⟨sequence, rfl⟩ := exists_sequence matched
    rw [sequence.expandBraces_text] at failed
    contradiction
  · intro unmatched
    cases expanded : expandBraces pattern with
    | error failure => exact ⟨failure, rfl⟩
    | ok expansions => exact absurd unmatched (not_hasUnmatched_of_expandBraces expanded)
  · intro sequence reads
    subst reads
    have expanded := sequence.expandBraces_text
    exact ⟨expanded, expandBraces_ne_nil expanded, not_hasUnescaped_of_expandBraces expanded⟩

/-- Nested groups. -/
example : expandBraces "/\x7ba,\x7bb,c\x7d\x7d".toList =
    .ok ["/a".toList, "/b".toList, "/c".toList] := by
  decide +kernel

end Glob
end DuckdbHdfs
