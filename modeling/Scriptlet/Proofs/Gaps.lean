import Scriptlet.Proofs.Feed

/-!
# Words and gaps

A match of the table either stands for a token or is passed over. What is passed over is one of four
things: blanks, a comment up to the end of its line, a comment between two marks, and line ends
behind a line break. Texts of these four sorts, one behind the other, are a *gap*. What stands for a
token is its *word*: for most tokens the value itself, and for a line break a newline with all
blanks and newlines behind it.

A line comment goes up to the end of its line, so of a gap it matters what is behind it. That is why
the relations below have the text that follows as an argument.

## Main definitions

* `Skipped`, `Gap`: texts that stand for no token;
* `Token.ReadFrom`: the word of a token.

## Main results

* `Pattern.skipped_of_token?`, `Pattern.readFrom_of_token?`: what a match is.
-/

namespace Scriptlet

/-! ### Texts that stand for no token -/

/-- A text that a scanner passes over behind a token of the given kind, with the source behind it.
Line ends are passed over only behind a line break. -/
inductive Skipped (last : Option Kind) : List Char → List Char → Prop
  /-- Blanks inside a line. -/
  | blanks {run rest : List Char} : run ≠ [] → (∀ c ∈ run, isBlank c = true) →
      Skipped last run rest
  /-- A comment up to the end of its line. -/
  | lineComment {line rest : List Char} : '\n' ∉ line → (∀ c ∈ rest.head?, c = '\n') →
      Skipped last ('/' :: '/' :: line) rest
  /-- A comment up to the first `*/` behind its start. -/
  | blockComment {body rest : List Char} : ¬ ['*', '/'] <:+: body ++ ['*'] →
      Skipped last ('/' :: '*' :: (body ++ ['*', '/'])) rest
  /-- The end of a line, and blanks and line ends behind it. -/
  | lineBreaks {run rest : List Char} : last = some .lineBreak → (∀ c ∈ run, isLayout c = true) →
      Skipped last ('\n' :: run) rest

/-- Any number of such texts, one behind the other. -/
inductive Gap (last : Option Kind) : List Char → List Char → Prop
  | nil {rest : List Char} : Gap last [] rest
  | cons {text gap rest : List Char} : Skipped last text (gap ++ rest) → Gap last gap rest →
      Gap last (text ++ gap) rest

/-- The text that a token was read from. -/
structure Token.ReadFrom (t : Token) (word : List Char) : Prop where
  /-- There is some text. -/
  ne_nil : word ≠ []
  /-- A line break is read from a newline and all blanks and newlines behind it. -/
  lineBreak : t.kind = .lineBreak → ∃ run, word = '\n' :: run ∧ ∀ c ∈ run, isLayout c = true
  /-- Every other token is read from its value. -/
  value : t.kind ≠ .lineBreak → word = t.value.toList

/-- A comment is not closed in front of a character of its body. -/
theorem ne_slash_of_not_prefix {c : Char} {body : List Char}
    (h : ¬ ['*', '/'] <+: c :: (body ++ ['*'])) (rest : List Char) :
    ∀ more, c = '*' → body ++ ['*', '/'] ++ rest ≠ '/' :: more := by
  rintro more rfl heq
  cases body with
  | nil => cases heq
  | cons d body =>
    obtain ⟨rfl, -⟩ := List.cons.inj heq
    exact h (List.cons_prefix_cons.2 ⟨rfl, body ++ ['*'], rfl⟩)

/-! ### What the readers take -/

/-- A run is a first character with more behind it. -/
theorem takeRun?_eq_some {first more : Char → Bool} {cs text rest : List Char}
    (h : takeRun? first more cs = some (text, rest)) :
    ∃ c run, text = c :: run ∧ first c = true ∧ ∀ d ∈ run, more d = true := by
  cases cs with
  | nil => cases h
  | cons c cs =>
    rw [takeRun?] at h
    split at h
    · rename_i hc
      cases h
      exact ⟨c, _, rfl, hc, List.all_eq_true.1 List.all_takeWhile⟩
    · cases h

/-- A line comment goes up to the newline, or to the end. -/
theorem takeLineComment?_eq_some {cs text rest : List Char}
    (h : takeLineComment? cs = some (text, rest)) :
    ∃ line, text = '/' :: '/' :: line ∧ '\n' ∉ line ∧ ∀ c ∈ rest.head?, c = '\n' := by
  unfold takeLineComment? at h
  split at h
  · rename_i cs
    cases h
    refine ⟨_, rfl, fun hmem => ?_, fun c hc => ?_⟩
    · simpa using List.all_eq_true.1 (List.all_takeWhile (l := cs)) _ hmem
    · have hstop := List.head?_dropWhile_not (· != '\n') cs
      rw [Option.mem_def] at hc
      rw [hc] at hstop
      simpa using hstop
  · cases h

/-- The mark that closes a comment is the first one. -/
theorem takeThroughClose?_eq_some {cs text rest : List Char}
    (h : takeThroughClose? cs = some (text, rest)) :
    ∃ body, text = body ++ ['*', '/'] ∧ ¬ ['*', '/'] <:+: body ++ ['*'] := by
  fun_induction takeThroughClose? cs generalizing text rest with
  | case1 => cases h
  | case2 cs =>
    cases h
    exact ⟨[], rfl, by decide⟩
  | case3 c cs hclose ih =>
    obtain ⟨⟨text', rest'⟩, hinner, heq⟩ := Option.map_eq_some_iff.1 h
    cases heq
    obtain ⟨body, rfl, hfirst⟩ := ih hinner
    refine ⟨c :: body, rfl, fun hinfix => ?_⟩
    rw [List.cons_append] at hinfix
    rcases List.infix_cons_iff.1 hinfix with hprefix | htail
    · -- A mark in front would have closed the comment.
      have hcs := (takeThroughClose?_splits hinner).1
      rw [List.cons_prefix_cons] at hprefix
      cases body with
      | nil => exact absurd hprefix.2 (by decide)
      | cons d body =>
        rw [List.cons_append, List.cons_prefix_cons] at hprefix
        obtain ⟨rfl, rfl, -⟩ := hprefix
        exact hclose _ rfl hcs
    · exact hfirst htail

theorem takeBlockComment?_eq_some {cs text rest : List Char}
    (h : takeBlockComment? cs = some (text, rest)) :
    ∃ body, text = '/' :: '*' :: (body ++ ['*', '/']) ∧ ¬ ['*', '/'] <:+: body ++ ['*'] := by
  unfold takeBlockComment? at h
  split at h
  · obtain ⟨⟨taken, behind⟩, hclose, heq⟩ := Option.map_eq_some_iff.1 h
    cases heq
    obtain ⟨body, rfl, hfirst⟩ := takeThroughClose?_eq_some hclose
    exact ⟨body, rfl, hfirst⟩
  · cases h

/-! ### What a match is -/

namespace Pattern

variable {p : Pattern} {last : Option Kind} {cs text rest : List Char}

/-- A match that stands for no token is passed over. -/
theorem skipped_of_token? (hsplit : p.split? cs = some (text, rest))
    (h : p.token? last text = none) : Skipped last text rest := by
  -- Four patterns may stand for no token, and line breaks do so only behind another one.
  cases p with
  | blanks =>
    obtain ⟨c, run, rfl, hc, hrun⟩ := takeRun?_eq_some hsplit
    exact .blanks (by simp) (List.forall_mem_cons.2 ⟨hc, hrun⟩)
  | lineBreaks =>
    obtain ⟨c, run, rfl, hc, hrun⟩ := takeRun?_eq_some hsplit
    obtain rfl : c = '\n' := by simpa using hc
    rw [token?] at h
    split at h
    · rename_i hlast
      exact .lineBreaks hlast hrun
    · cases h
  | lineComment =>
    obtain ⟨line, rfl, hline, hrest⟩ := takeLineComment?_eq_some hsplit
    exact .lineComment hline hrest
  | blockComment =>
    obtain ⟨body, rfl, hfirst⟩ := takeBlockComment?_eq_some hsplit
    exact .blockComment hfirst
  | word | number | quoted mark | fixed kind text => cases h

/-- No fixed text of the table is a line break. -/
theorem kind_ne_lineBreak {kind : Kind} {text : List Char} (h : fixed kind text ∈ table) :
    kind ≠ .lineBreak := by
  rintro rfl
  simp [table] at h

/-- Only the pattern of line ends gives line breaks. -/
theorem eq_lineBreaks_of_token? {value : String} (hmem : p ∈ table)
    (h : p.token? last text = some (.lineBreak, value)) : p = lineBreaks := by
  cases p with
  | lineBreaks => rfl
  | blanks | lineComment | blockComment | number | quoted mark => cases h
  | word =>
    simp only [token?, Option.some.injEq, Prod.mk.injEq] at h
    refine absurd h.1 ?_
    rw [Kind.reserved?.eq_def]
    split <;> simp
  | fixed kind text =>
    cases h
    exact absurd rfl (kind_ne_lineBreak hmem)

/-- A match that stands for a token is the word of that token. -/
theorem readFrom_of_token? {kind : Kind} {value : String} (hmem : p ∈ table)
    (hsplit : p.split? cs = some (text, rest)) (h : p.token? last text = some (kind, value))
    (span : Span) : Token.ReadFrom ⟨kind, value, span⟩ text := by
  have hne := (split?_splits hmem hsplit).2
  -- All tokens but line breaks have the text that was matched as their value.
  have hvalue : kind ≠ .lineBreak → value = String.ofList text →
      Token.ReadFrom ⟨kind, value, span⟩ text := by
    rintro hk rfl
    exact ⟨hne, fun h => absurd h hk, fun _ => String.toList_ofList.symm⟩
  cases p with
  | blanks | lineComment | blockComment => cases h
  | lineBreaks =>
    obtain ⟨c, run, rfl, hc, hrun⟩ := takeRun?_eq_some hsplit
    obtain rfl : c = '\n' := by simpa using hc
    rw [token?] at h
    split at h
    · cases h
    · cases h
      exact ⟨hne, fun _ => ⟨run, rfl, hrun⟩, fun hk => absurd rfl hk⟩
  | word =>
    have hk : kind ≠ .lineBreak := by
      rintro rfl
      cases eq_lineBreaks_of_token? hmem h
    cases h
    exact hvalue hk rfl
  | number | quoted mark =>
    cases h
    exact hvalue nofun rfl
  | fixed kind' text' =>
    cases h
    exact hvalue (kind_ne_lineBreak hmem) rfl

end Pattern

end Scriptlet
