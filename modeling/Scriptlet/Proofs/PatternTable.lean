import Mathlib.Data.Bool.AllAny
import Scriptlet.Proofs.Gaps
import Scriptlet.Proofs.Locality

/-!
# The patterns are apart

The table is tried in order, but the order hardly matters. Two patterns that match at the same place
are the same pattern, with one exception: in front of an equals sign a plus or a minus is a match by
itself, and the sign and the equals sign together are another. So a match of the table is a match of
any of its patterns, as long as it is not such a sign by itself.

Most patterns are told apart by the character they start with. Only a slash, a plus and a minus
start more than one; behind a slash the second character tells comments and assignments apart.

## Main definitions

* `Pattern.starts`: whether a pattern can start with a character.

## Main results

* `Pattern.eq_of_split?`: patterns that match at the same place;
* `firstMatch?_eq_some_iff`: what a match of the table is.
-/

namespace Scriptlet

/-- A fixed text is taken as it is. -/
theorem takeText?_eq_some {word cs text rest : List Char}
    (h : takeText? word cs = some (text, rest)) : text = word ∧ cs = word ++ rest := by
  rw [takeText?] at h
  split at h
  · rename_i hprefix
    obtain ⟨more, rfl⟩ := List.isPrefixOf_iff_prefix.1 hprefix
    cases h
    simp
  · cases h

namespace Pattern

/-- The characters that a pattern can start with, where they are few. -/
def heads : Pattern → List Char
  | blanks => [' ', '\t', '\r']
  | lineBreaks => ['\n']
  | lineComment | blockComment => ['/']
  | word | number => []
  | quoted mark => [mark]
  | fixed _ text => text.take 1

/-- Whether a pattern can start with a character. -/
def starts (c : Char) : Pattern → Bool
  | word => isWordStart c
  | number => isDigit c
  | p => p.heads.contains c

/-- The characters that start a pattern other than words and numbers. -/
def marks : List Char := table.flatMap heads

variable {p q : Pattern} {c : Char} {cs text rest : List Char}

/-- What a pattern takes starts with one of its characters. -/
theorem exists_starts_of_split? (hp : p ∈ table) (h : p.split? cs = some (text, rest)) :
    ∃ c more, text = c :: more ∧ p.starts c = true := by
  cases p with
  | blanks | lineBreaks =>
    obtain ⟨c, run, rfl, hc, -⟩ := takeRun?_eq_some h
    exact ⟨c, run, rfl, by simpa [starts, heads, isBlank, or_assoc] using hc⟩
  | word =>
    obtain ⟨c, run, rfl, hc, -⟩ := takeRun?_eq_some h
    exact ⟨c, run, rfl, hc⟩
  | lineComment =>
    obtain ⟨line, rfl, -⟩ := takeLineComment?_eq_some h
    exact ⟨'/', _, rfl, rfl⟩
  | blockComment =>
    obtain ⟨body, rfl, -⟩ := takeBlockComment?_eq_some h
    exact ⟨'/', _, rfl, rfl⟩
  | number =>
    obtain ⟨⟨whole, more⟩, hrun, heq⟩ := Option.map_eq_some_iff.1 h
    obtain ⟨c, run, rfl, hc, -⟩ := takeRun?_eq_some hrun
    cases heq
    exact ⟨c, _, rfl, hc⟩
  | quoted mark =>
    cases cs with
    | nil => cases h
    | cons c cs =>
      simp only [split?, takeQuoted?] at h
      split at h
      · obtain ⟨_, -, heq⟩ := Option.map_eq_some_iff.1 h
        cases heq
        exact ⟨c, _, rfl, by simpa [starts, heads]⟩
      · cases h
  | fixed kind word =>
    obtain ⟨rfl, -⟩ := takeText?_eq_some h
    obtain ⟨c, more, rfl⟩ := List.exists_cons_of_ne_nil (text_ne_nil hp)
    exact ⟨c, more, rfl, by simp [starts, heads]⟩

/-- The first character of a match starts its pattern. -/
theorem starts_of_split? (hp : p ∈ table) (h : p.split? (c :: cs) = some (text, rest)) :
    p.starts c = true := by
  obtain ⟨d, more, rfl, hd⟩ := exists_starts_of_split? hp h
  obtain ⟨rfl, -⟩ := List.cons.inj (split?_splits hp h).1
  exact hd

theorem mem_marks_of_starts (hp : p ∈ table) (h : p.starts c = true) :
    c ∈ marks ∨ p = word ∨ p = number := by
  cases p with
  | word => exact .inr (.inl rfl)
  | number => exact .inr (.inr rfl)
  | blanks | lineBreaks | lineComment | blockComment | quoted mark | fixed kind text =>
    exact .inl (List.mem_flatMap.2 ⟨_, hp, List.contains_iff_mem.1 h⟩)

/-- No character starts both a word and a number. -/
theorem isDigit_of_isWordStart (h : isWordStart c = true) : isDigit c = false := by
  simp only [isWordStart, Bool.or_eq_true, Bool.and_eq_true, decide_eq_true_eq] at h
  rw [isDigit, Bool.and_eq_false_iff, decide_eq_false_iff_not, decide_eq_false_iff_not]
  rcases h with ((⟨h, -⟩ | ⟨h, -⟩) | rfl) | rfl
  · exact .inr fun hc => absurd (Char.le_trans h hc) (by decide)
  · exact .inr fun hc => absurd (Char.le_trans h hc) (by decide)
  · exact .inr (by decide)
  · exact .inl (by decide)

/-- Only slashes and signs start more than one pattern. -/
theorem eq_of_starts (hp : p ∈ table) (hq : q ∈ table) (hpc : p.starts c = true)
    (hqc : q.starts c = true) : p = q ∨ c = '/' ∨ c = '+' ∨ c = '-' := by
  -- Of the other characters there are few, and these are tried one by one.
  have hall : ∀ c ∈ marks, (∀ p ∈ table.filter (starts c), ∀ q ∈ table.filter (starts c), p = q) ∨
      c = '/' ∨ c = '+' ∨ c = '-' :=
    List.all_iff_forall_prop.1 (by decide +kernel)
  have hmark : c ∈ marks → p = q ∨ c = '/' ∨ c = '+' ∨ c = '-' := fun hc =>
    (hall c hc).imp_left fun h =>
      h p (List.mem_filter.2 ⟨hp, hpc⟩) q (List.mem_filter.2 ⟨hq, hqc⟩)
  -- Of words and numbers there are too many characters to try them all.
  rcases mem_marks_of_starts hp hpc with hc | hp'
  · exact hmark hc
  rcases mem_marks_of_starts hq hqc with hc | hq'
  · exact hmark hc
  rcases hp' with rfl | rfl <;> rcases hq' with rfl | rfl
  · exact .inl rfl
  · rw [starts, isDigit_of_isWordStart hpc] at hqc
    cases hqc
  · rw [starts, isDigit_of_isWordStart hqc] at hpc
    cases hpc
  · exact .inl rfl

/-- The patterns that start with a slash have different second characters. -/
theorem cases_of_slash (hp : p ∈ table) (h : p.split? ('/' :: cs) = some (text, rest)) :
    (p = lineComment ∧ cs.head? = some '/') ∨ (p = blockComment ∧ cs.head? = some '*') ∨
      (p = fixed .complexAssignment ['/', '='] ∧ cs.head? = some '=') := by
  have hall : ∀ p ∈ table, p.starts '/' = true →
      p = lineComment ∨ p = blockComment ∨ p = fixed .complexAssignment ['/', '='] := by
    decide
  have happend := (split?_splits hp h).1
  rcases hall p hp (starts_of_split? hp h) with rfl | rfl | rfl
  · obtain ⟨line, rfl, -⟩ := takeLineComment?_eq_some h
    obtain ⟨-, rfl⟩ := List.cons.inj happend
    exact .inl ⟨rfl, rfl⟩
  · obtain ⟨body, rfl, -⟩ := takeBlockComment?_eq_some h
    obtain ⟨-, rfl⟩ := List.cons.inj happend
    exact .inr (.inl ⟨rfl, rfl⟩)
  · obtain ⟨-, happend⟩ := takeText?_eq_some h
    obtain ⟨-, rfl⟩ := List.cons.inj happend
    exact .inr (.inr ⟨rfl, rfl⟩)

/-- A sign is matched by itself, or with an equals sign behind it. -/
theorem cases_of_sign (hc : c = '+' ∨ c = '-') (hp : p ∈ table)
    (h : p.split? (c :: cs) = some (text, rest)) :
    p = fixed .additiveOperator [c] ∨
      (p = fixed .complexAssignment [c, '='] ∧ cs.head? = some '=') := by
  have hall : ∀ c ∈ ['+', '-'], ∀ p ∈ table, p.starts c = true →
      p = fixed .additiveOperator [c] ∨ p = fixed .complexAssignment [c, '='] :=
    List.all_iff_forall_prop.1 (by decide)
  rcases hall c (by simpa using hc) p hp (starts_of_split? hp h) with rfl | rfl
  · exact .inl rfl
  · obtain ⟨-, happend⟩ := takeText?_eq_some h
    obtain ⟨-, rfl⟩ := List.cons.inj happend
    exact .inr ⟨rfl, rfl⟩

/-- Patterns that match at the same place are the same, unless it is a sign in front of an equals
sign that they match. -/
theorem eq_of_split? {text' rest' : List Char} (hp : p ∈ table) (hq : q ∈ table)
    (h : p.split? cs = some (text, rest)) (h' : q.split? cs = some (text', rest')) :
    p = q ∨ ∃ c more, (c = '+' ∨ c = '-') ∧ cs = c :: '=' :: more := by
  obtain ⟨c, ds, rfl⟩ : ∃ c ds, cs = c :: ds := by
    obtain ⟨happend, hne⟩ := split?_splits hp h
    obtain ⟨c, more, rfl⟩ := List.exists_cons_of_ne_nil hne
    exact ⟨c, more ++ rest, happend⟩
  -- Patterns with one start are the same, or they are told apart by the second character.
  rcases eq_of_starts hp hq (starts_of_split? hp h) (starts_of_split? hq h') with
    heq | rfl | hsign
  · exact .inl heq
  · left
    rcases cases_of_slash hp h with ⟨rfl, hhead⟩ | ⟨rfl, hhead⟩ | ⟨rfl, hhead⟩ <;>
      rcases cases_of_slash hq h' with ⟨rfl, hhead'⟩ | ⟨rfl, hhead'⟩ | ⟨rfl, hhead'⟩ <;>
      simp [hhead] at hhead' ⊢
  · have hright : ds.head? = some '=' → ∃ d more, (d = '+' ∨ d = '-') ∧
        c :: ds = d :: '=' :: more := by
      intro hhead
      obtain ⟨more, rfl⟩ := List.head?_eq_some_iff.1 hhead
      exact ⟨c, more, hsign, rfl⟩
    rcases cases_of_sign hsign hp h with rfl | ⟨rfl, hhead⟩
    · rcases cases_of_sign hsign hq h' with rfl | ⟨rfl, hhead⟩
      · exact .inl rfl
      · exact .inr (hright hhead)
    · exact .inr (hright hhead)

end Pattern

/-! ### Matches of the table -/

/-- A match of the table is a match of any of its patterns, unless that is a sign by itself in front
of an equals sign. -/
theorem firstMatch?_eq_some_iff {cs text rest : List Char} {p : Pattern} :
    firstMatch? cs = some (p, text, rest) ↔ p ∈ Pattern.table ∧ p.split? cs = some (text, rest) ∧
      (text = ['+'] ∨ text = ['-'] → rest.head? ≠ some '=') := by
  -- In front of a sign with an equals sign behind it, the table comes to the longer operator first.
  have hassign : ∀ c, c = '+' ∨ c = '-' → ∀ more, firstMatch? (c :: '=' :: more) =
      some (.fixed .complexAssignment [c, '='], [c, '='], more) := by
    rintro c (rfl | rfl) more <;>
      simp [firstMatch?, Pattern.table, Pattern.split?, takeRun?, isBlank, takeLineComment?,
        takeBlockComment?, isWordStart, takeNumber?, isDigit, takeQuoted?, takeText?,
        List.isPrefixOf]
  constructor
  · intro h
    obtain ⟨hp, hsplit, happend, -⟩ := firstMatch?_eq_some h
    refine ⟨hp, hsplit, fun hsign hhead => ?_⟩
    obtain ⟨more, rfl⟩ := List.head?_eq_some_iff.1 hhead
    obtain ⟨c, hc, rfl⟩ : ∃ c, (c = '+' ∨ c = '-') ∧ text = [c] := by
      rcases hsign with rfl | rfl
      · exact ⟨_, .inl rfl, rfl⟩
      · exact ⟨_, .inr rfl, rfl⟩
    rw [happend, List.singleton_append, hassign c hc] at h
    cases h
  · rintro ⟨hp, hsplit, hsign⟩
    cases hit : firstMatch? cs with
    | none =>
      have hnone := List.findSome?_eq_none_iff.1 hit p hp
      rw [hsplit] at hnone
      cases hnone
    | some found =>
      obtain ⟨q, text', rest'⟩ := found
      obtain ⟨hq, hsplit', -⟩ := firstMatch?_eq_some hit
      rcases Pattern.eq_of_split? hp hq hsplit hsplit' with rfl | ⟨c, more, hc, rfl⟩
      · rw [hsplit] at hsplit'
        cases hsplit'
        rfl
      · rw [hassign c hc] at hit
        cases hit
        rcases Pattern.cases_of_sign hc hp hsplit with rfl | ⟨rfl, -⟩
        · -- The sign by itself has been ruled out.
          obtain ⟨rfl, happend⟩ := takeText?_eq_some hsplit
          obtain ⟨-, rfl⟩ := List.cons.inj happend
          exact absurd rfl (hsign (by simpa using hc))
        · rw [hsplit] at hsplit'
          cases hsplit'
          rfl

end Scriptlet
