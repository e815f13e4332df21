import Scriptlet.Token.Pattern

/-!
# Matches in front of a newline

No pattern looks past the end of a line, but for two. A block comment goes on to its end, wherever
that is, and a source that opens one has no match until it is closed. A run of line breaks takes
all blanks and empty lines behind it. So when another line follows a source, what matched at its
front matches still and takes the same text, unless it was a run of line breaks that reaches the
end; then it goes on into that line.

## Main definitions

* `Local`: readers that do not look past the end of a line.

## Main results

* `local_split?`: most patterns are local;
* `firstMatch?_append_newline`: what another line does to a match.
-/

namespace Scriptlet

/-! ### Readers in front of a newline -/

/-- What the reader takes from a text stays the same when a line follows. -/
def Local (read : List Char → Option (List Char × List Char)) (cs : List Char) : Prop :=
  ∀ v, read (cs ++ '\n' :: v) = (read cs).map fun parts => (parts.1, parts.2 ++ '\n' :: v)

/-- A run that no newline belongs to ends in front of it. -/
theorem takeWhile_append_newline {p : Char → Bool} (hp : p '\n' = false) (cs v : List Char) :
    (cs ++ '\n' :: v).takeWhile p = cs.takeWhile p := by
  induction cs with
  | nil => simp [hp]
  | cons c cs ih => rw [List.cons_append, List.takeWhile_cons, List.takeWhile_cons, ih]

theorem dropWhile_append_newline {p : Char → Bool} (hp : p '\n' = false) (cs v : List Char) :
    (cs ++ '\n' :: v).dropWhile p = cs.dropWhile p ++ '\n' :: v := by
  induction cs with
  | nil => simp [hp]
  | cons c cs ih =>
    rw [List.cons_append, List.dropWhile_cons, List.dropWhile_cons, ih]
    split <;> rfl

/-- Runs that newlines do not belong to are local. -/
theorem local_takeRun? {first more : Char → Bool} (hfirst : first '\n' = false)
    (hmore : more '\n' = false) (cs : List Char) : Local (takeRun? first more) cs := by
  intro v
  cases cs with
  | nil => simp [takeRun?, hfirst]
  | cons c cs =>
    rw [List.cons_append, takeRun?, takeRun?, takeWhile_append_newline hmore,
      dropWhile_append_newline hmore]
    split <;> rfl

/-- A text within one line stands at the front only if it did before the line was added. -/
theorem isPrefixOf_append_newline {text : List Char} (h : '\n' ∉ text) (cs v : List Char) :
    text.isPrefixOf (cs ++ '\n' :: v) = text.isPrefixOf cs := by
  induction text generalizing cs with
  | nil => simp
  | cons c text ih =>
    rw [List.mem_cons, not_or] at h
    cases cs with
    | nil => simp [List.isPrefixOf, Ne.symm h.1]
    | cons d cs => rw [List.cons_append, List.isPrefixOf, List.isPrefixOf, ih h.2]

/-- A fixed text within one line is found locally. -/
theorem local_takeText? {text : List Char} (h : '\n' ∉ text) (cs : List Char) :
    Local (takeText? text) cs := by
  intro v
  rw [takeText?, takeText?, isPrefixOf_append_newline h]
  split
  · rename_i hprefix
    have hle := (List.isPrefixOf_iff_prefix.1 hprefix).length_le
    rw [List.drop_append_of_le_length hle]
    rfl
  · rfl

/-- A line comment ends with its line. -/
theorem local_takeLineComment? (cs : List Char) : Local takeLineComment? cs := by
  intro v
  match cs with
  | [] => simp [takeLineComment?]
  | [c] => simp [takeLineComment?]
  | c :: d :: cs =>
    by_cases h : c = '/' ∧ d = '/'
    · obtain ⟨rfl, rfl⟩ := h
      simp only [takeLineComment?, List.cons_append, Option.map_some]
      rw [takeWhile_append_newline rfl, dropWhile_append_newline rfl]
    · rw [takeLineComment?.eq_2, takeLineComment?.eq_2] <;> simp_all

/-- The fraction behind a number is read within the line. -/
theorem local_takeFraction (cs v : List Char) : takeFraction (cs ++ '\n' :: v) =
    ((takeFraction cs).1, (takeFraction cs).2 ++ '\n' :: v) := by
  match cs with
  | [] => rfl
  | c :: cs =>
    by_cases h : c = '.'
    · subst h
      rw [takeFraction.eq_def, takeFraction.eq_def]
      simp only [List.cons_append]
      rw [local_takeRun? rfl rfl]
      cases takeRun? isDigit isDigit cs <;> rfl
    · rw [takeFraction.eq_2, takeFraction.eq_2] <;> simp_all

/-- Numbers are read within the line. -/
theorem local_takeNumber? (cs : List Char) : Local takeNumber? cs := by
  intro v
  rw [takeNumber?, takeNumber?, local_takeRun? rfl rfl, Option.map_map, Option.map_map]
  congr 1
  funext parts
  simp [local_takeFraction]

/-- A quotation ends in its line or not at all. -/
theorem local_takeThroughQuote? {mark : Char} (hmark : mark ≠ '\n') (hback : mark ≠ '\\')
    (cs : List Char) : Local (takeThroughQuote? mark) cs := by
  intro v
  -- Along the text inside the quotation: a character is the mark, one that no quotation holds, or
  -- taken, alone or with the backslash in front of it.
  fun_induction takeThroughQuote? mark cs with
  | case1 => simp [takeThroughQuote?, hmark.symm]
  | case2 => simp [takeThroughQuote?]
  | case3 c cs hc ih => simp [takeThroughQuote?, hc, ih, Option.map_map, Function.comp_def]
  | case4 cs h =>
    rw [List.cons_append, takeThroughQuote?.eq_3 _ _ _ fun _ _ h' => absurd h' hback, if_pos rfl]
    rfl
  | case5 c cs h hc hstop =>
    rcases hstop with rfl | rfl
    · rw [List.cons_append, takeThroughQuote?.eq_3 _ _ _ fun _ _ h' => absurd h' (by decide),
        if_neg hc, if_pos (.inl rfl)]
      rfl
    · cases cs with
      -- A lone backslash at the end: with a line behind it the newline is what is escaped.
      | nil => simp [takeThroughQuote?]
      | cons d cs => exact (h d cs rfl rfl).elim
  | case6 c cs h hc hstop ih =>
    rw [not_or] at hstop
    rw [List.cons_append, takeThroughQuote?.eq_3 _ _ _ fun _ _ h' => absurd h' hstop.2, if_neg hc,
      if_neg (by simp [hstop]), ih]
    cases takeThroughQuote? mark cs <;> rfl

theorem local_takeQuoted? {mark : Char} (hmark : mark ≠ '\n') (hback : mark ≠ '\\')
    (cs : List Char) : Local (takeQuoted? mark) cs := by
  intro v
  cases cs with
  | nil => simp [takeQuoted?, hmark.symm]
  | cons c cs =>
    rw [List.cons_append, takeQuoted?, takeQuoted?, local_takeThroughQuote? hmark hback]
    split
    · cases takeThroughQuote? mark cs <;> rfl
    · rfl

/-- A comment that is closed is closed wherever it stands. -/
theorem takeThroughClose?_append {cs : List Char} {parts : List Char × List Char}
    (h : takeThroughClose? cs = some parts) (more : List Char) :
    takeThroughClose? (cs ++ more) = some (parts.1, parts.2 ++ more) := by
  fun_induction takeThroughClose? cs generalizing parts with
  | case1 => cases h
  | case2 cs =>
    cases h
    simp [takeThroughClose?]
  | case3 c cs hclose ih =>
    obtain ⟨inner, hinner, rfl⟩ := Option.map_eq_some_iff.1 h
    rw [List.cons_append, takeThroughClose?.eq_3, ih hinner]
    · rfl
    · -- The text does not start with the closing pair here, and does not with more behind it, as it
      -- holds a later pair.
      intro cs' hc hcs
      cases cs with
      | nil => cases hinner
      | cons d cs =>
        rw [List.cons_append, List.cons.injEq] at hcs
        exact hclose cs hc (by rw [hcs.1])

/-! ### Matches in front of a newline -/

/-- A newline starts a run of line breaks, and no other pattern matches there. -/
theorem firstMatch?_newline (cs : List Char) : firstMatch? ('\n' :: cs) =
    some (.lineBreaks, '\n' :: cs.takeWhile isLayout, cs.dropWhile isLayout) := by
  simp [firstMatch?, Pattern.table, Pattern.split?, takeRun?, isBlank]

/-- A blank starts a run of blanks, which is the first pattern of the table. -/
theorem firstMatch?_blank {c : Char} (hc : isBlank c = true) (cs : List Char) :
    firstMatch? (c :: cs) = some (.blanks, c :: cs.takeWhile isBlank, cs.dropWhile isBlank) := by
  simp [firstMatch?, Pattern.table, Pattern.split?, takeRun?, hc]

/-- In front of an opened block comment nothing matches but the comment itself, if it is closed. -/
theorem firstMatch?_comment (cs : List Char) : firstMatch? ('/' :: '*' :: cs) =
    (takeThroughClose? cs).map fun parts =>
      (.blockComment, '/' :: '*' :: parts.1, parts.2) := by
  have hother : (Pattern.table.drop 4).findSome? (fun p =>
      (p.split? ('/' :: '*' :: cs)).map fun parts => (p, parts)) = none := by
    simp [Pattern.table, Pattern.split?, takeRun?, isWordStart, takeNumber?, isDigit, takeQuoted?,
      takeText?, List.isPrefixOf]
  have hsplit : Pattern.table =
      [.blanks, .lineBreaks, .lineComment, .blockComment] ++ Pattern.table.drop 4 := rfl
  rw [firstMatch?, hsplit, List.findSome?_append, hother, Option.or_none]
  cases h : takeThroughClose? cs <;>
    simp [Pattern.split?, takeRun?, isBlank, takeLineComment?, takeBlockComment?, h]

/-- Whether what the pattern asks for stands in one line. -/
def Pattern.inLine : Pattern → Bool
  | quoted mark => mark ≠ '\n' && mark ≠ '\\'
  | fixed _ text => !text.contains '\n'
  | _ => true

/-- No mark of a quotation and no fixed text of the table has a newline in it. -/
theorem Pattern.inLine_of_mem {p : Pattern} (hp : p ∈ table) : p.inLine = true :=
  List.all_eq_true.1 (by decide : table.all inLine = true) p hp

/-- Apart from runs of line breaks and block comments, the patterns of the table are local. -/
theorem local_split? {p : Pattern} (hp : p ∈ Pattern.table) {c : Char} {cs : List Char}
    (hc : c ≠ '\n') (hcomment : ¬(c = '/' ∧ cs.head? = some '*')) : Local p.split? (c :: cs) := by
  cases p with
  | blanks => exact local_takeRun? rfl rfl _
  | lineBreaks =>
    intro v
    simp [Pattern.split?, takeRun?, hc]
  | lineComment => exact local_takeLineComment? _
  | blockComment =>
    intro v
    have hnone : ∀ {ds : List Char}, ¬(c = '/' ∧ ds.head? = some '*') →
        takeBlockComment? (c :: ds) = none := by
      intro ds hds
      rw [takeBlockComment?.eq_2]
      rintro ds' h
      cases h
      exact hds ⟨rfl, rfl⟩
    have hcomment' : ¬(c = '/' ∧ (cs ++ '\n' :: v).head? = some '*') := by
      cases cs with
      | nil => simp
      | cons d cs => simpa using hcomment
    rw [Pattern.split?, List.cons_append, hnone hcomment, hnone hcomment']
    rfl
  | word => exact local_takeRun? rfl rfl _
  | number => exact local_takeNumber? _
  | quoted mark =>
    have hmark := Pattern.inLine_of_mem hp
    simp only [Pattern.inLine, Bool.and_eq_true, decide_eq_true_eq] at hmark
    exact local_takeQuoted? hmark.1 hmark.2 _
  | fixed kind text =>
    have htext := Pattern.inLine_of_mem hp
    simp only [Pattern.inLine, Bool.not_eq_true', List.contains_eq_mem,
      decide_eq_false_iff_not] at htext
    exact local_takeText? htext _

/-- The table behaves as its patterns do. -/
theorem firstMatch?_append_of_local {cs : List Char}
    (h : ∀ p ∈ Pattern.table, Local p.split? cs) (v : List Char) :
    firstMatch? (cs ++ '\n' :: v) =
      (firstMatch? cs).map fun hit => (hit.1, hit.2.1, hit.2.2 ++ '\n' :: v) := by
  rw [firstMatch?, firstMatch?]
  generalize Pattern.table = ps at h ⊢
  induction ps with
  | nil => rfl
  | cons p ps ih =>
    rw [List.findSome?_cons, List.findSome?_cons, h p List.mem_cons_self v]
    cases hsplit : p.split? cs with
    | some parts => rfl
    | none => exact ih fun q hq => h q (List.mem_cons_of_mem _ hq)

/-- A match stays what it is when a line follows, unless it is a run of line breaks that goes on
into that line. -/
theorem firstMatch?_append_newline {cs text rest : List Char} {p : Pattern} (v : List Char)
    (h : firstMatch? cs = some (p, text, rest)) :
    firstMatch? (cs ++ '\n' :: v) = some (p, text, rest ++ '\n' :: v) ∨
    (p = .lineBreaks ∧ rest = [] ∧ firstMatch? (cs ++ '\n' :: v) =
      some (.lineBreaks, text ++ '\n' :: v.takeWhile isLayout, v.dropWhile isLayout)) := by
  cases cs with
  | nil => cases h
  | cons c cs =>
    by_cases hc : c = '\n'
    · subst hc
      rw [firstMatch?_newline] at h
      cases h
      rw [List.cons_append, firstMatch?_newline, List.takeWhile_append, List.dropWhile_append]
      by_cases hall : cs.dropWhile isLayout = []
      · right
        have htake : cs.takeWhile isLayout = cs := by
          have happend := List.takeWhile_append_dropWhile (p := isLayout) (l := cs)
          rwa [hall, List.append_nil] at happend
        have hnewline : isLayout '\n' = true := rfl
        simp [hall, htake, hnewline]
      · left
        have htake : (cs.takeWhile isLayout).length ≠ cs.length := by
          have happend := List.takeWhile_append_dropWhile (p := isLayout) (l := cs)
          have hlength := congrArg List.length happend
          have hpos := List.length_pos_iff.2 hall
          rw [List.length_append] at hlength
          omega
        rw [if_neg htake, if_neg (by simpa using hall)]
    -- A block comment that matched is closed, so what stands behind it makes no difference.
    by_cases hcomment : c = '/' ∧ cs.head? = some '*'
    · left
      obtain ⟨rfl, hhead⟩ := hcomment
      obtain ⟨ds, rfl⟩ := List.head?_eq_some_iff.1 hhead
      rw [firstMatch?_comment] at h
      obtain ⟨parts, hclose, heq⟩ := Option.map_eq_some_iff.1 h
      cases heq
      rw [List.cons_append, List.cons_append, firstMatch?_comment,
        takeThroughClose?_append hclose]
      rfl
    · left
      rw [firstMatch?_append_of_local (fun p hp => local_split? hp hc hcomment), h]
      rfl

/-- Only line breaks depend on what was in front of them. -/
theorem Pattern.token?_eq_of_ne {p : Pattern} (hp : p ≠ .lineBreaks) (last last' : Option Kind)
    (text : List Char) : p.token? last text = p.token? last' text := by
  cases p <;> first | rfl | exact absurd rfl hp

theorem Pattern.token?_lineBreaks (text : List Char) :
    lineBreaks.token? (some .lineBreak) text = none := rfl

theorem Pattern.token?_lineBreaks_of_ne {last : Option Kind} (hl : last ≠ some .lineBreak)
    (text : List Char) : lineBreaks.token? last text = some (.lineBreak, "\n") :=
  if_neg hl

end Scriptlet
