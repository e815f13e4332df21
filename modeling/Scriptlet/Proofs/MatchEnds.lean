import Scriptlet.Proofs.PatternTable

/-!
# Where matches end

A pattern that takes a text from the front of a source takes the same text in front of every other
rest that may stand behind it. What may stand behind a text depends on the pattern alone, and on the
first two characters of the rest at most: a run of blanks ends in front of anything but a blank, a
comment up to the end of a line ends in front of a newline, and so on. Quotations, comments between
marks and fixed texts end where they end, whatever stands behind them.

## Main definitions

* `Pattern.Stops`: what may stand behind a text that the pattern takes.

## Main results

* `Pattern.stops_of_split?`, `Pattern.split?_of_stops`: a text is taken exactly in front of what may
  stand behind it.
-/

namespace Scriptlet

/-! ### Readers -/

/-- A run is taken up to the first character that does not belong to it. -/
theorem takeRun?_eq_some_iff {first more : Char → Bool} {cs text rest : List Char} :
    takeRun? first more cs = some (text, rest) ↔ cs = text ++ rest ∧
      (∃ c run, text = c :: run ∧ first c = true ∧ ∀ d ∈ run, more d = true) ∧
      ∀ c ∈ rest.head?, more c = false := by
  constructor
  · intro h
    refine ⟨(takeRun?_splits h).1, takeRun?_eq_some h, fun c hc => ?_⟩
    cases cs with
    | nil => cases h
    | cons d ds =>
      rw [takeRun?] at h
      split at h
      · cases h
        have hstop := List.head?_dropWhile_not more ds
        rw [Option.mem_def] at hc
        rw [hc] at hstop
        simpa using hstop
      · cases h
  · rintro ⟨rfl, ⟨c, run, rfl, hc, hrun⟩, hrest⟩
    have htake : rest.takeWhile more = [] ∧ rest.dropWhile more = rest := by
      cases rest with
      | nil => exact ⟨rfl, rfl⟩
      | cons d ds => simp [hrest d rfl]
    rw [List.cons_append, takeRun?, if_pos hc, List.takeWhile_append_of_pos hrun,
      List.dropWhile_append_of_pos hrun, htake.1, htake.2, List.append_nil]

theorem takeLineComment?_of_stops {line rest : List Char} (hline : '\n' ∉ line)
    (hrest : ∀ c ∈ rest.head?, c = '\n') :
    takeLineComment? ('/' :: '/' :: line ++ rest) = some ('/' :: '/' :: line, rest) := by
  have hall : ∀ c ∈ line, (c != '\n') = true := by
    intro c hc
    rw [bne_iff_ne]
    rintro rfl
    exact hline hc
  have htake : rest.takeWhile (· != '\n') = [] ∧ rest.dropWhile (· != '\n') = rest := by
    cases rest with
    | nil => exact ⟨rfl, rfl⟩
    | cons d ds => simp [hrest d rfl]
  rw [List.cons_append, List.cons_append, takeLineComment?, List.takeWhile_append_of_pos hall,
    List.dropWhile_append_of_pos hall, htake.1, htake.2, List.append_nil]

/-- A comment without the closing mark in it is closed by the one behind it. -/
theorem takeThroughClose?_append_close {body : List Char}
    (h : ¬ ['*', '/'] <:+: body ++ ['*']) (rest : List Char) :
    takeThroughClose? (body ++ ['*', '/'] ++ rest) = some (body ++ ['*', '/'], rest) := by
  induction body with
  | nil => rfl
  | cons c body ih =>
    rw [List.cons_append, List.infix_cons_iff, not_or] at h
    rw [List.cons_append, List.cons_append, takeThroughClose?.eq_3, ih h.2]
    · rfl
    · exact ne_slash_of_not_prefix h.1 rest

/-- A block comment ends with the first closing mark, whatever stands behind it. -/
theorem takeBlockComment?_append_close {body : List Char}
    (h : ¬ ['*', '/'] <:+: body ++ ['*']) (rest : List Char) :
    takeBlockComment? ('/' :: '*' :: (body ++ ['*', '/']) ++ rest) =
      some ('/' :: '*' :: (body ++ ['*', '/']), rest) := by
  rw [List.cons_append, List.cons_append, takeBlockComment?, takeThroughClose?_append_close h]
  rfl

/-- A quotation ends at its mark, whatever stands behind it. -/
theorem takeThroughQuote?_of_taken {mark : Char} (hmark : mark ≠ '\\') {cs text rest : List Char}
    (h : takeThroughQuote? mark cs = some (text, rest)) (rest' : List Char) :
    takeThroughQuote? mark (text ++ rest') = some (text, rest') := by
  -- The reader comes to the same mark again, and has not looked behind it.
  fun_induction takeThroughQuote? mark cs generalizing text rest with
  | case1 => cases h
  | case2 => cases h
  | case3 c cs hc ih =>
    obtain ⟨⟨text', rest⟩, hinner, heq⟩ := Option.map_eq_some_iff.1 h
    cases heq
    simp [takeThroughQuote?, hc, ih hinner]
  | case4 cs =>
    cases h
    rw [List.singleton_append, takeThroughQuote?.eq_3 _ _ _ fun _ _ h' => absurd h' hmark,
      if_pos rfl]
  | case5 => cases h
  | case6 c cs _ hc hstop ih =>
    obtain ⟨⟨text', rest⟩, hinner, heq⟩ := Option.map_eq_some_iff.1 h
    cases heq
    rw [not_or] at hstop
    rw [List.cons_append, takeThroughQuote?.eq_3 _ _ _ fun _ _ h' => absurd h' hstop.2, if_neg hc,
      if_neg (by simp [hstop]), ih hinner]
    rfl

/-- So does a quotation with its marks. -/
theorem takeQuoted?_of_taken {mark : Char} (hmark : mark ≠ '\\') {cs text rest : List Char}
    (h : takeQuoted? mark cs = some (text, rest)) (rest' : List Char) :
    takeQuoted? mark (text ++ rest') = some (text, rest') := by
  cases cs with
  | nil => cases h
  | cons c cs =>
    rw [takeQuoted?] at h
    split at h
    · rename_i hc
      obtain ⟨⟨text', rest⟩, hinner, heq⟩ := Option.map_eq_some_iff.1 h
      cases heq
      rw [List.cons_append, takeQuoted?, if_pos hc, takeThroughQuote?_of_taken hmark hinner]
      rfl
    · cases h

theorem takeText?_append (word rest : List Char) :
    takeText? word (word ++ rest) = some (word, rest) := by
  rw [takeText?, if_pos (List.isPrefixOf_iff_prefix.2 (List.prefix_append _ _)),
    List.drop_left]

/-- There is no dot with a digit behind it. -/
def NoFraction (cs : List Char) : Prop :=
  ∀ more, cs = '.' :: more → ∀ c ∈ more.head?, isDigit c = false

/-- Either there is no fraction, or it is a point with a run of digits behind it. -/
theorem takeFraction_eq (cs : List Char) :
    (takeFraction cs = ([], cs) ∧ NoFraction cs) ∨
    ∃ more digits rest, cs = '.' :: more ∧ takeRun? isDigit isDigit more = some (digits, rest) ∧
      takeFraction cs = ('.' :: digits, rest) := by
  by_cases hdot : ∃ more, cs = '.' :: more
  · obtain ⟨more, rfl⟩ := hdot
    cases hrun : takeRun? isDigit isDigit more with
    | some parts => exact .inr ⟨more, parts.1, parts.2, rfl, hrun, by simp [takeFraction, hrun]⟩
    -- A point without a digit behind it is no fraction.
    | none =>
      refine .inl ⟨by simp [takeFraction, hrun], ?_⟩
      rintro _ ⟨rfl⟩ c hc
      obtain ⟨ds, rfl⟩ := List.head?_eq_some_iff.1 hc
      simpa [takeRun?] using hrun
  · refine .inl ⟨?_, fun more h => absurd ⟨more, h⟩ hdot⟩
    rw [takeFraction.eq_2]
    exact fun more h => hdot ⟨more, h⟩

theorem takeFraction_of_noFraction {cs : List Char} (h : NoFraction cs) :
    takeFraction cs = ([], cs) := by
  rcases takeFraction_eq cs with ⟨heq, -⟩ | ⟨more, digits, rest, rfl, hrun, -⟩
  · exact heq
  · obtain ⟨-, ⟨c, run, rfl, hc, -⟩, -⟩ := takeRun?_eq_some_iff.1 hrun
    obtain rfl := (takeRun?_splits hrun).1
    rw [h _ rfl c rfl] at hc
    cases hc

theorem takeNumber?_of_takeRun? {cs whole more : List Char}
    (h : takeRun? isDigit isDigit cs = some (whole, more)) :
    takeNumber? cs = some (whole ++ (takeFraction more).1, (takeFraction more).2) := by
  rw [takeNumber?, h]
  rfl

/-- A number is a run of digits, or two with a dot between them, and ends where no digit and, if it
has no fraction, no fraction stands behind it. -/
theorem takeNumber?_eq_some {cs text rest : List Char} (h : takeNumber? cs = some (text, rest)) :
    (takeRun? isDigit isDigit cs = some (text, rest) ∧ NoFraction rest) ∨
    ∃ whole more digits, text = whole ++ '.' :: digits ∧
      takeRun? isDigit isDigit cs = some (whole, '.' :: more) ∧
      takeRun? isDigit isDigit more = some (digits, rest) := by
  obtain ⟨⟨whole, more⟩, hrun, heq⟩ := Option.map_eq_some_iff.1 h
  simp only at heq
  rcases takeFraction_eq more with ⟨hfraction, hno⟩ |
    ⟨behind, digits, last, rfl, hdigits, hfraction⟩
  · rw [hfraction, List.append_nil] at heq
    cases heq
    exact .inl ⟨hrun, hno⟩
  · rw [hfraction] at heq
    cases heq
    exact .inr ⟨whole, behind, digits, rfl, hrun, hdigits⟩

/-! ### Patterns -/

namespace Pattern

/-- What may stand behind a text that the pattern takes. -/
def Stops (text rest : List Char) : Pattern → Prop
  | blanks => ∀ c ∈ rest.head?, isBlank c = false
  | lineBreaks => ∀ c ∈ rest.head?, isLayout c = false
  | lineComment => ∀ c ∈ rest.head?, c = '\n'
  | word => ∀ c ∈ rest.head?, isWordPart c = false
  | number => (∀ c ∈ rest.head?, isDigit c = false) ∧ ('.' ∈ text ∨ NoFraction rest)
  | blockComment | quoted _ | fixed _ _ => True

variable {p : Pattern} {text rest : List Char}

/-- Behind a text that was taken there is what may stand there. -/
theorem stops_of_split? {cs : List Char} (h : p.split? cs = some (text, rest)) :
    p.Stops text rest := by
  cases p with
  | blanks | lineBreaks | word => exact (takeRun?_eq_some_iff.1 h).2.2
  | lineComment =>
    obtain ⟨-, -, -, hrest⟩ := takeLineComment?_eq_some h
    exact hrest
  | number =>
    rcases takeNumber?_eq_some h with ⟨hrun, hno⟩ | ⟨whole, more, digits, rfl, -, hdigits⟩
    · exact ⟨(takeRun?_eq_some_iff.1 hrun).2.2, .inr hno⟩
    · exact ⟨(takeRun?_eq_some_iff.1 hdigits).2.2, .inl (by simp)⟩
  | blockComment | quoted mark | fixed kind word => trivial

/-- A text that was taken once is taken in front of everything that may stand behind it. -/
theorem split?_of_stops (hp : p ∈ table) {cs : List Char} (h : p.split? cs = some (text, rest))
    {rest' : List Char} (hstops : p.Stops text rest') :
    p.split? (text ++ rest') = some (text, rest') := by
  cases p with
  | blanks | lineBreaks | word =>
    exact takeRun?_eq_some_iff.2 ⟨rfl, (takeRun?_eq_some_iff.1 h).2.1, hstops⟩
  | lineComment =>
    obtain ⟨line, rfl, hline, -⟩ := takeLineComment?_eq_some h
    exact takeLineComment?_of_stops hline hstops
  | blockComment =>
    obtain ⟨body, rfl, hbody⟩ := takeBlockComment?_eq_some h
    exact takeBlockComment?_append_close hbody rest'
  | number =>
    obtain ⟨hdigit, hfraction⟩ := hstops
    rcases takeNumber?_eq_some h with ⟨hrun, -⟩ | ⟨whole, more, digits, rfl, hrun, hdigits⟩
    · obtain ⟨-, ⟨c, run, rfl, hc, hrun⟩, -⟩ := takeRun?_eq_some_iff.1 hrun
      -- There is no point in the text, so none may follow with a digit behind it.
      have hno : NoFraction rest' := by
        refine hfraction.resolve_left fun hmem => ?_
        rcases List.mem_cons.1 hmem with rfl | hmem
        · exact absurd hc (by decide)
        · exact absurd (hrun _ hmem) (by decide)
      have htake := takeRun?_eq_some_iff.2 ⟨rfl, ⟨c, run, rfl, hc, hrun⟩, hdigit⟩
      rw [split?, takeNumber?_of_takeRun? htake, takeFraction_of_noFraction hno, List.append_nil]
    · obtain ⟨-, hwhole, hdot⟩ := takeRun?_eq_some_iff.1 hrun
      have hbehind := takeRun?_eq_some_iff.2 ⟨rfl, (takeRun?_eq_some_iff.1 hdigits).2.1, hdigit⟩
      have htake : takeRun? isDigit isDigit (whole ++ '.' :: (digits ++ rest')) =
          some (whole, '.' :: (digits ++ rest')) :=
        takeRun?_eq_some_iff.2 ⟨rfl, hwhole, hdot⟩
      rw [split?, List.append_assoc, List.cons_append, takeNumber?_of_takeRun? htake]
      simp [takeFraction, hbehind]
  | quoted mark =>
    have hmark := inLine_of_mem hp
    simp only [inLine, Bool.and_eq_true, decide_eq_true_eq] at hmark
    exact takeQuoted?_of_taken hmark.2 h rest'
  | fixed kind word =>
    obtain ⟨rfl, -⟩ := takeText?_eq_some h
    exact takeText?_append _ _

end Pattern

end Scriptlet
