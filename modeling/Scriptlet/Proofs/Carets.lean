import Scriptlet.Proofs.FailureStates
import Scriptlet.Proofs.LinePlaces

/-!
# Where the arrow under a line points

An error of a source that is in front of one of its characters is shown with the line around that
place, without the blanks at its two ends. The arrow under the line starts where the line starts,
and the question is whether its head stands under the character.

Of the line as it is shown, some characters are in front of the place. The arrow is as long as they
are in bytes. So the head stands under the character exactly if each of them takes one byte, apart
from lines so long that there is no arrow at all.

## Main definitions

* `Text.shownFront`: what is shown of a line in front of a place;
* `Error.drawn`: an error shown with an arrow of any length;
* `Error.PointsAt`: what is said of an error in front of a character.

## Main results

* `sub_length_indent`: the length of the arrow;
* `Line.render_eq`: the text in which a line is shown;
* `Error.render?_append`: the text in which an error is shown;
* `Error.arrow_under_character`: when the arrow points at the character.
-/

namespace Scriptlet

open Text (byteLength lineFront lineBack)

/-! ### What is shown -/

/-- What is shown of the line in front of a place, in the text before the place. -/
def Text.shownFront (before : List Char) : List Char :=
  (lineFront before).dropWhile isIndent

open Text (shownFront)

/-- A line with its number, and under it an arrow of a given length. -/
def drawnLine (number : String) (shown : List Char) (length : Nat) : String :=
  let margin := String.ofList (List.replicate number.length ' ')
  margin ++ " |\n" ++
    number ++ " | " ++ String.ofList shown ++ "\n" ++
    margin ++ " | " ++ String.ofList (List.replicate length '-') ++ "^\n"

/-- An error at a place, given by the texts before and behind it, with an arrow of a given
length. -/
def Error.drawn (e : Error) (before behind : List Char) (length : Nat) : String :=
  e.headline ++ "\n-> " ++ e.position.file ++ "\n" ++
    drawnLine (toString (before.count '\n' + 1))
      (Text.trimEnd ((lineFront before ++ lineBack behind).dropWhile isIndent)) length

/-- An error looks different with arrows of different lengths. -/
theorem Error.drawn_inj {e : Error} {before behind : List Char} {m n : Nat} :
    e.drawn before behind m = e.drawn before behind n ↔ m = n := by
  refine ⟨fun h => ?_, congrArg _⟩
  have hlength := congrArg String.length h
  simpa [drawn, drawnLine] using hlength

/-! ### Blanks around a line -/

/-- Every character takes a byte at least. -/
theorem length_le_byteLength (cs : List Char) : cs.length ≤ byteLength cs := by
  induction cs with
  | nil => exact Nat.le_refl 0
  | cons c cs ih =>
    have := c.utf8Size_pos
    rw [List.length_cons, Text.byteLength_cons]
    omega

/-- There are as many bytes as characters exactly if each character takes one. -/
theorem byteLength_eq_length_iff {cs : List Char} :
    byteLength cs = cs.length ↔ ∀ c ∈ cs, c.utf8Size = 1 := by
  induction cs with
  | nil => simp
  | cons c cs ih =>
    have hpos := c.utf8Size_pos
    have hle := length_le_byteLength cs
    rw [Text.byteLength_cons, List.length_cons, List.forall_mem_cons]
    constructor
    · intro h
      exact ⟨by omega, ih.1 (by omega)⟩
    · rintro ⟨hc, hcs⟩
      rw [hc, ih.2 hcs, Nat.add_comm]

theorem utf8Size_of_isIndent {c : Char} (h : isIndent c) : c.utf8Size = 1 := by
  simp only [isIndent, Bool.or_eq_true, decide_eq_true_eq] at h
  rcases h with rfl | rfl <;> rfl

/-- The arrow is as long as what is shown of the line in front of the place, in bytes. If all of
that is blank, there are as many blanks left out of the line at least. -/
theorem sub_length_indent (front back : List Char) :
    byteLength front - ((front ++ back).takeWhile isIndent).length =
      byteLength (front.dropWhile isIndent) := by
  have hblank : byteLength (front.takeWhile isIndent) = (front.takeWhile isIndent).length :=
    byteLength_eq_length_iff.2 fun c hc => utf8Size_of_isIndent (List.mem_takeWhile_imp hc)
  have hsum : byteLength front =
      (front.takeWhile isIndent).length + byteLength (front.dropWhile isIndent) := by
    rw [← hblank, ← Text.byteLength_append, List.takeWhile_append_dropWhile]
  -- Do the blanks at the front of the line reach the place?
  rw [List.takeWhile_append]
  split
  case isTrue hall =>
    have hnil : front.dropWhile isIndent = [] := by
      have := congrArg List.length (@List.takeWhile_append_dropWhile _ isIndent front)
      rw [List.length_append] at this
      exact List.length_eq_zero_iff.1 (by omega)
    rw [hsum, hnil, List.length_append]
    simp [hall]
  case isFalse => rw [hsum, Nat.add_sub_cancel_left]

/-- A newline at the end of a line is not shown. -/
theorem trimEnd_dropWhile_append_newline (line : List Char) :
    Text.trimEnd ((line ++ ['\n']).dropWhile isIndent) =
      Text.trimEnd (line.dropWhile isIndent) := by
  have htrim : ∀ cs, Text.trimEnd (cs ++ ['\n']) = Text.trimEnd cs := by
    intro cs
    rw [Text.trimEnd, List.reverse_append, List.reverse_singleton, List.singleton_append,
      List.dropWhile_cons_of_pos (by decide), Text.trimEnd]
  rw [List.dropWhile_append]
  split
  case isTrue hnil =>
    rw [List.isEmpty_iff.1 hnil]
    exact htrim []
  case isFalse => exact htrim _

/-! ### The text in which an error is shown -/

theorem alignRight_bar (n : Nat) :
    alignRight (n + 2) "|" = String.ofList (List.replicate n ' ') ++ " |" := by
  have hwidth : n + 2 - "|".length = n + 1 := rfl
  have hbar : " |" = String.ofList [' '] ++ "|" := rfl
  rw [alignRight, hwidth, List.replicate_succ', String.ofList_append, String.append_assoc, hbar]

/-- A line is shown without the blanks around it, and its arrow starts where it does. -/
theorem Line.render_eq (l : Line) : l.render =
    drawnLine (toString l.number) (Text.trimEnd (l.text.dropWhile isIndent))
      (l.column - (l.text.takeWhile isIndent).length) := by
  simp only [render, drawnLine, alignRight_bar, String.append_assoc]
  rfl

/-- The error is in front of a character of a source, and this is how it is shown. -/
structure Error.PointsAt (e : Error) (source : String) (before : List Char) (c : Char)
    (behind : List Char) : Prop where
  /-- The source in two parts. -/
  text : source.toList = before ++ c :: behind
  /-- The error is between the two. -/
  offset : e.position.offset.toNat = byteLength before
  /-- The line around the place is shown, with an arrow that is as long as what is shown of the line
  in front of the place, in bytes. Nothing is shown if the arrow is too long. -/
  shown : e.render? source =
    if byteLength (shownFront before) < maxWidth then
      some (e.drawn before (c :: behind) (byteLength (shownFront before)))
    else none
  /-- What is shown of the line goes on with the character, unless the character is one of the
  blanks at the front of the line. -/
  column : (isIndent c → shownFront before ≠ []) →
    (lineFront before ++ lineBack (c :: behind)).dropWhile isIndent =
      shownFront before ++ lineBack (c :: behind)
  /-- The arrow has the length at which its head is in the column of the character exactly if all
  characters that are shown in front of it take one byte, and they are not too many. -/
  exact_iff : e.render? source =
      some (e.drawn before (c :: behind) (shownFront before).length) ↔
    (∀ d ∈ shownFront before, d.utf8Size = 1) ∧ (shownFront before).length < maxWidth

section

variable {e : Error} {source : String} {before behind : List Char} {c : Char}

/-- The text in which an error is shown, from the two parts of the source around its place. -/
theorem Error.render?_append (htext : source.toList = before ++ c :: behind)
    (hoffset : e.position.offset.toNat = byteLength before) :
    e.render? source =
      if byteLength (shownFront before) < maxWidth then
        some (e.drawn before (c :: behind) (byteLength (shownFront before)))
      else none := by
  obtain ⟨back, hback, hline⟩ := lineAt?_append before c behind
  have hshown : Text.trimEnd ((lineFront before ++ back).dropWhile isIndent) =
      Text.trimEnd ((lineFront before ++ lineBack (c :: behind)).dropWhile isIndent) := by
    rcases hback with rfl | rfl
    · rfl
    · rw [← List.append_assoc, trimEnd_dropWhile_append_newline]
  have hrender : e.render source =
      e.drawn before (c :: behind) (byteLength (shownFront before)) := by
    rw [render, htext, hoffset, hline, drawn]
    simp only [Line.render_eq, hshown, sub_length_indent, shownFront]
  rw [render?, htext, hoffset, hline, hrender]
  refine if_congr ?_ rfl rfl
  simp only [Option.all_some, Line.isDrawable, sub_length_indent, decide_eq_true_eq,
    Nat.add_one_le_iff, shownFront]

theorem dropWhile_lineFront_append (h : isIndent c → shownFront before ≠ []) :
    (lineFront before ++ lineBack (c :: behind)).dropWhile isIndent =
      shownFront before ++ lineBack (c :: behind) := by
  rw [List.dropWhile_append]
  split
  case isFalse => rfl
  case isTrue hempty =>
    have hnil : shownFront before = [] := List.isEmpty_iff.1 hempty
    -- Nothing is shown in front of the place, and so the character is no blank.
    have hc : isIndent c = false := Bool.eq_false_iff.2 fun hc => h hc hnil
    rw [hnil, List.nil_append, lineBack, List.takeWhile_cons]
    split
    · rw [List.dropWhile_cons_of_neg (by simp [hc])]
    · rfl

/-- Where the source is split at the place of an error, the error points at the next character. -/
theorem Error.pointsAt_of_append (htext : source.toList = before ++ c :: behind)
    (hoffset : e.position.offset.toNat = byteLength before) :
    e.PointsAt source before c behind where
  text := htext
  offset := hoffset
  shown := render?_append htext hoffset
  column := dropWhile_lineFront_append
  exact_iff := by
    rw [render?_append htext hoffset, ← byteLength_eq_length_iff]
    constructor
    · intro h
      split at h
      case isTrue hlt =>
        have heq := drawn_inj.1 (Option.some.inj h)
        exact ⟨heq, heq ▸ hlt⟩
      case isFalse => cases h
    · rintro ⟨heq, hlt⟩
      rw [heq, if_pos hlt]

/-- An error of a source that is in front of the end of it is in front of a character. It is shown
with the line around that character, and the arrow under the line points at the character exactly if
what is shown of the line in front of it takes one byte for each character, and is not too long. -/
theorem Error.arrow_under_character {file : Option String}
    (h : tokenize source file = .error e ∨ ∃ s s', Parser.parse source s = .error e s')
    (hsize : byteLength source.toList < UInt32.size)
    (hlt : e.position.offset.toNat < byteLength source.toList) :
    ∃ before c behind, e.PointsAt source before c behind := by
  obtain ⟨label, hparts⟩ : ∃ label, e.position.Parts label source.toList := by
    rcases h with h | ⟨s, s', h⟩
    · exact ⟨_, parts_of_tokenize h⟩
    · exact ⟨_, (parts_of_parse h).2.2⟩
  obtain ⟨before, behind, happend, hoffset⟩ := (shown_of_parts hparts hsize).boundary
  -- At the end of the source there is no character to point at.
  cases behind with
  | nil =>
    rw [happend, List.append_nil, hoffset] at hlt
    exact absurd hlt (Nat.lt_irrefl _)
  | cons c behind => exact ⟨before, c, behind, pointsAt_of_append happend hoffset⟩

end

/-- An error behind blanks and a name. -/
theorem Error.arrow_under_character_indented :
    let e : Error := ⟨.unrecognised "#", .of "shell" 5⟩
    tokenize "\t let#" none = .error e ∧ byteLength "\t let#".toList < UInt32.size ∧
      e.position.offset.toNat < byteLength "\t let#".toList ∧
      ∃ before c behind, e.PointsAt "\t let#" before c behind := by
  have herror : tokenize "\t let#" none = .error ⟨.unrecognised "#", .of "shell" 5⟩ := by
    decide +kernel
  exact ⟨herror, by decide, by decide,
    Error.arrow_under_character (.inl herror) (by decide) (by decide)⟩

/-- A letter of two bytes in front of an error, and an arrow that is too long by one. -/
theorem Error.not_arrow_under_character :
    let e : Error := ⟨.unrecognised "#", .of "shell" 5⟩
    tokenize "\"é\" #" none = .error e ∧
      e.position.offset.toNat = byteLength "\"é\" ".toList ∧
      e.render? "\"é\" #" =
        some "Error: UnrecognisedToken\n-> shell\n  |\n1 | \"é\" #\n  | -----^\n" ∧
      e.drawn "\"é\" ".toList "#".toList (shownFront "\"é\" ".toList).length =
        "Error: UnrecognisedToken\n-> shell\n  |\n1 | \"é\" #\n  | ----^\n" ∧
      e.render? "\"é\" #" ≠
        some (e.drawn "\"é\" ".toList "#".toList (shownFront "\"é\" ".toList).length) := by
  decide +kernel

end Scriptlet
