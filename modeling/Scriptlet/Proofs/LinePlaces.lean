import Mathlib.Data.List.DropRight
import Scriptlet.Line

/-!
# The line around a place

A text is cut in two at a place in front of one of its characters. The line there is what stands
between the newlines around it: the part behind the last newline before the place, and the part up
to the first newline behind it. Here it is shown that the line found by its offset among the lines
of the text is that one, with the number of newlines before the place telling its number.

## Main definitions

* `Text.lineFront`, `Text.lineBack`: the two parts of the line around a place.

## Main results

* `lines_append_newline`: the lines of a text behind a newline;
* `exists_lines_eq`: the first line of a text;
* `lineAmong?_append`: lines in front are passed over;
* `lineAt?_eq_none_iff`: where there is a line;
* `lineAt?_append`: the line around a place.
-/

namespace Scriptlet

open Text (byteLength)

/-- The part of the line in front of a place, in the text before the place. -/
def Text.lineFront (before : List Char) : List Char :=
  before.rtakeWhile (· ≠ '\n')

/-- The part of the line behind a place, without the newline, in the text behind the place. -/
def Text.lineBack (behind : List Char) : List Char :=
  behind.takeWhile (· ≠ '\n')

open Text (lineFront lineBack)

/-! ### Lines of a text in two parts -/

theorem lines_ne_nil {cs : List Char} (h : cs ≠ []) : lines cs ≠ [] := by
  intro hlines
  rw [← flatten_lines cs, hlines] at h
  exact h rfl

theorem lines_append_newline (above below : List Char) :
    lines (above ++ '\n' :: below) = lines (above ++ ['\n']) ++ lines below := by
  induction above with
  | nil => simp [lines]
  | cons c above ih =>
    have hne : lines (above ++ ['\n']) ≠ [] := lines_ne_nil (by simp)
    obtain ⟨l, ls, hlines⟩ := List.exists_cons_of_ne_nil hne
    simp only [List.cons_append, lines, ih, hlines]
    split <;> rfl

theorem length_lines_concat_newline (above : List Char) :
    (lines (above ++ ['\n'])).length = above.count '\n' + 1 := by
  induction above with
  | nil => rfl
  | cons c above ih =>
    have hne : lines (above ++ ['\n']) ≠ [] := lines_ne_nil (by simp)
    obtain ⟨l, ls, hlines⟩ := List.exists_cons_of_ne_nil hne
    rw [hlines] at ih
    simp only [List.cons_append, lines, hlines]
    split
    case isTrue h => simp [h, ih]
    case isFalse h => simpa [h] using ih

/-- The first line of a text is what stands up to the first newline, with the newline if there is
one. -/
theorem exists_lines_eq {front : List Char} (h : '\n' ∉ front) (c : Char) (behind : List Char) :
    ∃ back below, lines (front ++ c :: behind) = (front ++ back) :: below ∧ back ≠ [] ∧
      (back = lineBack (c :: behind) ∨ back = lineBack (c :: behind) ++ ['\n']) := by
  -- Once the place is at the front of the line, the induction is on what stands behind it.
  induction front with
  | nil =>
    induction behind generalizing c with
    | nil =>
      by_cases hc : c = '\n'
      · exact ⟨['\n'], [], by simp [lines, hc], by simp, by simp [lineBack, hc]⟩
      · exact ⟨[c], [], by simp [lines, hc], by simp, by simp [lineBack, hc]⟩
    | cons d behind ih =>
      obtain ⟨back, below, hlines, hne, hback⟩ := ih d
      by_cases hc : c = '\n'
      · exact ⟨['\n'], _, by rw [List.nil_append, lines, if_pos hc, hc]; rfl, by simp,
          by simp [lineBack, hc]⟩
      · refine ⟨c :: back, below, ?_, by simp, ?_⟩
        · rw [List.nil_append] at hlines ⊢
          rw [lines, if_neg hc, hlines]
          rfl
        · have hcons : lineBack (c :: d :: behind) = c :: lineBack (d :: behind) := by
            simp [lineBack, hc]
          rw [hcons, List.cons_append]
          exact hback.imp (congrArg _) (congrArg _)
  | cons d front ih =>
    have hd : d ≠ '\n' := fun hd => h (hd ▸ List.mem_cons_self)
    obtain ⟨back, below, hlines, hback⟩ := ih fun hmem => h (List.mem_cons_of_mem d hmem)
    refine ⟨back, below, ?_, hback⟩
    rw [List.cons_append, lines, if_neg hd, hlines]
    rfl

/-! ### Places among lines -/

theorem lineAmong?_of_lt (number : Nat) {offset : Nat} {l : List Char} (h : offset < byteLength l)
    (below : List (List Char)) :
    lineAmong? number offset (l :: below) = some ⟨number, l, offset⟩ := by
  cases below <;> simp [lineAmong?, h]

/-- Lines in front of an offset are passed over. -/
theorem lineAmong?_append (number offset : Nat) (above : List (List Char))
    {below : List (List Char)} (hne : below ≠ []) :
    lineAmong? number (byteLength above.flatten + offset) (above ++ below) =
      lineAmong? (number + above.length) offset below := by
  induction above generalizing number with
  | nil => simp
  | cons l above ih =>
    have hoffset : byteLength (l :: above).flatten + offset =
        byteLength l + (byteLength above.flatten + offset) := by
      rw [List.flatten_cons, Text.byteLength_append, Nat.add_assoc]
    have happend : above ++ below ≠ [] := by simp [hne]
    rw [hoffset, List.cons_append, lineAmong?.eq_3 _ _ _ _ happend,
      if_neg (Nat.not_lt.2 (Nat.le_add_right _ _)), Nat.add_sub_cancel_left, ih,
      List.length_cons, Nat.add_assoc, Nat.add_comm 1]

/-- Among lines there is none at an offset only if the offset is past the end of them all. -/
theorem lineAmong?_eq_none_iff (number offset : Nat) (ls : List (List Char)) :
    lineAmong? number offset ls = none ↔ byteLength ls.flatten < offset := by
  fun_induction lineAmong? number offset ls with
  | case1 => simp
  | case2 number offset hne => simpa using Nat.pos_of_ne_zero hne
  | case3 number offset l hlt => simpa using Nat.le_of_lt hlt
  | case4 number l => simp
  | case5 number offset l hlt hne =>
    simpa using Nat.lt_of_le_of_ne (Nat.le_of_not_lt hlt) (Ne.symm hne)
  | case6 number offset l ls _ hlt =>
    rw [List.flatten_cons, Text.byteLength_append]
    simp only [reduceCtorEq, false_iff]
    omega
  | case7 number offset l ls _ hlt ih =>
    rw [ih, List.flatten_cons, Text.byteLength_append]
    omega

/-- There is a line at every offset up to the end of a text, and at no other. -/
theorem lineAt?_eq_none_iff (text : List Char) (offset : Nat) :
    lineAt? text offset = none ↔ byteLength text < offset := by
  rw [lineAt?, lineAmong?_eq_none_iff, flatten_lines]

/-! ### The line around a place -/

theorem notMem_lineFront (before : List Char) : '\n' ∉ lineFront before := by
  intro hmem
  simpa using List.mem_rtakeWhile_imp hmem

/-- Before the line there is nothing, or a text that ends with a newline. -/
theorem eq_lineFront_or_exists (before : List Char) :
    before = lineFront before ∨ ∃ above, before = above ++ '\n' :: lineFront before := by
  have happend : before.rdropWhile (· ≠ '\n') ++ lineFront before = before :=
    List.rdropWhile_append_rtakeWhile
  rcases List.eq_nil_or_concat (before.rdropWhile (· ≠ '\n')) with hnil | ⟨above, c, hconcat⟩
  · rw [hnil, List.nil_append] at happend
    exact .inl happend.symm
  · have hne : before.rdropWhile (· ≠ '\n') ≠ [] := by
      rw [hconcat, List.concat_eq_append]
      exact List.concat_ne_nil c above
    -- Going back from the place, the first character that is not in the line is a newline.
    have hc : c = '\n' := by
      simpa only [hconcat, List.concat_eq_append, List.getLast_append_singleton, decide_eq_true_eq,
        not_not] using List.rdropWhile_last_not (· ≠ '\n') before hne
    refine .inr ⟨above, ?_⟩
    rw [hconcat, hc, List.concat_append] at happend
    exact happend.symm

/-- A place in front of a character is in the line around it. The number of the line counts the
newlines before the place, and the column counts the bytes from the start of the line. -/
theorem lineAt?_append (before : List Char) (c : Char) (behind : List Char) :
    ∃ back, (back = lineBack (c :: behind) ∨ back = lineBack (c :: behind) ++ ['\n']) ∧
      lineAt? (before ++ c :: behind) (byteLength before) =
        some ⟨before.count '\n' + 1, lineFront before ++ back, byteLength (lineFront before)⟩ := by
  have hfront := notMem_lineFront before
  obtain ⟨back, below, hlines, hne, hback⟩ := exists_lines_eq hfront c behind
  have hlt : byteLength (lineFront before) < byteLength (lineFront before ++ back) := by
    rw [Text.byteLength_append]
    exact Nat.lt_add_of_pos_right (Text.byteLength_pos hne)
  refine ⟨back, hback, ?_⟩
  rcases eq_lineFront_or_exists before with heq | ⟨above, heq⟩
  · have hcount : before.count '\n' = 0 := List.count_eq_zero.2 (heq ▸ hfront)
    calc lineAt? (before ++ c :: behind) (byteLength before)
      _ = lineAmong? 1 (byteLength (lineFront before)) ((lineFront before ++ back) :: below) := by
        rw [lineAt?, ← hlines, ← heq]
      _ = _ := by rw [lineAmong?_of_lt 1 hlt, hcount]
  · have hcount : before.count '\n' = above.count '\n' + 1 := by
      conv_lhs => rw [heq, List.count_append, List.count_cons_self, List.count_eq_zero.2 hfront]
    have hsplit : before ++ c :: behind = above ++ '\n' :: (lineFront before ++ c :: behind) := by
      conv_lhs => rw [heq, List.append_assoc, List.cons_append]
    have hoffset : byteLength before =
        byteLength (lines (above ++ ['\n'])).flatten + byteLength (lineFront before) := by
      conv_lhs => rw [heq]
      rw [flatten_lines, ← Text.byteLength_append, List.append_assoc, List.singleton_append]
    rw [lineAt?, hsplit, hoffset, lines_append_newline above (_ ++ _), hlines,
      lineAmong?_append 1 _ _ (List.cons_ne_nil _ _), lineAmong?_of_lt _ hlt,
      length_lines_concat_newline, hcount, Nat.add_comm 1]

end Scriptlet
