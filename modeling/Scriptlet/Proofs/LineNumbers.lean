import Scriptlet.Proofs.LinePlaces

/-!
# Which line an offset belongs to

Every byte of a text belongs to the line that holds it, whether it is the first byte of a character
or not, and the offset behind the last byte belongs to the last line. The number of the line is one
more than the number of newlines in front, and these can be counted byte by byte: in UTF-8 the byte
of a newline is part of no other character.

At the end of a text the column is where the last line ends, its newline not counted. With the lines
above, it leads to the end of the text, or to the byte in front of the end if that is a newline.

## Main definitions

* `Text.bytes`: a text in UTF-8;
* `InclusiveLines`: lines with their newlines;
* `Line.Locates`: the line and the column of an offset.

## Main results

* `Text.bytes_toList`: the bytes of a string;
* `Text.count_bytes`: newlines are counted by their bytes;
* `inclusiveLines_lines`: the lines of a text;
* `exists_of_lineAmong?_eq_some`: where an offset leads among lines;
* `lineAt?_locates`: the line of an offset.
-/

namespace Scriptlet

open Text (byteLength)

/-! ### Bytes of a text -/

namespace Text

/-- The bytes with which a text is written in UTF-8. -/
def bytes (cs : List Char) : List UInt8 := cs.flatMap String.utf8EncodeChar

theorem bytes_toList (s : String) : bytes s.toList = s.toByteArray.data.toList := by
  rw [← String.ofList_toList (s := s), String.toByteArray_ofList, List.utf8Encode,
    List.data_toByteArray, String.toList_ofList]
  rfl

theorem bytes_cons (c : Char) (cs : List Char) :
    bytes (c :: cs) = String.utf8EncodeChar c ++ bytes cs := rfl

@[simp] theorem bytes_append (xs ys : List Char) : bytes (xs ++ ys) = bytes xs ++ bytes ys :=
  List.flatMap_append

@[simp] theorem length_bytes (cs : List Char) : (bytes cs).length = byteLength cs := by
  induction cs with
  | nil => rfl
  | cons c cs ih =>
    rw [bytes_cons, List.length_append, ih, String.length_utf8EncodeChar, byteLength_cons]

theorem eq_newline_iff (c : Char) : c = '\n' ↔ c.val.toNat = 10 := by
  rw [← Char.val_inj, ← UInt32.toNat_inj]
  rfl

theorem ofNat_eq_newline_iff (n : Nat) : UInt8.ofNat n = 10 ↔ n % 256 = 10 := by
  rw [← UInt8.toNat_inj, UInt8.toNat_ofNat']
  rfl

/-- The byte of a newline is part of no other character. -/
theorem count_utf8EncodeChar (c : Char) :
    (String.utf8EncodeChar c).count 10 = if c = '\n' then 1 else 0 := by
  simp only [eq_newline_iff, String.utf8EncodeChar]
  generalize c.val.toNat = v
  split
  case isTrue h =>
    have heq : v % 256 = 10 ↔ v = 10 := by omega
    simp [List.count_singleton, ofNat_eq_newline_iff, heq]
  case isFalse h =>
    -- Every byte of a longer character is at least 128.
    have hne : v ≠ 10 := by omega
    rw [if_neg hne, List.count_eq_zero]
    intro hmem
    split at hmem <;> [skip; split at hmem] <;>
      simp only [List.mem_cons, List.not_mem_nil, or_false, eq_comm (a := (10 : UInt8)),
        ofNat_eq_newline_iff] at hmem <;> omega

/-- Newlines are counted by their bytes. -/
theorem count_bytes (cs : List Char) : (bytes cs).count 10 = cs.count '\n' := by
  induction cs with
  | nil => rfl
  | cons c cs ih =>
    rw [bytes_cons, List.count_append, ih, count_utf8EncodeChar, List.count_cons, Nat.add_comm]
    simp only [beq_iff_eq]

end Text

open Text (bytes)

/-! ### Lines with their newlines -/

/-- Each of the lines ends with its only newline, except that the last one may have none, and then
it is not empty. -/
inductive InclusiveLines : List (List Char) → Prop
  | nil : InclusiveLines []
  | last {l : List Char} : '\n' ∉ l → l ≠ [] → InclusiveLines [l]
  | cons {front : List Char} {ls : List (List Char)} : '\n' ∉ front → InclusiveLines ls →
      InclusiveLines ((front ++ ['\n']) :: ls)

/-- Each line but the last one ends with its newline, and has no other one. -/
theorem inclusiveLines_lines (cs : List Char) : InclusiveLines (lines cs) := by
  induction cs with
  | nil => exact .nil
  | cons c cs ih =>
    rw [lines]
    split
    case isTrue hc => exact hc ▸ .cons List.not_mem_nil ih
    case isFalse hc =>
      have hne : '\n' ≠ c := Ne.symm hc
      generalize lines cs = ls at ih
      cases ih with
      | nil => exact .last (by simp [hne]) (by simp)
      | last hl _ => exact .last (by simp [hne, hl]) (by simp)
      | cons hfront hls => exact .cons (List.not_mem_cons_of_ne_of_not_mem hne hfront) hls

namespace InclusiveLines

variable {above below : List (List Char)} {l : List Char}

/-- A line is complete, or it is the last one. -/
theorem head_cases (h : InclusiveLines (l :: below)) :
    (∃ front, '\n' ∉ front ∧ l = front ++ ['\n']) ∨ (below = [] ∧ '\n' ∉ l ∧ l ≠ []) := by
  cases h with
  | last hl hne => exact .inr ⟨rfl, hl, hne⟩
  | @cons front _ hfront => exact .inl ⟨front, hfront, rfl⟩

theorem tail (h : InclusiveLines (l :: below)) : InclusiveLines below := by
  cases h with
  | last => exact .nil
  | cons _ hbelow => exact hbelow

theorem of_append (h : InclusiveLines (above ++ below)) : InclusiveLines below := by
  induction above with
  | nil => exact h
  | cons k above ih => exact ih h.tail

/-- Each line that has one behind it has a newline. -/
theorem count_flatten_above (h : InclusiveLines (above ++ l :: below)) :
    above.flatten.count '\n' = above.length := by
  induction above with
  | nil => rfl
  | cons k above ih =>
    rcases h.head_cases with ⟨front, hfront, rfl⟩ | ⟨hnil, -⟩
    · rw [List.flatten_cons, List.count_append, ih h.tail, List.count_append,
        List.count_eq_zero.2 hfront, List.length_cons, List.count_singleton_self]
      omega
    · simp at hnil

end InclusiveLines

/-- In front of any byte of a line there is no newline of that line. -/
theorem count_take_bytes_line {l : List Char} {column : Nat}
    (hl : (∃ front, '\n' ∉ front ∧ l = front ++ ['\n']) ∨ '\n' ∉ l)
    (hcolumn : column < byteLength l) : ((bytes l).take column).count 10 = 0 := by
  have hfree {cs : List Char} (hcs : '\n' ∉ cs) : ((bytes cs).take column).count 10 = 0 := by
    have hle := (List.take_sublist column (bytes cs)).count_le 10
    rw [Text.count_bytes, List.count_eq_zero.2 hcs] at hle
    exact Nat.le_zero.1 hle
  rcases hl with ⟨front, hfront, rfl⟩ | hl
  · -- The newline is the last byte, and the column stops in front of it.
    rw [Text.byteLength_append] at hcolumn
    have hle : column ≤ (bytes front).length := by
      rw [Text.length_bytes]
      exact Nat.le_of_lt_succ hcolumn
    rw [Text.bytes_append, List.take_append_of_le_length hle, hfree hfront]
  · exact hfree hl

theorem dropNewlines_of_notMem {l : List Char} (h : '\n' ∉ l) : dropNewlines l = l := by
  refine List.rdropWhile_eq_self_iff.2 fun hne => ?_
  have hlast : l.getLast hne ≠ '\n' := fun heq => h (heq ▸ List.getLast_mem hne)
  simpa using hlast

theorem dropNewlines_concat {front : List Char} (h : '\n' ∉ front) :
    dropNewlines (front ++ ['\n']) = front := by
  have hdrop := List.rdropWhile_concat_pos (· = '\n') front '\n' (by simp)
  exact hdrop.trans (dropNewlines_of_notMem h)

namespace InclusiveLines

variable {above below : List (List Char)} {l : List Char}

/-- The newlines in front of a byte of a line are those of the lines above. -/
theorem count_take_bytes (h : InclusiveLines (above ++ l :: below)) {column : Nat}
    (hcolumn : column < byteLength l) :
    ((bytes (above ++ l :: below).flatten).take (byteLength above.flatten + column)).count 10 =
      above.length := by
  have hle : column ≤ (bytes l).length := by
    rw [Text.length_bytes]
    exact Nat.le_of_lt hcolumn
  have hl := h.of_append.head_cases.imp_right fun hlast => hlast.2.1
  rw [List.flatten_append, List.flatten_cons, Text.bytes_append, Text.bytes_append,
    ← Text.length_bytes above.flatten, List.take_length_add_append,
    List.take_append_of_le_length hle, List.count_append, Text.count_bytes, h.count_flatten_above,
    count_take_bytes_line hl hcolumn, Nat.add_zero]

/-- The end of the last line is the end of the text, if that is no newline. -/
theorem end_of_last (h : InclusiveLines (above ++ [l])) :
    byteLength above.flatten + byteLength (dropNewlines l) =
      if (above ++ [l]).flatten.getLast? = some '\n' then byteLength (above ++ [l]).flatten - 1
      else byteLength (above ++ [l]).flatten := by
  rw [List.flatten_append, List.flatten_singleton, Text.byteLength_append]
  rcases h.of_append.head_cases with ⟨front, hfront, rfl⟩ | ⟨-, hl, hne⟩
  · have hlast : (above.flatten ++ (front ++ ['\n'])).getLast? = some '\n' := by
      rw [← List.append_assoc, List.getLast?_concat]
    rw [if_pos hlast, dropNewlines_concat hfront, Text.byteLength_append]
    rfl
  · have hlast : (above.flatten ++ l).getLast? ≠ some '\n' := by
      rw [List.getLast?_append_of_ne_nil _ hne]
      exact fun heq => hl (List.mem_of_getLast? heq)
    rw [if_neg hlast, dropNewlines_of_notMem hl]

end InclusiveLines

/-! ### Places among lines -/

/-- Among lines an offset leads into one of them, or to the end of the last one. -/
theorem exists_of_lineAmong?_eq_some {number offset : Nat} {ls : List (List Char)} {l : Line}
    (h : lineAmong? number offset ls = some l) (hne : ls ≠ []) :
    ∃ above below, ls = above ++ l.text :: below ∧ l.number = number + above.length ∧
      ((offset = byteLength above.flatten + l.column ∧ l.column < byteLength l.text) ∨
        (below = [] ∧ offset = byteLength ls.flatten ∧
          l.column = byteLength (dropNewlines l.text))) := by
  -- By the search: it ends in this line, or goes on among those below with the rest of the offset.
  fun_induction lineAmong? number offset ls with
  | case1 | case2 => exact absurd rfl hne
  | case3 number offset text hlt =>
    cases h
    exact ⟨[], [], rfl, rfl, .inl ⟨by simp, hlt⟩⟩
  | case4 number text =>
    cases h
    exact ⟨[], [], rfl, rfl, .inr ⟨rfl, by simp, rfl⟩⟩
  | case5 => cases h
  | case6 number offset text ls _ hlt =>
    cases h
    exact ⟨[], ls, rfl, rfl, .inl ⟨by simp, hlt⟩⟩
  | case7 number offset text ls hls hlt ih =>
    obtain ⟨above, below, rfl, hnumber, hplace⟩ := ih h (by simpa using hls)
    refine ⟨text :: above, below, rfl, by rw [hnumber, List.length_cons]; omega, ?_⟩
    rw [List.flatten_cons, List.flatten_cons, Text.byteLength_append, Text.byteLength_append]
    rcases hplace with ⟨hoffset, hcolumn⟩ | ⟨hbelow, hoffset, hcolumn⟩
    · exact .inl ⟨by omega, hcolumn⟩
    · exact .inr ⟨hbelow, by omega, hcolumn⟩

/-! ### The line of an offset -/

/-- The number of bytes of a text in front of a line of it. -/
def Line.start (l : Line) (content : List Char) : Nat :=
  byteLength ((lines content).take (l.number - 1)).flatten

/-- The line and the column that belong to an offset of a text. -/
structure Line.Locates (l : Line) (content : List Char) (offset : Nat) : Prop where
  /-- It is the line with its number, or the empty first line of an empty text. -/
  line : (0 < l.number ∧ (lines content)[l.number - 1]? = some l.text) ∨
    (content = [] ∧ l.number = 1 ∧ l.text = [])
  /-- In front of the end the column leads from the start of the line to the offset, which is in the
  line, and the number counts the newlines among the bytes in front of the offset. -/
  inside : offset < byteLength content → l.start content + l.column = offset ∧
    l.column < byteLength l.text ∧ l.number - 1 = ((bytes content).take offset).count 10
  /-- At the end the line is the last one, and the column leads to the end of the text or, if that
  is a newline, to its last byte. -/
  atEnd : offset = byteLength content → l.number = max 1 (lines content).length ∧
    l.start content + l.column =
      if content.getLast? = some '\n' then byteLength content - 1 else byteLength content

/-- A line is found at every offset up to the end of a text and at no other, and it is the line to
which the offset belongs. -/
theorem lineAt?_locates (content : List Char) (offset : Nat) :
    ((lines content).flatten = content ∧ InclusiveLines (lines content)) ∧
    (lineAt? content offset = none ↔ byteLength content < offset) ∧
    ∀ l, lineAt? content offset = some l → l.Locates content offset := by
  have hflatten := flatten_lines content
  have hlines := inclusiveLines_lines content
  refine ⟨⟨hflatten, hlines⟩, lineAt?_eq_none_iff content offset, fun l hl => ?_⟩
  rw [lineAt?] at hl
  -- An empty text has no lines, but one place.
  by_cases hempty : content = []
  · subst hempty
    obtain ⟨rfl, rfl⟩ : offset = 0 ∧ l = ⟨1, [], 0⟩ := by
      rw [lines, lineAmong?] at hl
      split at hl <;> cases hl
      exact ⟨‹_›, rfl⟩
    exact ⟨.inr ⟨rfl, rfl, rfl⟩, fun hlt => absurd hlt (Nat.not_lt_zero 0), fun _ => ⟨rfl, rfl⟩⟩
  obtain ⟨above, below, hsplit, hnumber, hplace⟩ :=
    exists_of_lineAmong?_eq_some hl (lines_ne_nil hempty)
  have habove : l.number - 1 = above.length := by rw [hnumber, Nat.add_sub_cancel_left]
  have hstart : l.start content = byteLength above.flatten := by
    rw [Line.start, habove, hsplit, List.take_left]
  rw [hsplit] at hlines hflatten
  refine ⟨.inl ⟨by omega, ?_⟩, fun hlt => ?_, fun heq => ?_⟩
  · simp [habove, hsplit]
  · rcases hplace with ⟨hoffset, hcolumn⟩ | ⟨-, hoffset, -⟩
    · refine ⟨by rw [hstart, hoffset], hcolumn, ?_⟩
      rw [habove, hoffset, ← hflatten, hlines.count_take_bytes hcolumn]
    · rw [hsplit, hflatten] at hoffset
      exact absurd hoffset (Nat.ne_of_lt hlt)
  · rcases hplace with ⟨hoffset, hcolumn⟩ | ⟨rfl, -, hcolumn⟩
    · exfalso
      rw [← hflatten, List.flatten_append, List.flatten_cons, Text.byteLength_append,
        Text.byteLength_append] at heq
      omega
    · refine ⟨?_, ?_⟩
      · rw [hnumber, hsplit, List.length_append, List.length_singleton]
        omega
      · rw [hstart, hcolumn, hlines.end_of_last, hflatten]

end Scriptlet
