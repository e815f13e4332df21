import Scriptlet.Proofs.JsonText
import Scriptlet.Token.Pattern

/-!
# White space in JSON

The pretty form of a document has more white space than the compact one and nothing else. White
space inside strings has to be left alone, so taking it away means following the quotes, and the
backslashes that keep a quote from ending a string.

## Main definitions

* `squeeze`: a text without the white space outside its strings.

## Main results

* `Json.squeeze_writePretty`, `Json.squeeze_pretty`: the two forms differ in white space only.
-/

namespace Scriptlet

mutual

/-- A JSON text without the white space outside its strings. -/
def squeeze : List Char → List Char
  | [] => []
  | c :: cs =>
    if c = '"' then c :: squeezeString cs else if isLayout c then squeeze cs else c :: squeeze cs

/-- The same from inside a string on, where everything is kept. -/
def squeezeString : List Char → List Char
  | [] => []
  | '\\' :: c :: cs => '\\' :: c :: squeezeString cs
  | c :: cs => if c = '"' then c :: squeeze cs else c :: squeezeString cs

end

/-! ### Strings -/

theorem squeezeString_cons {c : Char} (hquote : c ≠ '"') (hback : c ≠ '\\') (cs : List Char) :
    squeezeString (c :: cs) = c :: squeezeString cs := by
  rw [squeezeString.eq_3 _ _ fun _ _ h => absurd h hback, if_neg hquote]

/-- Text without a quote and without a backslash is kept whole. -/
theorem squeezeString_append {text : List Char} (hquote : '"' ∉ text) (hback : '\\' ∉ text)
    (rest : List Char) : squeezeString (text ++ rest) = text ++ squeezeString rest := by
  induction text with
  | nil => rfl
  | cons c text ih =>
    rw [List.mem_cons, not_or] at hquote hback
    rw [List.cons_append, squeezeString_cons (Ne.symm hquote.1) (Ne.symm hback.1),
      ih hquote.2 hback.2, List.cons_append]

/-- What is written for a character does not end the string. -/
theorem squeezeString_quoteJsonChar (c : Char) (rest : List Char) :
    squeezeString (Text.quoteJsonChar c ++ rest) = Text.quoteJsonChar c ++ squeezeString rest := by
  -- The letter of an escape may be a quote or a backslash, but it goes with the backslash in front
  -- of it. The digits that may follow are neither.
  rcases Text.quoteJsonChar_cases c with hc | ⟨hc, hquote, hback⟩
  · obtain ⟨letter, digits, hchar, hquote, hback⟩ := Text.exists_quoteJsonChar_of_mem hc
    rw [hchar, List.cons_append, List.cons_append, squeezeString,
      squeezeString_append hquote hback]
    rfl
  · rw [hc, List.singleton_append, squeezeString_cons hquote hback, List.singleton_append]

/-- The inside of a string is kept whole. -/
theorem squeezeString_flatMap (v rest : List Char) :
    squeezeString (v.flatMap Text.quoteJsonChar ++ rest) =
      v.flatMap Text.quoteJsonChar ++ squeezeString rest := by
  induction v with
  | nil => rfl
  | cons c v ih =>
    rw [List.flatMap_cons, List.append_assoc, squeezeString_quoteJsonChar, ih, List.append_assoc]

/-- A string is left alone. -/
theorem squeeze_quoteJson (s : String) (rest : List Char) :
    squeeze ((Text.quoteJson s).toList ++ rest) = (Text.quoteJson s).toList ++ squeeze rest := by
  have hclose : squeezeString ('"' :: rest) = '"' :: squeeze rest := by simp [squeezeString]
  rw [Text.toList_quoteJson, Text.toList_quoteJson, squeeze, if_pos rfl, squeezeString_flatMap,
    hclose]

/-! ### Outside of strings -/

theorem squeeze_cons {c : Char} (hquote : c ≠ '"') (hlayout : isLayout c = false)
    (cs : List Char) : squeeze (c :: cs) = c :: squeeze cs := by
  rw [squeeze, if_neg hquote, if_neg (by simp [hlayout])]

/-- White space outside of strings goes. -/
theorem squeeze_of_isLayout {text : List Char} (h : ∀ c ∈ text, isLayout c = true)
    (rest : List Char) : squeeze (text ++ rest) = squeeze rest := by
  have hquote : ∀ c, isLayout c = true → c ≠ '"' := by
    rintro c hc rfl
    cases hc
  induction text with
  | nil => rfl
  | cons c text ih =>
    rw [List.forall_mem_cons] at h
    rw [List.cons_append, squeeze, if_neg (hquote c h.1), if_pos h.1, ih h.2]

/-- A line break with its indentation goes. -/
theorem squeeze_newLine (level : Nat) (rest : List Char) :
    squeeze (Json.newLine level rest) = squeeze rest := by
  rw [Json.newLine]
  refine squeeze_of_isLayout (fun c hc => ?_) rest
  rcases List.mem_cons.1 hc with rfl | hc
  · rfl
  · rw [(List.mem_replicate.1 hc).2]
    rfl

theorem squeeze_blank (rest : List Char) : squeeze (' ' :: rest) = squeeze rest := by
  rw [squeeze, if_neg (by decide), if_pos (by decide)]

/-- Separators that are neither quotes nor white space. -/
theorem squeeze_mark {c : Char} (hc : c ∈ ['[', ']', '\x7b', '\x7d', ',', ':'])
    (rest : List Char) : squeeze (c :: rest) = c :: squeeze rest := by
  have hall : ∀ c ∈ ['[', ']', '\x7b', '\x7d', ',', ':'], c ≠ '"' ∧ isLayout c = false :=
    List.all_iff_forall_prop.1 (by decide)
  exact squeeze_cons (hall c hc).1 (hall c hc).2 rest

/-- Text without quotes, separators and white space is kept whole. -/
theorem squeeze_of_not_mem_separators {text : List Char} (h : ∀ c ∈ text, c ∉ Json.separators)
    (rest : List Char) : squeeze (text ++ rest) = text ++ squeeze rest := by
  have hother : ∀ c, c ∉ Json.separators → c ≠ '"' ∧ isLayout c = false := by
    intro c hc
    simp only [Json.separators, List.mem_cons, List.not_mem_nil, or_false, not_or] at hc
    simp [isLayout, isBlank, hc]
  induction text with
  | nil => rfl
  | cons c text ih =>
    rw [List.forall_mem_cons] at h
    obtain ⟨hquote, hlayout⟩ := hother c h.1
    rw [List.cons_append, squeeze_cons hquote hlayout, ih h.2, List.cons_append]

/-! ### Documents -/

namespace Json

/-- What needs no quotes is the same text in both forms. -/
theorem writePretty_of_bareText? {j : Json} {s : String} (h : j.bareText? = some s) (level : Nat)
    (rest : List Char) : j.writePretty level rest = s.toList ++ rest := by
  cases j <;> cases h <;> rw [writePretty, writeText]

mutual

/-- Without white space a document in pretty form is the document in compact form. -/
theorem squeeze_writePretty (j : Json) (level : Nat) (rest : List Char) :
    squeeze (j.writePretty level rest) = j.write (squeeze rest) := by
  -- The three kinds of documents that are written without quotes go alike.
  have hbare : ∀ {s}, j.bareText? = some s →
      squeeze (j.writePretty level rest) = j.write (squeeze rest) := by
    intro s hs
    rw [writePretty_of_bareText? hs, write_of_bareText? hs,
      squeeze_of_not_mem_separators (bareText?_chars hs).2]
  match j with
  | null | natural _ | number _ => exact hbare rfl
  | text s => rw [writePretty, write, writeText, writeText, squeeze_quoteJson]
  | array [] =>
    rw [writePretty, write, writeItems, squeeze_mark (by decide), squeeze_mark (by decide)]
  | array (j :: js) =>
    rw [writePretty, write, writeItems_cons, squeeze_mark (by decide), squeeze_newLine,
      squeeze_writePretty j, squeeze_prettyItems js, squeeze_newLine, squeeze_mark (by decide)]
  | object [] =>
    rw [writePretty, write, writeMembers, squeeze_mark (by decide), squeeze_mark (by decide)]
  | object ((key, j) :: members) =>
    rw [writePretty, write, writeMembers_cons, writeText, writeText, squeeze_mark (by decide),
      squeeze_newLine, squeeze_quoteJson, squeeze_mark (by decide), squeeze_blank,
      squeeze_writePretty j, squeeze_prettyMembers members, squeeze_newLine,
      squeeze_mark (by decide)]

theorem squeeze_prettyItems (js : List Json) (level : Nat) (rest : List Char) :
    squeeze (prettyItems js level rest) = writeMoreItems js (squeeze rest) := by
  match js with
  | [] => rw [prettyItems, writeMoreItems]
  | j :: js =>
    rw [prettyItems, writeMoreItems, writeItems_cons, squeeze_mark (by decide), squeeze_newLine,
      squeeze_writePretty j, squeeze_prettyItems js]

theorem squeeze_prettyMembers (members : List (String × Json)) (level : Nat) (rest : List Char) :
    squeeze (prettyMembers members level rest) = writeMoreMembers members (squeeze rest) := by
  match members with
  | [] => rw [prettyMembers, writeMoreMembers]
  | (key, j) :: members =>
    rw [prettyMembers, writeMoreMembers, writeMembers_cons, writeText, writeText,
      squeeze_mark (by decide), squeeze_newLine, squeeze_quoteJson, squeeze_mark (by decide),
      squeeze_blank, squeeze_writePretty j, squeeze_prettyMembers members]

end

/-- The pretty form is the compact form with white space between the parts. -/
theorem squeeze_pretty (j : Json) : squeeze j.pretty.toList = j.compact.toList := by
  rw [pretty, compact, String.toList_ofList, String.toList_ofList, squeeze_writePretty]
  rfl

end Json

end Scriptlet
