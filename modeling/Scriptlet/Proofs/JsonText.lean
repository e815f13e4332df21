import Mathlib.Data.Bool.AllAny
import Scriptlet.Json

/-!
# Reading JSON back

The compact text of a document determines the document, but for its binary numbers. So the writer
needs no reader to be right: two documents with the same text are the same.

Three facts make this true. A string ends at the first quote that is not escaped, and the ways in
which its characters are written are no prefixes of each other. What is written without quotes, a
number or `null`, has none of the characters that separate the parts of a document, and behind a
document there is always one of them. And the first character tells strings, arrays, objects and the
rest apart. Of the binary numbers nothing is claimed, since infinity is written like `null`; but a
number is never written like a natural number.

## Main definitions

* `Json.blur`: a document without the values of its binary numbers;
* `Json.bareText?`: the text of a document that has no parts and is no string.

## Main results

* `Text.quoteJson_append_inj`: strings are read back;
* `Json.write_inj`, `Json.blur_eq_of_compact_eq`: documents are read back.
-/

namespace Scriptlet

/-! ### Strings -/

namespace Text

/-- The characters that a JSON string cannot have as they are. -/
def jsonEscaped : List Char := (List.range 0x20).map Char.ofNat ++ ['"', '\\']

/-- Every other character is written as it is. -/
theorem quoteJsonChar_cases (c : Char) :
    c ∈ jsonEscaped ∨ (quoteJsonChar c = [c] ∧ c ≠ '"' ∧ c ≠ '\\') := by
  by_cases hc : c.toNat < 0x20
  · rw [jsonEscaped, List.mem_append, List.mem_map]
    exact .inl (.inl ⟨c.toNat, List.mem_range.2 hc, Char.ofNat_toNat c⟩)
  by_cases hquote : c = '"'
  · exact .inl (by rw [hquote]; decide)
  by_cases hback : c = '\\'
  · exact .inl (by rw [hback]; decide)
  right
  refine ⟨?_, hquote, hback⟩
  -- The letters behind a backslash stand for controls, for the quote and for the backslash.
  rw [quoteJsonChar.eq_def]
  split
  · exact absurd rfl hquote
  · exact absurd rfl hback
  iterate 5 exact absurd (by decide) hc
  rw [if_neg (by omega), if_neg hc]

/-- An escaped character is written with a backslash, a letter and perhaps digits. -/
theorem exists_quoteJsonChar_of_mem {c : Char} (h : c ∈ jsonEscaped) :
    ∃ letter digits, quoteJsonChar c = '\\' :: letter :: digits ∧ '"' ∉ digits ∧ '\\' ∉ digits := by
  have hall : ∀ c ∈ jsonEscaped, (quoteJsonChar c).head? = some '\\' ∧
      (quoteJsonChar c).tail ≠ [] ∧ '"' ∉ (quoteJsonChar c).drop 2 ∧
      '\\' ∉ (quoteJsonChar c).drop 2 :=
    List.all_iff_forall_prop.1 (by decide)
  obtain ⟨hhead, htail, hdigits⟩ := hall c h
  obtain ⟨more, hmore⟩ := List.head?_eq_some_iff.1 hhead
  rw [hmore] at htail hdigits ⊢
  obtain ⟨letter, digits, rfl⟩ := List.exists_cons_of_ne_nil htail
  exact ⟨letter, digits, rfl, hdigits⟩

/-- What is written for one character is no prefix of what is written for another one. -/
theorem quoteJsonChar_append_inj {c d : Char} {r r' : List Char}
    (h : quoteJsonChar c ++ r = quoteJsonChar d ++ r') : c = d ∧ r = r' := by
  -- The escapes are finite in number, and none is a prefix of another one.
  have hall : ∀ c ∈ jsonEscaped, (jsonEscaped.all fun d =>
      decide (quoteJsonChar c <+: quoteJsonChar d → c = d)) = true :=
    List.all_iff_forall_prop.1 (by decide +kernel)
  have hfinite : ∀ c ∈ jsonEscaped, ∀ d ∈ jsonEscaped,
      quoteJsonChar c <+: quoteJsonChar d → c = d :=
    fun c hc => List.all_iff_forall_prop.1 (hall c hc)
  rcases quoteJsonChar_cases c with hc | ⟨hc, -, hback⟩ <;>
    rcases quoteJsonChar_cases d with hd | ⟨hd, -, hback'⟩
  · obtain rfl : c = d := by
      have hprefix : quoteJsonChar c <+: quoteJsonChar d ++ r' := ⟨r, h⟩
      rcases List.prefix_or_prefix_of_prefix hprefix (List.prefix_append _ _) with h | h
      · exact hfinite c hc d hd h
      · exact (hfinite d hd c hc h).symm
    exact ⟨rfl, List.append_cancel_left h⟩
  · obtain ⟨letter, digits, hchar, -⟩ := exists_quoteJsonChar_of_mem hc
    rw [hchar, hd] at h
    exact absurd (List.cons.inj h).1.symm hback'
  · obtain ⟨letter, digits, hchar, -⟩ := exists_quoteJsonChar_of_mem hd
    rw [hchar, hc] at h
    exact absurd (List.cons.inj h).1 hback
  · rw [hc, hd] at h
    exact List.cons.inj h

/-- What is written for a character does not start with a quote. -/
theorem quoteJsonChar_append_ne (c : Char) (r r' : List Char) :
    quoteJsonChar c ++ r ≠ '"' :: r' := by
  intro h
  rcases quoteJsonChar_cases c with hc | ⟨hc, hquote, -⟩
  · obtain ⟨letter, digits, hchar, -⟩ := exists_quoteJsonChar_of_mem hc
    rw [hchar] at h
    cases h
  · rw [hc] at h
    exact hquote (List.cons.inj h).1

/-- The body of a string is told from what stands behind its closing quote. -/
theorem flatMap_quoteJsonChar_append_inj {v v' r r' : List Char}
    (h : v.flatMap quoteJsonChar ++ '"' :: r = v'.flatMap quoteJsonChar ++ '"' :: r') :
    v = v' ∧ r = r' := by
  induction v generalizing v' with
  | nil =>
    cases v' with
    | nil => exact ⟨rfl, (List.cons.inj h).2⟩
    | cons d v' =>
      rw [List.flatMap_cons, List.append_assoc] at h
      exact absurd h.symm (quoteJsonChar_append_ne _ _ _)
  | cons c v ih =>
    cases v' with
    | nil =>
      rw [List.flatMap_cons, List.append_assoc] at h
      exact absurd h (quoteJsonChar_append_ne _ _ _)
    | cons d v' =>
      rw [List.flatMap_cons, List.flatMap_cons, List.append_assoc, List.append_assoc] at h
      obtain ⟨rfl, htail⟩ := quoteJsonChar_append_inj h
      obtain ⟨rfl, rfl⟩ := ih htail
      exact ⟨rfl, rfl⟩

theorem toList_quoteJson (s : String) (r : List Char) :
    (quoteJson s).toList ++ r = '"' :: (s.toList.flatMap quoteJsonChar ++ '"' :: r) := by
  simp [quoteJson]

/-- A string can be read back from the front of a text. -/
theorem quoteJson_append_inj {s t : String} {r r' : List Char}
    (h : (quoteJson s).toList ++ r = (quoteJson t).toList ++ r') : s = t ∧ r = r' := by
  rw [toList_quoteJson, toList_quoteJson] at h
  obtain ⟨hlist, hrest⟩ := flatMap_quoteJsonChar_append_inj (List.cons.inj h).2
  exact ⟨String.toList_inj.1 hlist, hrest⟩

end Text

/-! ### Documents without parts -/

namespace Json

/-- The characters that separate the parts of a document, and white space. -/
def separators : List Char :=
  ['[', ']', '\x7b', '\x7d', ',', ':', '"', ' ', '\t', '\r', '\n']

/-- The text of a document that has no parts and is no string. -/
def bareText? : Json → Option String
  | null => some "null"
  | natural n => some (toString n)
  | number x => some (numberFormat.render x)
  | text _ | array _ | object _ => none

variable {j j' : Json} {s : String}

/-- What needs no quotes is written as it stands. -/
theorem write_of_bareText? (h : j.bareText? = some s) (rest : List Char) :
    j.write rest = s.toList ++ rest := by
  cases j <;> cases h <;> rw [write, writeText]

end Json

/-! ### Numbers -/

section Number

variable {digits plus : List Char} {c : Char}

/-- A number in plain form has a point, and otherwise digits. -/
theorem layPlain_chars (hdigits : ∀ c ∈ digits, c.isDigit = true) (point : Int) :
    '.' ∈ layPlain digits point ∧ ∀ c ∈ layPlain digits point, c.isDigit = true ∨ c = '.' := by
  have hzeros : ∀ n, ∀ c ∈ zeros n, c.isDigit = true := by
    intro n c hc
    rw [zeros, List.mem_replicate] at hc
    rw [hc.2]
    rfl
  -- The point stands in front of all digits, behind them, or between them.
  rw [layPlain]
  split
  · refine ⟨by simp, fun c hc => ?_⟩
    simp only [List.cons_append, List.mem_cons, List.mem_append] at hc
    rcases hc with rfl | rfl | hc | hc
    · exact .inl rfl
    · exact .inr rfl
    · exact .inl (hzeros _ c hc)
    · exact .inl (hdigits c hc)
  split
  · refine ⟨by simp, fun c hc => ?_⟩
    simp only [List.mem_cons, List.mem_append, List.not_mem_nil, or_false] at hc
    rcases hc with (hc | hc) | rfl | rfl
    · exact .inl (hdigits c hc)
    · exact .inl (hzeros _ c hc)
    · exact .inr rfl
    · exact .inl rfl
  · refine ⟨by simp, fun c hc => ?_⟩
    simp only [List.mem_cons, List.mem_append] at hc
    rcases hc with hc | rfl | hc
    · exact .inl (hdigits c (List.mem_of_mem_take hc))
    · exact .inr rfl
    · exact .inl (hdigits c (List.mem_of_mem_drop hc))

/-- A number in scientific form has an `e`, and otherwise digits, a point and signs. -/
theorem layScientific_chars (hdigits : ∀ c ∈ digits, c.isDigit = true) (plus : List Char)
    (exponent : Int) : 'e' ∈ layScientific plus digits exponent ∧
      ∀ c ∈ layScientific plus digits exponent,
        c.isDigit = true ∨ c ∈ ['.', 'e', '-'] ∨ c ∈ plus := by
  rw [layScientific]
  refine ⟨by simp, fun c hc => ?_⟩
  simp only [List.mem_cons, List.mem_append] at hc
  rcases hc with (((hc | hc) | hc) | rfl | hc) | hc
  · exact .inl (hdigits c (List.mem_of_mem_take hc))
  · split at hc
    · cases hc
    · exact .inr (.inl (by simp_all))
  · exact .inl (hdigits c (List.mem_of_mem_drop hc))
  · exact .inr (.inl (by simp))
  · split at hc
    · exact .inr (.inl (by simp_all))
    · exact .inr (.inr hc)
  · exact .inl (Nat.isDigit_of_mem_toDigits (by decide) (by decide) hc)

/-- A decimal is written with digits, and with a dot or an exponent. -/
theorem NumberFormat.layOut_chars (f : NumberFormat) (d : Decimal) :
    ('.' ∈ f.layOut d ∨ 'e' ∈ f.layOut d) ∧
      ∀ c ∈ f.layOut d, c.isDigit = true ∨ c ∈ ['.', 'e', '-'] ∨ c ∈ f.plus := by
  have hdigits : ∀ c ∈ Nat.toDigits 10 d.digits, c.isDigit = true := fun c hc =>
    Nat.isDigit_of_mem_toDigits (by decide) (by decide) hc
  simp only [layOut]
  generalize d.exponent + (Nat.toDigits 10 d.digits).length - 1 = leading
  split
  · obtain ⟨hdot, hall⟩ := layPlain_chars hdigits (leading + 1)
    exact ⟨.inl hdot, fun c hc => (hall c hc).imp_right fun h => .inl (by simp [h])⟩
  · obtain ⟨he, hall⟩ := layScientific_chars hdigits f.plus leading
    exact ⟨.inr he, hall⟩

end Number

namespace Json

variable {j j' : Json} {s : String}

theorem not_mem_separators_of_isDigit {c : Char} (h : c.isDigit = true) : c ∉ separators := by
  have hall : ∀ c ∈ separators, c.isDigit = false := List.all_iff_forall_prop.1 (by decide)
  intro hc
  rw [hall c hc] at h
  cases h

/-- A number is written like nothing else, unless it is infinite, and then like `null`. -/
theorem render_chars (x : Binary64) : numberFormat.render x = "null" ∨
    (('.' ∈ (numberFormat.render x).toList ∨ 'e' ∈ (numberFormat.render x).toList) ∧
      ∀ c ∈ (numberFormat.render x).toList, c ∉ separators) := by
  rw [NumberFormat.render]
  split
  · exact .inl rfl
  split
  · exact .inr ⟨.inl (by decide), List.all_iff_forall_prop.1 (by decide)⟩
  · right
    obtain ⟨hmark, hall⟩ := numberFormat.layOut_chars (x.shortest numberFormat.tie)
    rw [String.toList_ofList]
    refine ⟨hmark, fun c hc => ?_⟩
    rcases hall c hc with hdigit | hother | hplus
    · exact not_mem_separators_of_isDigit hdigit
    · have hfinite : ∀ c ∈ ['.', 'e', '-'], c ∉ separators :=
        List.all_iff_forall_prop.1 (by decide)
      exact hfinite c hother
    · rw [List.mem_singleton.1 hplus]
      decide

theorem toString_chars (n : Nat) : ∀ c ∈ (toString n).toList, c.isDigit = true := by
  rw [Nat.toString_eq_ofList_toDigits, String.toList_ofList]
  exact fun c hc => Nat.isDigit_of_mem_toDigits (by decide) (by decide) hc

theorem toString_inj {n m : Nat} (h : toString n = toString m) : n = m := by
  rw [Nat.toString_eq_ofList_toDigits, Nat.toString_eq_ofList_toDigits, String.ofList_inj] at h
  rw [← @Nat.ofDigitChars_ten_toDigits n, h, Nat.ofDigitChars_ten_toDigits]

theorem null_chars : "null".toList ≠ [] ∧ ∀ c ∈ "null".toList, c ∉ separators :=
  ⟨by decide, List.all_iff_forall_prop.1 (by decide)⟩

theorem bareText?_chars (h : j.bareText? = some s) :
    s.toList ≠ [] ∧ ∀ c ∈ s.toList, c ∉ separators := by
  cases j with
  | null =>
    cases h
    exact null_chars
  | natural n =>
    cases h
    refine ⟨?_, fun c hc => not_mem_separators_of_isDigit (toString_chars n c hc)⟩
    rw [Nat.toString_eq_ofList_toDigits, String.toList_ofList]
    exact Nat.toDigits_ne_nil
  | number x =>
    cases h
    rcases render_chars x with hnull | ⟨hmark, hall⟩
    · rw [hnull]
      exact null_chars
    · exact ⟨by rcases hmark with h | h <;> exact List.ne_nil_of_mem h, hall⟩
  | text | array | object => cases h

/-! ### Reading back -/

mutual

/-- A document without the values of its binary numbers. -/
def blur : Json → Json
  | null => null
  | natural n => natural n
  | number _ => null
  | text s => text s
  | array items => array (blurItems items)
  | object members => object (blurMembers members)

/-- The same for elements. -/
def blurItems : List Json → List Json
  | [] => []
  | j :: js => j.blur :: blurItems js

/-- The same for members. -/
def blurMembers : List (String × Json) → List (String × Json)
  | [] => []
  | (key, j) :: members => (key, j.blur) :: blurMembers members

end

attribute [simp] blur blurItems blurMembers

/-- A text in front of which a document ends. -/
def Ends (rest : List Char) : Prop := ∀ c ∈ rest.head?, c ∈ separators

theorem ends_cons {c : Char} (h : c ∈ separators) (rest : List Char) : Ends (c :: rest) := by
  simpa [Ends] using h

/-- Texts without separators end at the first separator. -/
theorem append_inj_of_ends {xs ys rest rest' : List Char} (hxs : ∀ c ∈ xs, c ∉ separators)
    (hys : ∀ c ∈ ys, c ∉ separators) (hrest : Ends rest) (hrest' : Ends rest')
    (h : xs ++ rest = ys ++ rest') : xs = ys ∧ rest = rest' := by
  have htake : ∀ {zs more : List Char}, (∀ c ∈ zs, c ∉ separators) → Ends more →
      (zs ++ more).takeWhile (· ∉ separators) = zs := by
    intro zs more hzs hmore
    have hnil : more.takeWhile (· ∉ separators) = [] := by
      cases more with
      | nil => rfl
      | cons d more => simp [show d ∈ separators from hmore d rfl]
    rw [List.takeWhile_append_of_pos (by simpa using hzs), hnil, List.append_nil]
  obtain rfl : xs = ys := by rw [← htake hxs hrest, h, htake hys hrest']
  exact ⟨rfl, List.append_cancel_left h⟩

/-- Documents that are written the same without quotes or brackets. -/
theorem blur_eq_of_bareText? (h : j.bareText? = some s) (h' : j'.bareText? = some s) :
    j.blur = j'.blur := by
  -- A natural number has digits only.
  have hnatural : ∀ (n : Nat) x, toString n ≠ numberFormat.render x := by
    intro n x heq
    have hall := toString_chars n
    rw [heq] at hall
    rcases render_chars x with hnull | ⟨hdot | he, -⟩
    · rw [hnull] at hall
      exact absurd (hall 'n' (by decide)) (by decide)
    · exact absurd (hall _ hdot) (by decide)
    · exact absurd (hall _ he) (by decide)
  have hnull : ∀ n : Nat, toString n ≠ "null" := by
    intro n heq
    have hall := toString_chars n
    rw [heq] at hall
    exact absurd (hall 'n' (by decide)) (by decide)
  -- A number that is not finite is written as `null`, so these two are not told apart.
  cases j with
  | text | array | object => cases h
  | null =>
    cases j' with
    | text | array | object => cases h'
    | null | number => rfl
    | natural n => exact absurd (Option.some.inj (h'.trans h.symm)) (hnull n)
  | number x =>
    cases j' with
    | text | array | object => cases h'
    | null | number => rfl
    | natural n => exact absurd (Option.some.inj (h'.trans h.symm)) (hnatural n x)
  | natural n =>
    cases j' with
    | text | array | object => cases h'
    | null => exact absurd (Option.some.inj (h.trans h'.symm)) (hnull n)
    | number x => exact absurd (Option.some.inj (h.trans h'.symm)) (hnatural n x)
    | natural m =>
      rw [toString_inj (Option.some.inj (h.trans h'.symm))]

/-- The separator that a document starts with, if it starts with one. -/
def opening? : Json → Option Char
  | text _ => some '"'
  | array _ => some '['
  | object _ => some '\x7b'
  | null | natural _ | number _ => none

theorem opening?_of_write (j : Json) (rest : List Char) : ∃ c more, j.write rest = c :: more ∧
    j.opening? = if c ∈ separators then some c else none := by
  have hbare : ∀ {s}, j.bareText? = some s → j.opening? = none → ∃ c more,
      j.write rest = c :: more ∧ j.opening? = if c ∈ separators then some c else none := by
    intro s hs hnone
    obtain ⟨hne, hall⟩ := bareText?_chars hs
    obtain ⟨c, more, hcons⟩ := List.exists_cons_of_ne_nil hne
    rw [hcons] at hall
    refine ⟨c, more ++ rest, by rw [write_of_bareText? hs, hcons]; rfl, ?_⟩
    rw [hnone, if_neg (hall c List.mem_cons_self)]
  cases j with
  | null | natural n | number x => exact hbare rfl rfl
  | text s => exact ⟨'"', _, by rw [write, writeText, Text.toList_quoteJson], rfl⟩
  | array items => exact ⟨'[', _, by rw [write], rfl⟩
  | object members => exact ⟨'\x7b', _, by rw [write], rfl⟩

/-- Documents with the same text are of the same sort. -/
theorem opening?_eq_of_write_eq {rest rest' : List Char} (h : j.write rest = j'.write rest') :
    j.opening? = j'.opening? := by
  obtain ⟨c, more, hcons, hopening⟩ := j.opening?_of_write rest
  obtain ⟨c', more', hcons', hopening'⟩ := j'.opening?_of_write rest'
  rw [h, hcons'] at hcons
  cases hcons
  rw [hopening, hopening']

/-- No document starts like this. -/
theorem write_ne_cons {c : Char} (hc : c ∈ [']', '\x7d', ',']) (j : Json) (rest more : List Char) :
    j.write rest ≠ c :: more := by
  intro h
  obtain ⟨d, _, hcons, hopening⟩ := j.opening?_of_write rest
  rw [h] at hcons
  cases hcons
  have hall : ∀ c ∈ [']', '\x7d', ','], c ∈ separators ∧ some c ≠ some '"' ∧ some c ≠ some '[' ∧
      some c ≠ some '\x7b' :=
    List.all_iff_forall_prop.1 (by decide)
  obtain ⟨hsep, hquote, hbracket, hbrace⟩ := hall c hc
  rw [if_pos hsep] at hopening
  cases j with
  | text => exact hquote hopening.symm
  | array => exact hbracket hopening.symm
  | object => exact hbrace hopening.symm
  | null | natural | number => cases hopening

/-- The elements behind the first, with commas in front of them. -/
def writeMoreItems : List Json → List Char → List Char
  | [], rest => rest
  | j :: js, rest => ',' :: writeItems (j :: js) rest

/-- The members behind the first, with commas in front of them. -/
def writeMoreMembers : List (String × Json) → List Char → List Char
  | [], rest => rest
  | member :: members, rest => ',' :: writeMembers (member :: members) rest

theorem writeItems_cons (j : Json) (js : List Json) (rest : List Char) :
    writeItems (j :: js) rest = j.write (writeMoreItems js rest) := by
  cases js <;> simp [writeItems, writeMoreItems]

theorem writeMembers_cons (key : String) (j : Json) (members : List (String × Json))
    (rest : List Char) : writeMembers ((key, j) :: members) rest =
      writeText (Text.quoteJson key) (':' :: j.write (writeMoreMembers members rest)) := by
  cases members <;> simp [writeMembers, writeMoreMembers]

theorem ends_writeMoreItems (js : List Json) (rest : List Char) :
    Ends (writeMoreItems js (']' :: rest)) := by
  cases js <;> exact ends_cons (by decide) _

theorem ends_writeMoreMembers (members : List (String × Json)) (rest : List Char) :
    Ends (writeMoreMembers members ('\x7d' :: rest)) := by
  cases members <;> exact ends_cons (by decide) _

/-- A comma tells whether there are more elements. -/
theorem writeItems_eq_of_more {js js' : List Json} {rest rest' : List Char}
    (h : writeMoreItems js (']' :: rest) = writeMoreItems js' (']' :: rest')) :
    writeItems js (']' :: rest) = writeItems js' (']' :: rest') := by
  cases js <;> cases js' <;> simp_all [writeMoreItems, writeItems]

/-- A comma tells whether there are more members. -/
theorem writeMembers_eq_of_more {members members' : List (String × Json)} {rest rest' : List Char}
    (h : writeMoreMembers members ('\x7d' :: rest) = writeMoreMembers members' ('\x7d' :: rest')) :
    writeMembers members ('\x7d' :: rest) = writeMembers members' ('\x7d' :: rest') := by
  cases members <;> cases members' <;> simp_all [writeMoreMembers, writeMembers]

mutual

/-- A document can be read back from the front of a text, but for binary numbers. -/
theorem write_inj (j j' : Json) {rest rest' : List Char} (hrest : Ends rest) (hrest' : Ends rest')
    (h : j.write rest = j'.write rest') : j.blur = j'.blur ∧ rest = rest' := by
  have hopening := opening?_eq_of_write_eq h
  -- Without quotes and brackets the text ends where the separators begin.
  have hbare : ∀ {s s'}, j.bareText? = some s → j'.bareText? = some s' →
      j.blur = j'.blur ∧ rest = rest' := by
    intro s s' hs hs'
    rw [write_of_bareText? hs, write_of_bareText? hs'] at h
    obtain ⟨htext, hend⟩ :=
      append_inj_of_ends (bareText?_chars hs).2 (bareText?_chars hs').2 hrest hrest' h
    rw [← String.toList_inj.1 htext] at hs'
    exact ⟨blur_eq_of_bareText? hs hs', hend⟩
  match j with
  | null | natural _ | number _ =>
    cases j' with
    | null | natural _ | number _ => exact hbare rfl rfl
    | text _ | array _ | object _ => cases hopening
  | text s =>
    cases j' with
    | null | natural _ | number _ | array _ | object _ => cases hopening
    | text s' =>
      rw [write, write] at h
      obtain ⟨rfl, hend⟩ := Text.quoteJson_append_inj h
      exact ⟨rfl, hend⟩
  | array items =>
    cases j' with
    | null | natural _ | number _ | text _ | object _ => cases hopening
    | array items' =>
      rw [write, write] at h
      obtain ⟨hitems, hend⟩ := writeItems_inj items items' (List.cons.inj h).2
      exact ⟨by rw [blur, blur, hitems], hend⟩
  | object members =>
    cases j' with
    | null | natural _ | number _ | text _ | array _ => cases hopening
    | object members' =>
      rw [write, write] at h
      obtain ⟨hmembers, hend⟩ := writeMembers_inj members members' (List.cons.inj h).2
      exact ⟨by rw [blur, blur, hmembers], hend⟩

/-- The elements of an array are read back, up to the bracket that closes it. -/
theorem writeItems_inj (js js' : List Json) {rest rest' : List Char}
    (h : writeItems js (']' :: rest) = writeItems js' (']' :: rest')) :
    blurItems js = blurItems js' ∧ rest = rest' := by
  match js, js' with
  | [], [] => exact ⟨rfl, (List.cons.inj h).2⟩
  | [], j' :: js' =>
    rw [writeItems_cons] at h
    exact absurd h.symm (write_ne_cons (by decide) _ _ _)
  | j :: js, [] =>
    rw [writeItems_cons] at h
    exact absurd h (write_ne_cons (by decide) _ _ _)
  | j :: js, j' :: js' =>
    rw [writeItems_cons, writeItems_cons] at h
    obtain ⟨hj, hmore⟩ := write_inj j j' (ends_writeMoreItems _ _) (ends_writeMoreItems _ _) h
    obtain ⟨hjs, hend⟩ := writeItems_inj js js' (writeItems_eq_of_more hmore)
    exact ⟨by rw [blurItems, blurItems, hj, hjs], hend⟩

/-- So are the members of an object, with their keys. -/
theorem writeMembers_inj (members members' : List (String × Json)) {rest rest' : List Char}
    (h : writeMembers members ('\x7d' :: rest) = writeMembers members' ('\x7d' :: rest')) :
    blurMembers members = blurMembers members' ∧ rest = rest' := by
  match members, members' with
  | [], [] => exact ⟨rfl, (List.cons.inj h).2⟩
  | [], (key', j') :: members' =>
    rw [writeMembers_cons, writeText, Text.toList_quoteJson] at h
    exact absurd (List.cons.inj h).1 (by decide)
  | (key, j) :: members, [] =>
    rw [writeMembers_cons, writeText, Text.toList_quoteJson] at h
    exact absurd (List.cons.inj h).1 (by decide)
  | (key, j) :: members, (key', j') :: members' =>
    rw [writeMembers_cons, writeMembers_cons] at h
    obtain ⟨rfl, hvalue⟩ := Text.quoteJson_append_inj h
    obtain ⟨hj, hmore⟩ := write_inj j j' (ends_writeMoreMembers _ _) (ends_writeMoreMembers _ _)
      (List.cons.inj hvalue).2
    obtain ⟨hmembers, hend⟩ := writeMembers_inj members members' (writeMembers_eq_of_more hmore)
    exact ⟨by rw [blurMembers, blurMembers, hj, hmembers], hend⟩

end

/-- Documents with the same compact text are the same but for binary numbers. -/
theorem blur_eq_of_compact_eq (h : j.compact = j'.compact) : j.blur = j'.blur := by
  have hnil : Ends [] := nofun
  exact (write_inj j j' hnil hnil (String.ofList_inj.1 h)).1

end Json

end Scriptlet
