import Scriptlet.Proofs.StringLiterals

/-!
# What the escapes of a string stand for

The body of a string is read from left to right. Where an escape stands, it is replaced by its
character; every other character is copied, a backslash that starts no escape among them, and
reading goes on right behind it.

With `\x` and two hexadecimal digits that is all there is to say. But decoding also takes `\x` with
one digit for an escape, if there is no second one. So it reads every body by a table of escapes
that has one entry too many, and a body is decoded as the described escapes say exactly if reading
never comes to a short escape.

## Main definitions

* `Text.Escape`, `Text.ShortEscape`: escapes and the characters that they stand for;
* `Text.Described`, `Text.Taken`: the escapes of the description, and those that decoding takes;
* `Text.Decodes`: reading with given escapes;
* `Text.Reaches`: the places to which reading comes.

## Main results

* `Text.unescape_of_escape`, `Text.unescape_of_shortEscape`, `Text.unescape_of_copied`: one step of
  decoding;
* `Text.Decodes.exists_of_ne_nil`, `Text.Decodes.unique`: reading gives one text;
* `Text.unescape_decodes`: what decoding gives.
-/

namespace Scriptlet.Text

/-! ### Escapes -/

/-- The value of a hexadecimal digit. -/
def HexValue (c : Char) (n : Nat) : Prop :=
  "0123456789abcdef".toList[n]? = some c ∨ "0123456789ABCDEF".toList[n]? = some c

instance (c : Char) (n : Nat) : Decidable (HexValue c n) :=
  inferInstanceAs (Decidable (_ ∨ _))

/-- The escapes, each with the character that it stands for. -/
inductive Escape : List Char → Char → Prop
  | newline : Escape ['\\', 'n'] '\n'
  | tab : Escape ['\\', 't'] '\t'
  | carriageReturn : Escape ['\\', 'r'] '\r'
  | backslash : Escape ['\\', '\\'] '\\'
  | doubleQuote : Escape ['\\', '"'] '"'
  | singleQuote : Escape ['\\', '\x27'] '\x27'
  | zero : Escape ['\\', '0'] '\x00'
  | code {c d : Char} {m n : Nat} : HexValue c m → HexValue d n →
      Escape ['\\', 'x', c, d] (Char.ofNat (16 * m + n))

/-- An `\x` with a single digit, in front of a text that does not start with a digit. -/
inductive ShortEscape : List Char → List Char → Char → Prop
  | intro {c : Char} {n : Nat} {behind : List Char} : HexValue c n →
      (∀ d ∈ behind.head?, ∀ m, ¬HexValue d m) →
      ShortEscape ['\\', 'x', c] behind (Char.ofNat n)

/-- The escapes of the description, whatever stands behind them. -/
def Described (e _behind : List Char) (d : Char) : Prop :=
  Escape e d

/-- The escapes that decoding takes. -/
def Taken (e behind : List Char) (d : Char) : Prop :=
  Escape e d ∨ ShortEscape e behind d

/-! ### Reading -/

/-- Reading a text from left to right, with escapes that are told by their text and the text behind
it: an escape gives its character, and where none stands a character is copied. -/
inductive Decodes (escapes : List Char → List Char → Char → Prop) : List Char → List Char → Prop
  | nil : Decodes escapes [] []
  | escape {e cs ds : List Char} {d : Char} : escapes e cs d → Decodes escapes cs ds →
      Decodes escapes (e ++ cs) (d :: ds)
  | copy {c : Char} {cs ds : List Char} :
      (∀ e behind d, escapes e behind d → e ++ behind ≠ c :: cs) → Decodes escapes cs ds →
      Decodes escapes (c :: cs) (c :: ds)

/-- The places to which reading a text comes. -/
inductive Reaches (escapes : List Char → List Char → Char → Prop) : List Char → List Char → Prop
  | here {cs : List Char} : Reaches escapes cs cs
  | escape {e cs place : List Char} {d : Char} : escapes e cs d → Reaches escapes cs place →
      Reaches escapes (e ++ cs) place
  | copy {c : Char} {cs place : List Char} :
      (∀ e behind d, escapes e behind d → e ++ behind ≠ c :: cs) → Reaches escapes cs place →
      Reaches escapes (c :: cs) place

section Reading

variable {escapes : List Char → List Char → Char → Prop}

/-- Every text can be read, if no escape is empty. -/
theorem Decodes.exists_of_ne_nil (hne : ∀ e behind d, escapes e behind d → e ≠ [])
    (s : List Char) : ∃ t, Decodes escapes s t := by
  induction hlength : s.length using Nat.strongRecOn generalizing s with
  | ind n ih =>
    cases s with
    | nil => exact ⟨[], .nil⟩
    | cons c cs =>
      by_cases hescape : ∃ e behind d, escapes e behind d ∧ e ++ behind = c :: cs
      · obtain ⟨e, behind, d, he, hsplit⟩ := hescape
        have hpos := List.length_pos_iff.2 (hne e behind d he)
        have hlt : behind.length < n := by
          rw [← hlength, ← hsplit, List.length_append]
          omega
        obtain ⟨ds, hds⟩ := ih _ hlt behind rfl
        exact ⟨d :: ds, hsplit ▸ .escape he hds⟩
      · obtain ⟨ds, hds⟩ := ih _ (by simp [← hlength]) cs rfl
        refine ⟨c :: ds, .copy (fun e behind d he hsplit => ?_) hds⟩
        exact hescape ⟨e, behind, d, he, hsplit⟩

end Reading

/-! ### Digits and letters -/

/-- The digits that decoding knows are those with a value, and have the same values. -/
theorem hexDigit?_eq_some_iff {c : Char} {n : Nat} : hexDigit? c = some n ↔ HexValue c n := by
  constructor
  · intro h
    -- Only codes up to that of the last letter can be a digit, and these are tried one by one.
    have hle : c ≤ 'f' := by
      refine Decidable.byContradiction fun hnot => ?_
      have hneg : ∀ low high : Char, high ≤ 'f' → ¬(low ≤ c ∧ c ≤ high) :=
        fun low high hhigh hrange => hnot (Char.le_trans hrange.2 hhigh)
      rw [hexDigit?, if_neg (hneg _ _ (by decide)), if_neg (hneg _ _ (by decide)),
        if_neg (hneg _ _ (by decide))] at h
      cases h
    have hall : ∀ k < 103, ∀ n ∈ hexDigit? (Char.ofNat k), HexValue (Char.ofNat k) n := by
      decide +kernel
    have hvalue := hall c.toNat (Nat.lt_succ_of_le hle) n (by rwa [Char.ofNat_toNat])
    rwa [Char.ofNat_toNat] at hvalue
  · have hall : ∀ digits ∈ ["0123456789abcdef".toList, "0123456789ABCDEF".toList],
        digits.map hexDigit? = (List.range 16).map some := by
      decide +kernel
    have hvalue : ∀ digits ∈ ["0123456789abcdef".toList, "0123456789ABCDEF".toList],
        digits[n]? = some c → hexDigit? c = some n := by
      intro digits hmem hdigit
      have hget : (digits.map hexDigit?)[n]? = ((List.range 16).map some)[n]? := by
        rw [hall digits hmem]
      rw [List.getElem?_map, List.getElem?_map, hdigit] at hget
      obtain ⟨m, hm, heq⟩ := Option.map_eq_some_iff.1 hget.symm
      obtain ⟨hlt, rfl⟩ := List.getElem?_eq_some_iff.1 hm
      rw [List.getElem_range] at heq
      exact heq.symm
    rintro (h | h)
    · exact hvalue _ (by simp) h
    · exact hvalue _ (by simp) h

/-- All other characters are no digits. -/
theorem hexDigit?_eq_none_iff {c : Char} : hexDigit? c = none ↔ ∀ n, ¬HexValue c n := by
  simp only [← hexDigit?_eq_some_iff, Option.eq_none_iff_forall_not_mem, Option.mem_def]

theorem HexValue.unique {c : Char} {m n : Nat} (hm : HexValue c m) (hn : HexValue c n) : m = n :=
  Option.some.inj ((hexDigit?_eq_some_iff.2 hm).symm.trans (hexDigit?_eq_some_iff.2 hn))

theorem HexValue.lt {c : Char} {n : Nat} (h : HexValue c n) : n < 16 := by
  rcases h with h | h <;> exact (List.getElem?_eq_some_iff.1 h).1

/-- The escapes of one letter are among those of the description. -/
theorem Escape.of_simpleEscape? {c d : Char} (h : simpleEscape? c = some d) :
    Escape ['\\', c] d := by
  rw [simpleEscape?.eq_def] at h
  split at h <;> cases h <;> constructor

/-- At one place there is at most one escape of the description. -/
theorem Escape.unique {e e' behind behind' : List Char} {d d' : Char} (h : Escape e d)
    (h' : Escape e' d') (heq : e ++ behind = e' ++ behind') :
    e = e' ∧ behind = behind' ∧ d = d' := by
  cases h with
  | code hm hn =>
    cases h' with
    | code hm' hn' =>
      simp only [List.cons_append, List.nil_append, List.cons.injEq, true_and] at heq
      obtain ⟨rfl, rfl, rfl⟩ := heq
      rw [hm.unique hm', hn.unique hn']
      exact ⟨rfl, rfl, rfl⟩
    | _ => simp at heq
  | _ => cases h' <;> simp_all

/-- Every text can be read with the escapes of the description. -/
theorem exists_decodes_described (s : List Char) : ∃ t, Decodes Described s t :=
  Decodes.exists_of_ne_nil (fun e behind d he => by cases he <;> simp) s

/-- There is one such reading, since at one place there is at most one escape. -/
theorem Decodes.unique {s t t' : List Char} (h : Decodes Described s t)
    (h' : Decodes Described s t') : t = t' := by
  induction h generalizing t' with
  | nil =>
    generalize hs : ([] : List Char) = s at h'
    cases h' with
    | nil => rfl
    | escape he _ => cases he <;> simp at hs
    | copy => simp at hs
  | @escape e cs ds d he _ ih =>
    generalize hs : e ++ cs = s at h'
    cases h' with
    | nil => cases he <;> simp at hs
    | escape he' htail =>
      obtain ⟨-, rfl, rfl⟩ := Escape.unique he he' hs
      rw [ih htail]
    | copy hnone => exact absurd hs (hnone _ _ _ he)
  | copy hnone _ ih =>
    -- A character that is copied in one reading starts no escape of the other.
    generalize hs : _ :: _ = s at h'
    cases h' with
    | nil => simp at hs
    | escape he' => exact absurd hs.symm (hnone _ _ _ he')
    | copy _ htail =>
      cases hs
      rw [ih htail]

/-! ### One step of decoding -/

/-- An escape of the description gives its character. -/
theorem unescape_of_escape {e : List Char} {d : Char} (h : Escape e d) (cs : List Char) :
    unescape (e ++ cs) = d :: unescape cs := by
  cases h with
  | code hm hn =>
    simp only [List.cons_append, List.nil_append, unescape, hexDigit?_eq_some_iff.2 hm,
      hexDigit?_eq_some_iff.2 hn]
  | _ => exact unescape_of_simpleEscape? rfl cs

/-- An `\x` with a single digit gives the character of this digit. -/
theorem unescape_of_shortEscape {e behind : List Char} {d : Char} (h : ShortEscape e behind d) :
    unescape (e ++ behind) = d :: unescape behind := by
  cases h with
  | intro hn hbehind =>
    cases behind with
    | nil => simp only [List.append_nil, unescape, hexDigit?_eq_some_iff.2 hn]
    | cons d behind =>
      have hnone : hexDigit? d = none := hexDigit?_eq_none_iff.2 (hbehind d rfl)
      simp only [List.cons_append, List.nil_append, unescape, hexDigit?_eq_some_iff.2 hn, hnone]

/-- A digit behind `\x` makes an escape, with or without a second one. -/
theorem Taken.exists_of_hexValue {c : Char} {n : Nat} (h : HexValue c n) (cs : List Char) :
    ∃ e behind d, Taken e behind d ∧ e ++ behind = '\\' :: 'x' :: c :: cs := by
  by_cases hsecond : ∃ d ∈ cs.head?, ∃ m, HexValue d m
  · obtain ⟨d, hd, m, hm⟩ := hsecond
    obtain ⟨cs, rfl⟩ : ∃ ds, cs = d :: ds := List.head?_eq_some_iff.1 hd
    exact ⟨_, cs, _, .inl (.code h hm), rfl⟩
  · refine ⟨_, cs, _, .inr (.intro h fun d hd m hm => ?_), rfl⟩
    exact hsecond ⟨d, hd, m, hm⟩

/-- Where no escape stands the character is copied. -/
theorem unescape_of_copied {c : Char} {cs : List Char}
    (h : ∀ e behind d, Taken e behind d → e ++ behind ≠ c :: cs) :
    unescape (c :: cs) = c :: unescape cs := by
  by_cases hback : c = '\\'
  case neg => exact unescape_cons_of_ne hback cs
  subst hback
  cases cs with
  | nil => rfl
  | cons d cs =>
    -- Behind a backslash there may be an `x`, the letter of a shorter escape, or neither.
    by_cases hx : d = 'x'
    · subst hx
      rw [unescape_cons_of_ne (by decide : 'x' ≠ '\\')]
      cases cs with
      | nil => rfl
      | cons digit cs =>
        have hnone : hexDigit? digit = none := by
          refine hexDigit?_eq_none_iff.2 fun n hn => ?_
          obtain ⟨e, behind, d, htaken, hsplit⟩ := Taken.exists_of_hexValue hn cs
          exact h e behind d htaken hsplit
        cases cs <;> simp only [unescape, hnone]
    · have hnone : simpleEscape? d = none := by
        refine Option.eq_none_iff_forall_ne_some.2 fun value hvalue => ?_
        exact h ['\\', d] cs value (.inl (.of_simpleEscape? hvalue)) rfl
      rw [unescape.eq_4, hnone] <;> simp_all

/-! ### Decoding -/

/-- Decoding reads with the escapes that it takes. -/
theorem decodes_taken_iff {s t : List Char} : Decodes Taken s t ↔ t = unescape s := by
  have heq : ∀ {t}, Decodes Taken s t → t = unescape s := by
    intro t h
    induction h with
    | nil => rfl
    | escape he _ ih =>
      rcases he with he | he
      · rw [unescape_of_escape he, ih]
      · rw [unescape_of_shortEscape he, ih]
    | copy hnone _ ih => rw [unescape_of_copied hnone, ih]
  obtain ⟨u, hu⟩ : ∃ u, Decodes Taken s u := by
    refine Decodes.exists_of_ne_nil (fun e behind d he => ?_) s
    rcases he with he | he <;> cases he <;> simp
  exact ⟨heq, fun h => h ▸ heq hu ▸ hu⟩

/-- A short escape is none of the description, and its backslash is copied. -/
theorem Decodes.ne_unescape_of_shortEscape {e behind t : List Char} {d : Char}
    (hshort : ShortEscape e behind d) (h : Decodes Described (e ++ behind) t) :
    t ≠ unescape (e ++ behind) := by
  rw [unescape_of_shortEscape hshort]
  cases hshort with
  | @intro c n _ hn hbehind =>
    generalize hs : ['\\', 'x', c] ++ behind = s at h
    cases h with
    | nil => simp at hs
    | escape he =>
      cases he with
      | code _ hm =>
        simp only [List.cons_append, List.nil_append, List.cons.injEq, true_and] at hs
        exact absurd hm (hbehind _ (by simp [hs.2]) _)
      | _ => simp at hs
    | copy =>
      have hcode : ∀ n < 16, Char.ofNat n ≠ '\\' := by decide
      cases hs
      -- The backslash that is copied is not the character that decoding gives, as no digit has its
      -- value.
      intro heq
      exact hcode n hn.lt (List.cons.inj heq).1.symm

/-- If reading never comes to a short escape, it gives what decoding gives. -/
theorem Decodes.eq_unescape {s t : List Char} (h : Decodes Described s t)
    (hshort : ∀ e behind d, Reaches Described s (e ++ behind) → ¬ShortEscape e behind d) :
    t = unescape s := by
  induction h with
  | nil => rfl
  | escape he _ ih =>
    rw [unescape_of_escape he, ih fun e behind d hreach => hshort e behind d (.escape he hreach)]
  | copy hnone _ ih =>
    rw [unescape_of_copied, ih fun e behind d hreach => hshort e behind d (.copy hnone hreach)]
    rintro e behind d (he | he) hsplit
    · exact hnone e behind d he hsplit
    · exact hshort e behind d (hsplit ▸ .here) he

/-- If reading comes to a short escape, it gives another text than decoding. -/
theorem Reaches.ne_unescape {s place e behind t : List Char} {d : Char}
    (hreach : Reaches Described s place) (hplace : place = e ++ behind)
    (hshort : ShortEscape e behind d) (h : Decodes Described s t) : t ≠ unescape s := by
  induction hreach generalizing t with
  | here => exact hplace ▸ Decodes.ne_unescape_of_shortEscape hshort (hplace ▸ h)
  | @escape e cs place d he _ ih =>
    obtain ⟨ds, hds⟩ := exists_decodes_described cs
    rw [h.unique (.escape he hds), unescape_of_escape he]
    exact fun heq => ih hplace hds (List.cons.inj heq).2
  | @copy c cs place hnone _ ih =>
    obtain ⟨ds, hds⟩ := exists_decodes_described cs
    -- A short escape may stand at this place too; then the texts differ here already.
    by_cases hhere : ∃ e behind d, ShortEscape e behind d ∧ e ++ behind = c :: cs
    · obtain ⟨e, behind, d, he, hsplit⟩ := hhere
      exact hsplit ▸ Decodes.ne_unescape_of_shortEscape he (hsplit ▸ h)
    · rw [h.unique (.copy hnone hds), unescape_of_copied]
      · exact fun heq => ih hplace hds (List.cons.inj heq).2
      · rintro e behind d (he | he) hsplit
        · exact hnone e behind d he hsplit
        · exact hhere ⟨e, behind, d, he, hsplit⟩

/-- Decoding a text gives the one reading of it that takes the escapes of the description and
`\x` with a single digit. The reading that takes the escapes of the description alone is unique
too, and it gives the same text exactly if it never comes to an `\x` with a single digit. -/
theorem unescape_decodes (s : List Char) :
    (∀ t, Decodes Taken s t ↔ t = unescape s) ∧
    (∃ t, Decodes Described s t ∧ ∀ u, Decodes Described s u → u = t) ∧
    (Decodes Described s (unescape s) ↔
      ∀ e behind d, Reaches Described s (e ++ behind) → ¬ShortEscape e behind d) := by
  obtain ⟨t, ht⟩ := exists_decodes_described s
  refine ⟨fun t => decodes_taken_iff, ⟨t, ht, fun u hu => hu.unique ht⟩, ?_, ?_⟩
  · exact fun h e behind d hreach hshort => hreach.ne_unescape rfl hshort h rfl
  · exact fun hshort => ht.eq_unescape hshort ▸ ht

/-- The body of three characters that is decoded to one, although no escape is complete. -/
theorem not_decodes_described_short :
    unescape ['\\', 'x', '4'] = ['\x04'] ∧
      Decodes Described ['\\', 'x', '4'] ['\\', 'x', '4'] ∧
      ¬Decodes Described ['\\', 'x', '4'] (unescape ['\\', 'x', '4']) := by
  have hnot : ¬Decodes Described ['\\', 'x', '4'] (unescape ['\\', 'x', '4']) := fun h =>
    Decodes.ne_unescape_of_shortEscape (.intro (.inl (rfl : _[4]? = some '4')) (by simp)) h rfl
  refine ⟨by decide, ?_, hnot⟩
  refine .copy ?_ (.copy ?_ (.copy ?_ .nil)) <;> rintro e behind d he hsplit <;>
    cases he <;> simp at hsplit

end Scriptlet.Text
