import Mathlib.Computability.Language

/-!
# Regular expressions that prefer

What a regular expression can take from the front of a source is decided by its language. Where that
leaves several texts, one of them is preferred: the ways to match are tried in an order, and the
first one that succeeds is taken. Of two alternatives the left one is tried first; a repetition goes
on as long as it can and then gives back, and a lazy one stops as soon as it can and then goes on.

The language knows nothing of preferences, and the preferred text need not be the longest one. That
the ways are exactly the words of the language is proved here once for all expressions. Which way
comes first is worked out for the few forms that the lexical grammar is made of.

## Main definitions

* `Regex`, `Regex.language`: regular expressions and their languages;
* `Regex.ways`, `Regex.first?`: the ways to match in order, and the first of them.

## Main results

* `Regex.mem_ways`: the ways are the words of the language;
* `Regex.first?_literal_append`, `Regex.first?_star_char`: the first way of simple forms.
-/

namespace Scriptlet

open scoped Computability

/-- Regular expressions. -/
inductive Regex where
  /-- The empty text. -/
  | empty
  /-- One character of a class. -/
  | char (p : Char → Bool)
  /-- One expression behind the other. -/
  | seq (r s : Regex)
  /-- The left expression, or else the right one. -/
  | alt (r s : Regex)
  /-- Any number of times, as often as possible. -/
  | star (r : Regex)
  /-- Any number of times, as seldom as possible. -/
  | lazyStar (r : Regex)

namespace Regex

/-- A given text with an expression behind it. -/
def literal : List Char → Regex → Regex
  | [], r => r
  | c :: cs, r => seq (char (· = c)) (literal cs r)

/-- Once or more, as often as possible. -/
def plus (r : Regex) : Regex := seq r (star r)

/-- Once if possible. -/
def optional (r : Regex) : Regex := alt r empty

/-- The texts that an expression matches. -/
def language : Regex → Language Char
  | empty => 1
  | char p => {w | ∃ c, p c = true ∧ w = [c]}
  | seq r s => r.language * s.language
  | alt r s => r.language + s.language
  | star r | lazyStar r => r.language∗

/-! ### Ways to match -/

/-- A text in front of what a way takes. -/
def join (front : List Char) (parts : List Char × List Char) : List Char × List Char :=
  (front ++ parts.1, parts.2)

/-- The ways to repeat a step: to take it and go on, and to stop; an eager repetition prefers to go
on. A step that takes nothing is not repeated. -/
def repeatWays (eager : Bool) (step : List Char → List (List Char × List Char))
    (cs : List Char) : List (List Char × List Char) :=
  let more := (step cs).flatMap fun parts =>
    if parts.2.length < cs.length then (repeatWays eager step parts.2).map (join parts.1) else []
  if eager then more ++ [([], cs)] else ([], cs) :: more
termination_by cs.length

/-- The ways in which an expression matches at the front of a source, the preferred ones first: the
text taken and the source behind it. -/
def ways : Regex → List Char → List (List Char × List Char)
  | empty, cs => [([], cs)]
  | char _, [] => []
  | char p, c :: cs => if p c then [([c], cs)] else []
  | seq r s, cs => (r.ways cs).flatMap fun parts => (s.ways parts.2).map (join parts.1)
  | alt r s, cs => r.ways cs ++ s.ways cs
  | star r, cs => repeatWays true r.ways cs
  | lazyStar r, cs => repeatWays false r.ways cs

/-- The preferred way to match at the front of a source. -/
def first? (r : Regex) (cs : List Char) : Option (List Char × List Char) := (r.ways cs).head?

/-! ### The ways are the words of the language -/

variable {r s : Regex} {cs w rest : List Char}

theorem mem_repeatWays {eager : Bool} {step : List Char → List (List Char × List Char)}
    {l : Language Char} (hstep : ∀ {cs w rest}, (w, rest) ∈ step cs ↔ w ∈ l ∧ cs = w ++ rest) :
    (w, rest) ∈ repeatWays eager step cs ↔ w ∈ l∗ ∧ cs = w ++ rest := by
  -- By the length of the text, since only passes that take something are gone on from.
  induction hn : cs.length using Nat.strongRecOn generalizing cs w with
  | ind n ih =>
    have hways : (w, rest) ∈ repeatWays eager step cs ↔ (w = [] ∧ rest = cs) ∨
        ∃ a m, (a, m) ∈ step cs ∧ m.length < cs.length ∧
          ∃ b, (b, rest) ∈ repeatWays eager step m ∧ a ++ b = w := by
      rw [repeatWays]
      cases eager <;> simp [join, or_comm]
    rw [hways]
    constructor
    · rintro (⟨rfl, rfl⟩ | ⟨a, m, hstep', hlt, b, hb, rfl⟩)
      · exact ⟨Language.nil_mem_kstar l, rfl⟩
      · obtain ⟨ha, rfl⟩ := hstep.1 hstep'
        obtain ⟨hstar, rfl⟩ := (ih _ (hn ▸ hlt) rfl).1 hb
        refine ⟨?_, (List.append_assoc _ _ _).symm⟩
        rw [← Language.one_add_self_mul_kstar_eq_kstar, Language.mem_add]
        exact .inr (Language.append_mem_mul ha hstar)
    · rintro ⟨hw, rfl⟩
      -- A word of the star has a division into pieces none of which is empty.
      obtain ⟨pieces, rfl, hpieces⟩ := Language.mem_kstar_iff_exists_nonempty.1 hw
      cases pieces with
      | nil => exact .inl ⟨rfl, rfl⟩
      | cons a pieces =>
        obtain ⟨⟨ha, hne⟩, hrest⟩ := List.forall_mem_cons.1 hpieces
        have hlt : (pieces.flatten ++ rest).length < ((a :: pieces).flatten ++ rest).length := by
          have := List.length_pos_of_ne_nil hne
          simp
          omega
        refine .inr ⟨a, pieces.flatten ++ rest, hstep.2 ⟨ha, by simp⟩, hlt, pieces.flatten, ?_, rfl⟩
        exact (ih _ (hn ▸ hlt) rfl).2
          ⟨Language.join_mem_kstar fun y hy => (hrest y hy).1, rfl⟩

/-- The ways to match are the words of the language that the source starts with. -/
theorem mem_ways : (w, rest) ∈ r.ways cs ↔ w ∈ r.language ∧ cs = w ++ rest := by
  -- Along the expression; the two repetitions differ in the order of their ways only.
  induction r generalizing cs w rest with
  | empty =>
    rw [ways, List.mem_singleton, Prod.mk.injEq, language, Language.mem_one]
    exact and_congr_right fun hw => by rw [hw, List.nil_append, eq_comm]
  | char p =>
    have hword : w ∈ (char p).language ↔ ∃ c, p c = true ∧ w = [c] := Iff.rfl
    rw [hword]
    cases cs with
    | nil =>
      refine iff_of_false List.not_mem_nil ?_
      rintro ⟨⟨c, -, rfl⟩, h⟩
      cases h
    | cons c cs =>
      rw [ways]
      constructor
      · intro h
        split at h
        · rename_i hc
          obtain ⟨rfl, rfl⟩ := Prod.mk.inj (List.mem_singleton.1 h)
          exact ⟨⟨c, hc, rfl⟩, rfl⟩
        · cases h
      · rintro ⟨⟨d, hd, rfl⟩, h⟩
        obtain ⟨rfl, rfl⟩ := List.cons.inj h
        rw [if_pos hd]
        exact List.mem_singleton_self _
  | seq r s ihr ihs =>
    rw [ways, List.mem_flatMap, language, Language.mem_mul]
    constructor
    · rintro ⟨⟨a, m⟩, hr, hs⟩
      obtain ⟨⟨b, behind⟩, hmem, heq⟩ := List.mem_map.1 hs
      obtain ⟨rfl, rfl⟩ := Prod.mk.inj heq
      obtain ⟨ha, rfl⟩ := ihr.1 hr
      obtain ⟨hb, rfl⟩ := ihs.1 hmem
      exact ⟨⟨a, ha, b, hb, rfl⟩, (List.append_assoc _ _ _).symm⟩
    · rintro ⟨⟨a, ha, b, hb, rfl⟩, rfl⟩
      rw [List.append_assoc]
      exact ⟨_, ihr.2 ⟨ha, rfl⟩, List.mem_map.2 ⟨_, ihs.2 ⟨hb, rfl⟩, rfl⟩⟩
  | alt r s ihr ihs =>
    rw [ways, List.mem_append, ihr, ihs, language, Language.mem_add, or_and_right]
  | star r ih | lazyStar r ih => exact mem_repeatWays ih

/-- The preferred way is one of the ways. -/
theorem mem_language_of_first? (h : r.first? cs = some (w, rest)) :
    w ∈ r.language ∧ cs = w ++ rest :=
  mem_ways.1 (List.mem_of_head? h)

/-- There is a preferred way where the source starts with a word of the language. -/
theorem isSome_first?_iff : (r.first? cs).isSome ↔ ∃ w ∈ r.language, w <+: cs := by
  rw [first?, List.isSome_head?]
  constructor
  · intro h
    obtain ⟨⟨w, rest⟩, hmem⟩ := List.exists_mem_of_ne_nil _ h
    obtain ⟨hw, rfl⟩ := mem_ways.1 hmem
    exact ⟨w, hw, List.prefix_append _ _⟩
  · rintro ⟨w, hw, rest, rfl⟩
    exact List.ne_nil_of_mem (mem_ways.2 ⟨hw, rfl⟩)

/-! ### Words of simple forms -/

/-- Words that start with the text. -/
theorem mem_language_literal {t : List Char} :
    w ∈ (literal t r).language ↔ ∃ v ∈ r.language, w = t ++ v := by
  induction t generalizing w with
  | nil => simp [literal]
  | cons c t ih =>
    rw [literal, language, Language.mem_mul]
    constructor
    · rintro ⟨_, ⟨d, hd, rfl⟩, b, hb, rfl⟩
      obtain ⟨v, hv, rfl⟩ := ih.1 hb
      obtain rfl : d = c := by simpa using hd
      exact ⟨v, hv, rfl⟩
    · rintro ⟨v, hv, rfl⟩
      exact ⟨[c], ⟨c, by simp, rfl⟩, t ++ v, ih.2 ⟨v, hv, rfl⟩, rfl⟩

/-- Words of characters of one kind. -/
theorem mem_language_star_char {p : Char → Bool} :
    w ∈ (star (char p)).language ↔ ∀ c ∈ w, p c = true := by
  rw [language, Language.mem_kstar]
  constructor
  · rintro ⟨pieces, rfl, hpieces⟩ c hc
    obtain ⟨piece, hpiece, hc⟩ := List.mem_flatten.1 hc
    obtain ⟨d, hd, rfl⟩ := hpieces piece hpiece
    rwa [List.mem_singleton.1 hc]
  · intro h
    refine ⟨w.map fun c => [c], ?_, fun piece hpiece => ?_⟩
    · rw [← List.flatMap_def, List.flatMap_singleton']
    · obtain ⟨c, hc, rfl⟩ := List.mem_map.1 hpiece
      exact ⟨c, h c hc, rfl⟩

theorem mem_language_seq_char {p : Char → Bool} :
    w ∈ (seq (char p) r).language ↔ ∃ c v, p c = true ∧ v ∈ r.language ∧ w = c :: v := by
  rw [language, Language.mem_mul]
  constructor
  · rintro ⟨_, ⟨c, hc, rfl⟩, v, hv, rfl⟩
    exact ⟨c, v, hc, hv, rfl⟩
  · rintro ⟨c, v, hc, hv, rfl⟩
    exact ⟨[c], ⟨c, hc, rfl⟩, v, hv, rfl⟩

/-! ### Preferred ways of simple forms -/

@[simp] theorem join_nil : join [] = id := rfl

@[simp] theorem join_join (a b : List Char) (parts : List Char × List Char) :
    join a (join b parts) = join (a ++ b) parts := by
  simp [join]

/-- The first way through a sequence: the first way through its first part that can be gone on. -/
theorem first?_seq : (seq r s).first? cs =
    (r.ways cs).findSome? fun parts => (s.first? parts.2).map (join parts.1) := by
  rw [first?, ways, List.head?_flatMap]
  congr 1
  funext parts
  rw [List.head?_map, first?]

/-- An expression that cannot fail takes what is left by the preferred way of the one before it. -/
theorem first?_seq_of_isSome (h : ∀ m, (s.first? m).isSome) : (seq r s).first? cs =
    (r.first? cs).bind fun parts => (s.first? parts.2).map (join parts.1) := by
  rw [first?_seq, first?]
  cases r.ways cs with
  | nil => rfl
  | cons parts _ =>
    obtain ⟨found, hfound⟩ := Option.isSome_iff_exists.1 (h parts.2)
    simp [hfound]

theorem first?_optional : (optional r).first? cs = some ((r.first? cs).getD ([], cs)) := by
  rw [optional, first?, ways, List.head?_append, first?, ways]
  cases (r.ways cs).head? <;> rfl

theorem first?_seq_char {p : Char → Bool} {c : Char} : (seq (char p) r).first? (c :: cs) =
    if p c then (r.first? cs).map (join [c]) else none := by
  rw [first?_seq, ways]
  split
  · cases h : r.first? cs <;> simp [h]
  · rfl

/-- A text that stands there is taken, and the rest is left to what follows. -/
theorem first?_literal_append (t cs : List Char) :
    (literal t r).first? (t ++ cs) = (r.first? cs).map (join t) := by
  induction t with
  | nil => simp [literal]
  | cons c t ih =>
    rw [literal, List.cons_append, first?_seq_char, if_pos (by simp), ih]
    cases r.first? cs <;> simp

theorem first?_literal_of_not {t : List Char} (h : ∀ more, cs ≠ t ++ more) :
    (literal t r).first? cs = none := by
  rw [← Option.not_isSome_iff_eq_none, isSome_first?_iff]
  rintro ⟨w, hw, rest, rfl⟩
  obtain ⟨v, -, rfl⟩ := mem_language_literal.1 hw
  exact h (v ++ rest) (List.append_assoc _ _ _)

section Star

variable {m a : List Char}

/-- A run that can go on in one way only prefers to go on. -/
theorem ways_star_of_singleton (h : r.ways cs = [(a, m)]) (hlt : m.length < cs.length) :
    (star r).ways cs = ((star r).ways m).map (join a) ++ [([], cs)] := by
  rw [ways, repeatWays, h]
  simp [hlt, ways]

theorem ways_star_of_nil (h : r.ways cs = []) : (star r).ways cs = [([], cs)] := by
  rw [ways, repeatWays, h]
  rfl

/-- A lazy run prefers to stop. -/
theorem ways_lazyStar_of_singleton (h : r.ways cs = [(a, m)]) (hlt : m.length < cs.length) :
    (lazyStar r).ways cs = ([], cs) :: ((lazyStar r).ways m).map (join a) := by
  rw [ways, repeatWays, h]
  simp [hlt, ways]

theorem ways_lazyStar_of_nil (h : r.ways cs = []) : (lazyStar r).ways cs = [([], cs)] := by
  rw [ways, repeatWays, h]
  rfl

/-- A repetition goes on if it can, and gives back if what is behind it fails. -/
theorem first?_seq_star_of_singleton (h : r.ways cs = [(a, m)]) (hlt : m.length < cs.length) :
    (seq (star r) s).first? cs = (((seq (star r) s).first? m).map (join a)).or (s.first? cs) := by
  rw [first?_seq, ways_star_of_singleton h hlt, List.findSome?_append, List.findSome?_map,
    first?_seq, List.map_findSome?]
  congr 1
  · congr 1
    funext parts
    cases hs : s.first? parts.2 <;> simp [join, hs]
  · cases hs : s.first? cs <;> simp [hs]

/-- A repetition of what does not match takes nothing. -/
theorem first?_seq_star_of_nil (h : r.ways cs = []) :
    (seq (star r) s).first? cs = s.first? cs := by
  rw [first?_seq, ways_star_of_nil h]
  cases hs : s.first? cs <;> simp [hs]

/-- A lazy repetition stops if it can, and goes on if what is behind it fails. -/
theorem first?_seq_lazyStar_of_singleton (h : r.ways cs = [(a, m)])
    (hlt : m.length < cs.length) : (seq (lazyStar r) s).first? cs =
      (s.first? cs).or (((seq (lazyStar r) s).first? m).map (join a)) := by
  rw [first?_seq, ways_lazyStar_of_singleton h hlt, List.findSome?_cons, List.findSome?_map,
    first?_seq, List.map_findSome?]
  cases hs : s.first? cs with
  | some parts => simp
  | none =>
    rw [Option.map_none, Option.none_or]
    refine congrArg (List.findSome? · _) (funext fun parts => ?_)
    cases hm : s.first? parts.2 <;> simp [join, hm]

theorem first?_seq_lazyStar_of_nil (h : r.ways cs = []) :
    (seq (lazyStar r) s).first? cs = s.first? cs := by
  rw [first?_seq, ways_lazyStar_of_nil h]
  cases hs : s.first? cs <;> simp [hs]

end Star

/-- A repetition of a class takes the longest run of that class. -/
theorem first?_star_char (p : Char → Bool) (cs : List Char) :
    (star (char p)).first? cs = some (cs.takeWhile p, cs.dropWhile p) := by
  induction cs with
  | nil =>
    rw [first?, ways_star_of_nil rfl, List.head?_cons, List.takeWhile_nil, List.dropWhile_nil]
  | cons c cs ih =>
    by_cases hc : p c = true
    · have hways : (char p).ways (c :: cs) = [([c], cs)] := if_pos hc
      rw [first?, ways_star_of_singleton hways (Nat.lt_succ_self _), List.head?_append,
        List.head?_map, ← first?, ih]
      simp [hc, join]
    · have hways : (char p).ways (c :: cs) = [] := if_neg hc
      rw [first?, ways_star_of_nil hways]
      simp [hc]

end Regex

end Scriptlet
