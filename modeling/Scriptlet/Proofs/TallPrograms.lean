import Scriptlet.Proofs.Recognition
import Scriptlet.Proofs.TreeHeight

/-!
# Programs as high as their levels allow

For every limit there is a source that is accepted under it and whose tree is `maxHeight` of it
high. It is a sum whose first operand is a call, and the argument of the call is such a sum again:

```
return f(f(f())+f())+f()+f();
```

Each sum has as many operators as there are levels left for the operands behind them, and the call
in front, which takes all levels there are, stands below all of them in the tree.

## Main definitions

* `Scans`: tokens in front of what a scanner has to come;
* `Written`: texts whose tokens are a phrase, wherever they stand;
* `tower`, `tallSource`: the sums, and the sources made of them.

## Main results

* `exists_parseSource_height_eq`: `maxHeight` is attained;
* `parseSource_height_le_limit_iff`: where the limit bounds the height of trees.
-/

namespace Scriptlet

open Scriptlet.Phrase

/-! ### Scanning a given text -/

namespace Scanner

/-- Behind the text there is nothing, or a line break. -/
theorem breaks_of_rest_eq_nil {s : Scanner} (hrest : s.rest = []) :
    ∃ ts, s.feed = ⟨ts, none⟩ ∧ Breaks ts [] := by
  by_cases hf : s.finished = true
  · exact ⟨[], feed_of_next_eq_none (next_of_finished hrest hf), .nil []⟩
  · refine ⟨_, feed_of_rest_eq_nil hrest (by simpa using hf), ?_⟩
    split
    · exact .nil []
    · exact .cons rfl (.nil [])

end Scanner

/-- The tokens `c` stand in front of all that another scanner has to come. -/
def Scans (s : Scanner) (c : List Token) (s' : Scanner) : Prop :=
  s.feed = ⟨c ++ s'.feed.tokens, s'.feed.fault⟩

namespace Scans

variable {s s' s'' : Scanner} {c d : List Token} {p : Pattern} {text rest : List Char}

theorem refl (s : Scanner) : Scans s [] s := rfl

theorem trans (h : Scans s c s') (h' : Scans s' d s'') : Scans s (c ++ d) s'' := by
  rw [Scans, h, h', List.append_assoc]

/-- A text that stands for a token. -/
theorem token {kind : Kind} {value : String} (hit : firstMatch? s.rest = some (p, text, rest))
    (htoken : p.token? s.lastKind text = some (kind, value)) :
    ∃ t s', t.kind = kind ∧ s'.rest = rest ∧ Scans s [t] s' := by
  have hnext := Scanner.next_of_firstMatch? hit
  rw [htoken] at hnext
  exact ⟨_, _, rfl, rfl, Scanner.feed_of_next_eq_some hnext⟩

/-- A text that stands for none. -/
theorem skip (hit : firstMatch? s.rest = some (p, text, rest))
    (htoken : p.token? s.lastKind text = none) : ∃ s', s'.rest = rest ∧ Scans s [] s' := by
  have hnext := Scanner.next_of_firstMatch? hit
  rw [htoken] at hnext
  exact ⟨s.skip text rest, rfl, Scanner.feed_of_next_eq hnext⟩

/-- A fixed text of the table. -/
theorem fixed {kind : Kind} (hit : firstMatch? s.rest = some (.fixed kind text, text, rest)) :
    ∃ t s', t.kind = kind ∧ s'.rest = rest ∧ Scans s [t] s' :=
  token hit rfl

end Scans

/-! ### Texts of phrases -/

section Written

variable {α : Type} {P : Phrase α} {height : α → Nat} {F : Option Kind → Prop} {text : List Char}
  {n h : Nat}

/-- Wherever the text stands, its tokens are a phrase that takes `n` levels and is `h` high, if what
follows satisfies `F`. -/
def Written (text : List Char) (F : Option Kind → Prop) (P : Phrase α) (height : α → Nat)
    (n h : Nat) : Prop :=
  ∀ (s : Scanner) (tail : List Char), s.rest = text ++ tail →
    ∃ c a s', s'.rest = tail ∧ Scans s c s' ∧ height a = h ∧
      ∀ us, F (firstKind us) → P (c ++ us) us a n

theorem written_nil : Written [] F (Many P) (tallest height) 0 0 :=
  fun s _ hs => ⟨[], [], s, hs, .refl s, rfl, fun us _ => .nil us⟩

/-- A sum as the only argument. -/
theorem written_argument
    (hsum : Written text (· ≠ some .additiveOperator) Additive Expr.height n h) :
    Written text (· = some .closeParen) (Many (Then Additive OptionalComma))
      (tallest Expr.height) n h := by
  intro s tail hs
  obtain ⟨c, e, s', hrest, hscans, hheight, he⟩ := hsum s tail hs
  refine ⟨c, [e], s', hrest, hscans, ?_, fun us hus => ?_⟩
  · rw [tallest, tallest, hheight, Nat.max_zero]
  · have hsum := he us (by simp [hus])
    have hlist := Many.cons (Then.intro hsum (OptionalComma.absent us)) (.nil us)
    rw [Nat.max_zero] at hlist
    exact hlist

/-- A call with arguments. -/
theorem written_call (harguments : Written text (· = some .closeParen)
      (Many (Then Additive OptionalComma)) (tallest Expr.height) n h) :
    Written ('f' :: '(' :: text ++ [')']) (fun _ => True) Primary Expr.height (n + 1) (h + 1) := by
  intro s tail hs
  rw [List.append_assoc] at hs
  obtain ⟨t, s₁, ht, hs₁, hscans₁⟩ :=
    Scans.token (p := .word) (by rw [hs]; rfl) (show _ = some (Kind.identifier, "f") from rfl)
  obtain ⟨o, s₂, ho, hs₂, hscans₂⟩ := Scans.fixed (s := s₁) (by rw [hs₁]; rfl)
  obtain ⟨c, es, s₃, hs₃, hscans₃, hheight, hes⟩ := harguments s₂ ([')'] ++ tail) hs₂
  obtain ⟨u, s₄, hu, hs₄, hscans₄⟩ := Scans.fixed (s := s₃) (by rw [hs₃]; rfl)
  have hscans := hscans₁.trans (hscans₂.trans (hscans₃.trans hscans₄))
  refine ⟨_, .call ⟨t.value, t.span⟩ es ⟨t.span.start, u.span.stop⟩, s₄, hs₄, hscans, ?_, ?_⟩
  · rw [Expr.height, Expr.heights_eq, hheight]
  · intro us _
    have hlist := hes (u :: us) (by rw [firstKind_cons, hu])
    have hcall := Primary.call (.intro ht) ho hlist hu
    simpa using hcall

end Written

/-! ### The sums -/

/-- As many additions of a call without arguments as given. -/
def additions : Nat → List Char
  | 0 => []
  | k + 1 => '+' :: ('f' :: '(' :: [] ++ [')']) ++ additions k

/-- A sum that takes one level more than given. -/
def tower : Nat → List Char
  | 0 => ('f' :: '(' :: [] ++ [')']) ++ additions 0
  | n + 1 => ('f' :: '(' :: tower n ++ [')']) ++ additions (n + 1)

/-- Each addition puts a node on top of what is left of it. -/
theorem exists_terms (k : Nat) (s : Scanner) (tail : List Char)
    (hs : s.rest = additions k ++ tail) :
    ∃ c more m s', s'.rest = tail ∧ Scans s c s' ∧ m ≤ k + 1 ∧
      (∀ us, Terms (c ++ us) us more m) ∧
      ∀ left : Expr, 0 < left.height →
        (sumOf left more).height = left.height + k := by
  -- Each summand is a call without arguments, and adds one to the height of what stands in front of
  -- it.
  induction k generalizing s with
  | zero =>
    refine ⟨[], [], 0, s, hs, .refl s, Nat.zero_le _, fun us => .nil us, fun left _ => rfl⟩
  | succ k ih =>
    rw [additions, List.append_assoc, List.cons_append, List.append_assoc] at hs
    obtain ⟨o, s₁, ho, hs₁, hscans₁⟩ := Scans.fixed (s := s) (by rw [hs]; rfl)
    obtain ⟨c, e, s₂, hs₂, hscans₂, hheight, he⟩ :=
      written_call (n := 0) (h := 0) written_nil s₁ (additions k ++ tail) (by simpa using hs₁)
    obtain ⟨d, more, m, s₃, hs₃, hscans₃, hm, hmore, hfold⟩ := ih s₂ hs₂
    refine ⟨_, (o, e) :: more, max 1 m + 1, s₃, hs₃, hscans₁.trans (hscans₂.trans hscans₃), ?_,
      fun us => ?_, fun left hleft => ?_⟩
    · omega
    · have hterms := Terms.cons ho (he (d ++ us) trivial) (hmore us)
      simpa using hterms
    · have hjoin : (Expr.binary left o e ⟨left.span.start, e.span.stop⟩).height =
          max left.height e.height + 1 := by rw [Expr.height]
      rw [sumOf, hfold _ (by omega), hjoin]
      omega

/-- An operand and as many additions as there are levels for. -/
theorem written_sum {text : List Char} {k h : Nat}
    (hoperand : Written text (fun _ => True) Primary Expr.height (k + 1) (h + 1)) :
    Written (text ++ additions k) (· ≠ some .additiveOperator) Additive Expr.height (k + 1)
      (h + 1 + k) := by
  intro s tail hs
  rw [List.append_assoc] at hs
  obtain ⟨c, e, s₁, hs₁, hscans₁, hheight, he⟩ := hoperand s (additions k ++ tail) hs
  obtain ⟨d, more, m, s₂, hs₂, hscans₂, hm, hmore, hfold⟩ := exists_terms k s₁ tail hs₁
  refine ⟨c ++ d, sumOf e more, s₂, hs₂, hscans₁.trans hscans₂, ?_, ?_⟩
  · rw [hfold e (by omega), hheight]
  · intro us hus
    have hsum := Additive.intro (he (d ++ us) trivial) (hmore us) hus
    rw [Nat.max_eq_left hm] at hsum
    rw [List.append_assoc]
    exact hsum

theorem written_tower (n : Nat) :
    Written (tower n) (· ≠ some .additiveOperator) Additive Expr.height (n + 1)
      (triangle (n + 1)) := by
  induction n with
  | zero => exact written_sum (written_call written_nil)
  | succ n ih =>
    have hheight : triangle (n + 1 + 1) = triangle (n + 1) + 1 + (n + 1) := by
      rw [triangle_succ]
      omega
    rw [hheight]
    exact written_sum (written_call (written_argument ih))

theorem exists_tower_eq (n : Nat) : ∃ cs, tower n = 'f' :: cs := by
  cases n with
  | zero => exact ⟨_, rfl⟩
  | succ n => exact ⟨_, rfl⟩

/-! ### The sources -/

/-- A source that is as high as a number of levels allows. -/
def tallSource : Nat → List Char
  | 0 => []
  | 1 => [';']
  | n + 2 => 'r' :: 'e' :: 't' :: 'u' :: 'r' :: 'n' :: ' ' :: (tower n ++ [';'])

/-- Tokens of a statement and nothing else. -/
theorem exists_derivable_of_statement (file : String) {ts rest : List Token} {a : Stmt} {n : Nat}
    (h : Statement ts rest a n) (hrest : Breaks rest []) :
    ∃ p, Derivable file ts p n ∧ p.height = a.height := by
  have hbody := Many.cons (Then.intro h hrest) (.nil [])
  rw [Nat.max_zero] at hbody
  refine ⟨_, .intro (.nil ts) hbody, ?_⟩
  rw [Program.height, tallest, tallest, Nat.max_zero]

theorem exists_derivable_tallSource (file : String) (n : Nat) :
    ∃ ts p, (Scanner.ofSource file (String.ofList (tallSource n))).feed = ⟨ts, none⟩ ∧
      Derivable file ts p n ∧ p.height = maxHeight n := by
  have hrest : (Scanner.ofSource file (String.ofList (tallSource n))).rest = tallSource n :=
    String.toList_ofList
  generalize Scanner.ofSource file (String.ofList (tallSource n)) = s at hrest
  -- With no level there is nothing, with one there is an empty statement, and with two or more
  -- there is a tower.
  match n with
  | 0 =>
    obtain ⟨ts, hfeed, hbreaks⟩ := Scanner.breaks_of_rest_eq_nil hrest
    exact ⟨ts, _, hfeed, .intro hbreaks (.nil []), rfl⟩
  | 1 =>
    obtain ⟨t, s₁, ht, hs₁, hscans⟩ := Scans.fixed (s := s) (by rw [hrest]; rfl)
    obtain ⟨ts, hfeed, hbreaks⟩ := Scanner.breaks_of_rest_eq_nil hs₁
    obtain ⟨p, hp, hheight⟩ := exists_derivable_of_statement file (.empty ht) hbreaks
    refine ⟨t :: ts, p, ?_, hp, ?_⟩
    · rw [hscans, hfeed]
      rfl
    · rw [hheight, Stmt.height]
      rfl
  | n + 2 =>
    obtain ⟨cs, hcs⟩ := exists_tower_eq n
    have hword : firstMatch? s.rest =
        some (.word, ['r', 'e', 't', 'u', 'r', 'n'], ' ' :: (tower n ++ [';'])) := by
      rw [hrest]
      rfl
    obtain ⟨t, s₁, ht, hs₁, hscans₁⟩ :=
      Scans.token hword (show _ = some (Kind.returnWord, "return") from rfl)
    have hblank : firstMatch? s₁.rest = some (.blanks, [' '], tower n ++ [';']) := by
      rw [hs₁, hcs]
      rfl
    obtain ⟨s₂, hs₂, hscans₂⟩ := Scans.skip hblank rfl
    obtain ⟨c, e, s₃, hs₃, hscans₃, hheight, he⟩ := written_tower n s₂ [';'] hs₂
    obtain ⟨u, s₄, hu, hs₄, hscans₄⟩ := Scans.fixed (s := s₃) (by rw [hs₃]; rfl)
    obtain ⟨ts, hfeed, hbreaks⟩ := Scanner.breaks_of_rest_eq_nil hs₄
    have hsum := he (u :: ts) (by simp [hu])
    obtain ⟨p, hp, hp'⟩ := exists_derivable_of_statement file
      (Statement.result ht hsum (.semicolon hu)) hbreaks
    refine ⟨_, p, ?_, hp, ?_⟩
    · rw [hscans₁.trans (hscans₂.trans (hscans₃.trans hscans₄)), hfeed]
      simp
    · rw [hp', Stmt.height, hheight]
      rfl

/-- Under every limit a program as high as its levels allow is accepted. -/
theorem exists_parseSource_height_eq (file : Option String) (m : Nat) :
    ∃ source p, parseSource source ⟨file, m⟩ = .ok p ∧ p.height = maxHeight m := by
  obtain ⟨ts, p, hfeed, hd, hheight⟩ := exists_derivable_tallSource (file.getD defaultLabel) m
  rcases @parseSource_of_derivable _ ⟨file, m⟩ ts p m (tokenize_eq_ok_iff.2 hfeed) hd with
    ⟨-, hok⟩ | ⟨hlt, -⟩
  · exact ⟨_, p, hok, hheight⟩
  · exact absurd hlt (Nat.lt_irrefl m)

/-! ### The limit and the height -/

theorem maxHeight_le_iff (m : Nat) : maxHeight m ≤ m ↔ m ≤ 2 := by
  match m with
  | 0 => decide
  | 1 => decide
  | 2 => decide
  | k + 3 =>
    have hpos : triangle 0 < triangle (k + 1) := strictMono_triangle (by omega)
    rw [maxHeight, triangle_succ]
    omega

/-- What the limit says of the height of the trees returned. A source is no higher than any limit
under which it is accepted exactly if it is no higher than the number of levels it takes, which is
so where its sums are plain. All sources are no higher than a given limit exactly if the limit is at
most two; in general they are as high as `maxHeight` of the limit, and no higher. -/
theorem parseSource_height_le_limit_iff (file : Option String) :
    (∀ source ts p n, tokenize source file = .ok ts → Derivable (file.getD defaultLabel) ts p n →
      ((∀ m, parseSource source ⟨file, m⟩ = .ok p → p.height ≤ m) ↔ p.height ≤ n)) ∧
    (∀ source ts m p, tokenize source file = .ok ts → PlainSums ts →
      parseSource source ⟨file, m⟩ = .ok p → p.height ≤ m) ∧
    (∀ m, (∀ source p, parseSource source ⟨file, m⟩ = .ok p → p.height ≤ m) ↔ m ≤ 2) ∧
    (∀ source m p, parseSource source ⟨file, m⟩ = .ok p → p.height ≤ maxHeight m) ∧
    (∀ m, ∃ source p, parseSource source ⟨file, m⟩ = .ok p ∧ p.height = maxHeight m) := by
  have hbound : ∀ source m p, parseSource source ⟨file, m⟩ = .ok p → p.height ≤ maxHeight m := by
    intro source m p h
    obtain ⟨ts, n, -, hd, hn⟩ := exists_derivable_of_parseSource h
    exact hd.height_le_maxHeight.trans (strictMono_maxHeight.monotone hn)
  refine ⟨fun source ts p n htokens hd => ⟨fun h => ?_, fun h m hm => ?_⟩,
    fun source ts m p htokens hts h => ?_, fun m => ⟨fun h => ?_, fun hm source p h => ?_⟩, hbound,
    exists_parseSource_height_eq file⟩
  · -- The number of levels it takes is a limit under which it is accepted.
    rcases @parseSource_of_derivable source ⟨file, n⟩ ts p n htokens hd with ⟨-, hok⟩ | ⟨hlt, -⟩
    · exact h n hok
    · exact absurd hlt (Nat.lt_irrefl n)
  · rcases @parseSource_of_derivable source ⟨file, m⟩ ts p n htokens hd with ⟨hn, -⟩ | ⟨-, e, he, -⟩
    · exact h.trans hn
    · rw [hm] at he
      cases he
  · obtain ⟨ts', n, htokens', hd, hn⟩ := exists_derivable_of_parseSource h
    rw [htokens] at htokens'
    cases htokens'
    exact (hd.height_le_of_plainSums hts).trans hn
  · -- The tallest program of this limit has to keep to it.
    obtain ⟨source, p, hok, hheight⟩ := exists_parseSource_height_eq file m
    rw [← maxHeight_le_iff, ← hheight]
    exact h source p hok
  · exact (hbound source m p h).trans ((maxHeight_le_iff m).2 hm)

/-- A sum, a call and a name below the statement, under a limit of three. -/
theorem not_parseSource_height_le_limit :
    ¬ ∀ p, parseSource "return f(a)+b" ⟨none, 3⟩ = .ok p → p.height ≤ 3 := by
  have hrun : ((parseSource "return f(a)+b" ⟨none, 3⟩).toOption.map Program.height) = some 4 := by
    decide +kernel
  intro h
  cases hp : parseSource "return f(a)+b" ⟨none, 3⟩ with
  | error e =>
    rw [hp] at hrun
    cases hrun
  | ok p =>
    rw [hp] at hrun
    have hheight : p.height = 4 := Option.some.inj hrun
    have hle := h p hp
    omega

end Scriptlet
