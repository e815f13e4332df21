import Scriptlet.Parser.Grammar

/-!
# Phrases

The grammar over lists of tokens. A nonterminal is a relation `P ts rest a n`: the tokens of `ts`
that stand in front of `rest` are a phrase, `a` is its tree, and reading it takes `n` levels of
nesting. What stands behind a phrase belongs to the relation because the grammar looks at it in
three places: a name in front of an opening parenthesis is no phrase of its own, a sum ends only
where no additive operator follows, and a closing brace ends a statement without being part of it.

With `LB` for a line break:

```
Program    = LB* (Statement LB*)*
Braced     = { LB* (Statement LB*)* }
Statement  = ;  |  Braced  |  (let | var | const) Declared (, LB* Declared)* End
           | return Additive End  |  function Name ( (Parameter ,?)* ) Braced
           | Assignment End                                   not beginning with {
End        = ;  |  LB  |  nothing                             in front of }
Declared   = Name (= Assignment)?
Assignment = Additive (assignment-operator Assignment)?
Additive   = Primary (additive-operator Primary)*             not in front of an additive operator
Primary    = ( Assignment )  |  Body of Entry ,?  |  Name     not in front of (
           | Name ( (Additive ,?)* )  |  ... Additive  |  Number  |  String
Entry      = ... Additive  |  Key (: Additive)?
Key        = Name  |  [ Name ]
Parameter  = Name  |  Body of Binding ,?
Binding    = Name (: Name)?
Body of P  = { (LB* P)* LB* }
```

Levels are counted as they nest: a statement, an assignment and a primary take one each, on top of
what they contain, and the operand behind the `i`-th operator of a sum stands `i` levels deeper than
the first one.

## Main definitions

* `Phrase`, and `Phrase.Many`, `Phrase.Then`, `Phrase.After`, `Phrase.Body` to build them;
* `Phrase.Assignment`, `Phrase.Additive`, `Phrase.Primary`, `Phrase.Statement`, and the others;
* `Derivable`: the lists of tokens that are programs.

## Main results

* `Phrase.many_after_of_breaks`: line breaks in front of phrases are line breaks behind them;
* `Phrase.Primary.first`, `Phrase.Assignment.first`: what expressions start with.
-/

namespace Scriptlet

/-- A nonterminal of the grammar: `P ts rest a n` says that the tokens of `ts` in front of `rest`
are a phrase with the tree `a` and take `n` levels. -/
abbrev Phrase (α : Type) := List Token → List Token → α → Nat → Prop

/-- The kind of the first of some tokens. -/
def firstKind (ts : List Token) : Option Kind := ts.head?.map (·.kind)

@[simp] theorem firstKind_cons (t : Token) (ts : List Token) :
    firstKind (t :: ts) = some t.kind := rfl

/-- From the first token of `ts` to the last one in front of `rest`. -/
def spanOf (ts rest : List Token) : Span :=
  ⟨(ts.head?.map (·.span.start)).getD default,
    ((ts.take (ts.length - rest.length)).getLast?.map (·.span.stop)).getD default⟩

namespace Phrase

variable {α : Type}

/-! ### Building phrases -/

/-- Any number of phrases, one behind the other. -/
inductive Many (P : Phrase α) : Phrase (List α)
  | nil (ts : List Token) : Many P ts ts [] 0
  | cons {ts us rest : List Token} {a : α} {as : List α} {n m : Nat} :
      P ts us a n → Many P us rest as m → Many P ts rest (a :: as) (max n m)

/-- A phrase with a separator behind it. -/
inductive Then (P : Phrase α) (Q : List Token → List Token → Prop) : Phrase α
  | intro {ts us rest : List Token} {a : α} {n : Nat} :
      P ts us a n → Q us rest → Then P Q ts rest a n

/-- A phrase with a separator in front of it. -/
inductive After (Q : List Token → List Token → Prop) (P : Phrase α) : Phrase α
  | intro {ts us rest : List Token} {a : α} {n : Nat} :
      Q ts us → P us rest a n → After Q P ts rest a n

/-- Any number of line breaks. -/
inductive Breaks : List Token → List Token → Prop
  | nil (ts : List Token) : Breaks ts ts
  | cons {t : Token} {ts rest : List Token} :
      t.kind = .lineBreak → Breaks ts rest → Breaks (t :: ts) rest

/-- A comma, or nothing. -/
inductive OptionalComma : List Token → List Token → Prop
  | absent (ts : List Token) : OptionalComma ts ts
  | present {t : Token} {rest : List Token} : t.kind = .comma → OptionalComma (t :: rest) rest

/-- The end of a statement: a semicolon, a line break, or nothing in front of a closing brace. -/
inductive End : List Token → List Token → Prop
  | semicolon {t : Token} {rest : List Token} : t.kind = .semicolon → End (t :: rest) rest
  | lineBreak {t : Token} {rest : List Token} : t.kind = .lineBreak → End (t :: rest) rest
  | brace {rest : List Token} : firstKind rest = some .closeCurly → End rest rest

/-- Phrases between braces, with line breaks between them. -/
inductive Body (P : Phrase α) : Phrase (List α × Span)
  | intro {opening closing : Token} {ts us rest : List Token} {as : List α} {n : Nat} :
      opening.kind = .openCurly → Many (After Breaks P) ts us as n →
      Breaks us (closing :: rest) → closing.kind = .closeCurly →
      Body P (opening :: ts) rest (as, ⟨opening.span.start, closing.span.stop⟩) n

/-! ### Names and parameters -/

/-- A name. -/
inductive Name : Phrase Identifier
  | intro {t : Token} {rest : List Token} :
      t.kind = .identifier → Name (t :: rest) rest ⟨t.value, t.span⟩ 0

/-- The key of a property: a name, or a name in brackets. -/
inductive Key : Phrase Identifier
  | plain {ts rest : List Token} {id : Identifier} : Name ts rest id 0 → Key ts rest id 0
  | bracketed {opening closing : Token} {ts rest : List Token} {id : Identifier} :
      opening.kind = .openBracket → Name ts (closing :: rest) id 0 →
      closing.kind = .closeBracket → Key (opening :: ts) rest id 0

/-- A property taken out of a parameter. -/
inductive Binding : Phrase PatternProperty
  | plain {ts rest : List Token} {name : Identifier} :
      Name ts rest name 0 → Binding ts rest ⟨name, none, spanOf ts rest⟩ 0
  | renamed {colon : Token} {ts us rest : List Token} {name rename : Identifier} :
      Name ts (colon :: us) name 0 → colon.kind = .colon → Name us rest rename 0 →
      Binding ts rest ⟨name, some rename, spanOf ts rest⟩ 0

/-- A parameter: a name or a pattern. -/
inductive Parameter : Phrase Param
  | name {ts rest : List Token} {id : Identifier} :
      Name ts rest id 0 → Parameter ts rest (.identifier id) 0
  | pattern {ts rest : List Token} {properties : List PatternProperty} {span : Span} :
      Body (Then Binding OptionalComma) ts rest (properties, span) 0 →
      Parameter ts rest (.pattern ⟨properties, span⟩) 0

/-! ### Expressions -/

/-- The number that the text of a token denotes. -/
def numberOf (t : Token) : Binary64 := (Binary64.ofLiteral? t.value).getD default

/-- The text that a string stands for: without its quotes, and with its escapes decoded. -/
def textOf (t : Token) : String :=
  String.ofList (Text.unescape (t.value.toList.drop 1).dropLast)

/-- The tree of a sum, which leans to the left: every operator joins its operand to all that stands
in front of it. -/
def sumOf (left : Expr) : List (Token × Expr) → Expr
  | [] => left
  | (operator, right) :: more =>
    sumOf (.binary left operator right ⟨left.span.start, right.span.stop⟩) more

/-- The operators that assign: `=`, and an additive operator with `=` behind it. -/
inductive Assigns : Kind → Prop
  | simple : Assigns .simpleAssignment
  | complex : Assigns .complexAssignment

mutual

/-- A sum, or a sum, an assignment operator and the value assigned. -/
inductive Assignment : Phrase Expr
  | sum {ts rest : List Token} {e : Expr} {n : Nat} :
      Additive ts rest e n → Assignment ts rest e (n + 1)
  | assign {operator : Token} {ts us rest : List Token} {left right : Expr} {n m : Nat} :
      Additive ts (operator :: us) left n → Assigns operator.kind →
      Assignment us rest right m →
      Assignment ts rest
        (.assignment left operator right ⟨left.span.start, right.span.stop⟩) (max n m + 1)

/-- Operands with additive operators between them, joined from the left. -/
inductive Additive : Phrase Expr
  | intro {ts us rest : List Token} {first : Expr} {more : List (Token × Expr)} {n m : Nat} :
      Primary ts us first n → Terms us rest more m →
      firstKind rest ≠ some .additiveOperator →
      Additive ts rest (sumOf first more) (max n m)

/-- Operators with their operands. Each stands a level deeper than the one before. -/
inductive Terms : Phrase (List (Token × Expr))
  | nil (ts : List Token) : Terms ts ts [] 0
  | cons {operator : Token} {ts us rest : List Token} {e : Expr} {more : List (Token × Expr)}
      {n m : Nat} :
      operator.kind = .additiveOperator → Primary ts us e n → Terms us rest more m →
      Terms (operator :: ts) rest ((operator, e) :: more) (max n m + 1)

/-- An expression without operators. -/
inductive Primary : Phrase Expr
  | parenthesized {opening closing : Token} {ts rest : List Token} {e : Expr} {n : Nat} :
      opening.kind = .openParen → Assignment ts (closing :: rest) e n →
      closing.kind = .closeParen → Primary (opening :: ts) rest e (n + 1)
  | object {ts rest : List Token} {properties : List Property} {span : Span} {n : Nat} :
      Body (Then Entry OptionalComma) ts rest (properties, span) n →
      Primary ts rest (.object properties span) (n + 1)
  | name {ts rest : List Token} {id : Identifier} :
      Name ts rest id 0 → firstKind rest ≠ some .openParen →
      Primary ts rest (.identifier id) 1
  | call {opening closing : Token} {ts us rest : List Token} {callee : Identifier}
      {arguments : List Expr} {n : Nat} :
      Name ts (opening :: us) callee 0 → opening.kind = .openParen →
      Many (Then Additive OptionalComma) us (closing :: rest) arguments n →
      closing.kind = .closeParen →
      Primary ts rest (.call callee arguments ⟨callee.span.start, closing.span.stop⟩) (n + 1)
  | spread {dots : Token} {ts rest : List Token} {e : Expr} {n : Nat} :
      dots.kind = .spread → Additive ts rest e n →
      Primary (dots :: ts) rest (.spread dots e ⟨dots.span.start, e.span.stop⟩) (n + 1)
  | number {t : Token} {rest : List Token} :
      t.kind = .number → Primary (t :: rest) rest (.number (numberOf t) t.span) 1
  | string {t : Token} {rest : List Token} :
      t.kind = .string → Primary (t :: rest) rest (.string (textOf t) t.span) 1

/-- A property of an object, without its comma. A spread is a primary, and takes its level. -/
inductive Entry : Phrase Property
  | spread {dots : Token} {ts rest : List Token} {e : Expr} {n : Nat} :
      dots.kind = .spread → Additive ts rest e n →
      Entry (dots :: ts) rest
        (.spread (.spread dots e ⟨dots.span.start, e.span.stop⟩) (spanOf (dots :: ts) rest)) (n + 1)
  | keyValue {colon : Token} {ts us rest : List Token} {key : Identifier} {e : Expr} {n : Nat} :
      Key ts (colon :: us) key 0 → colon.kind = .colon → Additive us rest e n →
      Entry ts rest (.keyValue key e (spanOf ts rest)) n
  | shorthand {ts rest : List Token} {key : Identifier} :
      Key ts rest key 0 → Entry ts rest (.shorthand key (spanOf ts rest)) 0

end

/-! ### Statements -/

/-- A declared variable, with its first value if one is given. -/
inductive Declared : Phrase Declarator
  | plain {ts rest : List Token} {name : Identifier} :
      Name ts rest name 0 → Declared ts rest ⟨name, none, spanOf ts rest⟩ 0
  | valued {equals : Token} {ts us rest : List Token} {name : Identifier} {e : Expr} {n : Nat} :
      Name ts (equals :: us) name 0 → equals.kind = .simpleAssignment → Assignment us rest e n →
      Declared ts rest ⟨name, some e, spanOf ts rest⟩ n

/-- A comma and a declared variable, which may stand on a later line. -/
inductive NextDeclared : Phrase Declarator
  | intro {comma : Token} {ts us rest : List Token} {d : Declarator} {n : Nat} :
      comma.kind = .comma → Breaks ts us → Declared us rest d n →
      NextDeclared (comma :: ts) rest d n

/-- The words that start a declaration. -/
inductive Declares : Kind → DeclarationKind → Prop
  | letWord : Declares .letWord .letVariable
  | varWord : Declares .varWord .varVariable
  | constWord : Declares .constWord .constVariable

/-- Phrases between braces as a block, with line breaks behind each and in front of the first. -/
inductive Braced (P : Phrase Stmt) : Phrase Block
  | intro {opening closing : Token} {ts us rest : List Token} {body : List Stmt} {n : Nat} :
      opening.kind = .openCurly → Breaks ts us →
      Many (Then P Breaks) us (closing :: rest) body n → closing.kind = .closeCurly →
      Braced P (opening :: ts) rest ⟨body, ⟨opening.span.start, closing.span.stop⟩⟩ n

/-- A statement. -/
inductive Statement : Phrase Stmt
  | empty {t : Token} {rest : List Token} :
      t.kind = .semicolon → Statement (t :: rest) rest (.empty t.span) 1
  | block {ts rest : List Token} {b : Block} {n : Nat} :
      Braced Statement ts rest b n → Statement ts rest (.block b.body b.span) (n + 1)
  | declaration {word : Token} {kind : DeclarationKind} {ts us vs rest : List Token}
      {first : Declarator} {more : List Declarator} {n m : Nat} :
      Declares word.kind kind → Declared ts us first n → Many NextDeclared us vs more m →
      End vs rest →
      Statement (word :: ts) rest
        (.declaration kind (first :: more) (spanOf (word :: ts) vs)) (max n m + 1)
  | result {word : Token} {ts us rest : List Token} {e : Expr} {n : Nat} :
      word.kind = .returnWord → Additive ts us e n → End us rest →
      Statement (word :: ts) rest (.result e (spanOf (word :: ts) us)) (n + 1)
  | function {word opening closing : Token} {ts us vs rest : List Token} {name : Identifier}
      {params : List Param} {body : Block} {n : Nat} :
      word.kind = .functionWord → Name ts (opening :: us) name 0 → opening.kind = .openParen →
      Many (Then Parameter OptionalComma) us (closing :: vs) params 0 →
      closing.kind = .closeParen → Braced Statement vs rest body n →
      Statement (word :: ts) rest
        (.function name params body.body ⟨word.span.start, body.span.stop⟩) (n + 1)
  | expression {ts us rest : List Token} {e : Expr} {n : Nat} :
      firstKind ts ≠ some .openCurly → Assignment ts us e n → End us rest →
      Statement ts rest (.expression e e.span) (n + 1)

/-! ### The parser's words for it

The grammar writes out the tree of a sum and the operators that assign. The parser folds the
operands into a tree, and tests the kind of an operator. -/

/-- The tree of a sum is the one that the parser folds its operands into. -/
theorem sumOf_eq_foldl (left : Expr) (more : List (Token × Expr)) :
    sumOf left more = more.foldl Grammar.joinLeft left := by
  -- The fold carries the tree of what has been read, so the first operand varies.
  induction more generalizing left with
  | nil => rfl
  | cons part more ih => exact ih _

/-- The operators that assign are those that the parser takes for one. -/
theorem assigns_iff {kind : Kind} : Assigns kind ↔ kind.isAssignment = true := by
  refine ⟨fun h => by cases h <;> rfl, fun h => ?_⟩
  unfold Kind.isAssignment at h
  split at h
  · exact .simple
  · exact .complex
  · cases h

/-! ### Regrouping and counting -/

/-- Line breaks in front of the first phrase and behind each are line breaks in front of each and
behind the last. -/
theorem many_after_of_breaks {P : Phrase α} {ts us rest : List Token} {as : List α} {n : Nat}
    (hb : Breaks ts us) (h : Many (Then P Breaks) us rest as n) :
    ∃ vs, Many (After Breaks P) ts vs as n ∧ Breaks vs rest := by
  -- The line breaks behind a phrase go to the one behind it, so those in front vary.
  induction h generalizing ts with
  | nil us => exact ⟨ts, .nil ts, hb⟩
  | cons hP _ ih =>
    obtain ⟨hP, hQ⟩ := hP
    obtain ⟨vs, hM, hvs⟩ := ih hQ
    exact ⟨vs, .cons (.intro hb hP) hM, hvs⟩

/-- The other way around. -/
theorem many_then_of_after {P : Phrase α} {ts us rest : List Token} {as : List α} {n : Nat}
    (h : Many (After Breaks P) ts us as n) (hb : Breaks us rest) :
    ∃ vs, Breaks ts vs ∧ Many (Then P Breaks) vs rest as n := by
  induction h with
  | nil us => exact ⟨rest, hb, .nil rest⟩
  | cons hP _ ih =>
    obtain ⟨hQ, hP⟩ := hP
    obtain ⟨vs, hvs, hM⟩ := ih hb
    exact ⟨_, hQ, .cons (.intro hP hvs) hM⟩

theorem Binding.need_eq_zero {ts rest : List Token} {b : PatternProperty} {n : Nat}
    (h : Binding ts rest b n) : n = 0 := by
  cases h <;> rfl

/-- Phrases that take no levels take none together. -/
theorem Many.need_eq_zero {P : Phrase α} {ts rest : List Token} {as : List α} {n : Nat}
    (hP : ∀ {ts rest a n}, P ts rest a n → n = 0) (h : Many P ts rest as n) : n = 0 := by
  induction h with
  | nil ts => rfl
  | cons h _ ih => rw [hP h, ih, Nat.max_self]

theorem Parameter.need_eq_zero {ts rest : List Token} {p : Param} {n : Nat}
    (h : Parameter ts rest p n) : n = 0 := by
  cases h <;> rfl

theorem Key.need_eq_zero {ts rest : List Token} {key : Identifier} {n : Nat}
    (h : Key ts rest key n) : n = 0 := by
  cases h <;> rfl

/-! ### First tokens -/

/-- The kinds of token that an expression starts with. -/
def startsExpression : Kind → Bool
  | .openParen | .openCurly | .identifier | .spread | .number | .string => true
  | _ => false

theorem Body.first {P : Phrase α} {ts rest : List Token} {b : List α × Span} {n : Nat}
    (h : Body P ts rest b n) : firstKind ts = some .openCurly := by
  obtain ⟨ho⟩ := h
  simp [ho]

theorem Name.first {ts rest : List Token} {id : Identifier} {n : Nat} (h : Name ts rest id n) :
    firstKind ts = some .identifier := by
  obtain ⟨hk⟩ := h
  simp [hk]

/-- A name stands where its token does. -/
theorem Name.start {ts rest : List Token} {id : Identifier} {n : Nat} (h : Name ts rest id n) :
    ts.head?.map (·.span.start) = some id.span.start := by
  obtain ⟨-⟩ := h
  rfl

/-- A key starts with a name or with a bracket. -/
theorem Key.first {ts rest : List Token} {key : Identifier} {n : Nat} (h : Key ts rest key n) :
    ∃ t, ts.head? = some t ∧ (t.kind = .identifier ∨ t.kind = .openBracket) := by
  cases h with
  | plain h =>
    obtain ⟨hk⟩ := h
    exact ⟨_, rfl, .inl hk⟩
  | bracketed ho => exact ⟨_, rfl, .inr ho⟩

/-- An expression starts with a token of one of a few kinds. -/
theorem Primary.first {ts rest : List Token} {e : Expr} {n : Nat} (h : Primary ts rest e n) :
    ∃ kind, firstKind ts = some kind ∧ startsExpression kind = true := by
  cases h with
  | parenthesized ho => exact ⟨_, firstKind_cons .., by rw [ho]; rfl⟩
  | object h => exact ⟨_, h.first, rfl⟩
  | name h => exact ⟨_, h.first, rfl⟩
  | call h => exact ⟨_, h.first, rfl⟩
  | spread hd => exact ⟨_, firstKind_cons .., by rw [hd]; rfl⟩
  | number hk => exact ⟨_, firstKind_cons .., by rw [hk]; rfl⟩
  | string hk => exact ⟨_, firstKind_cons .., by rw [hk]; rfl⟩

theorem Additive.first {ts rest : List Token} {e : Expr} {n : Nat} (h : Additive ts rest e n) :
    ∃ kind, firstKind ts = some kind ∧ startsExpression kind = true := by
  obtain ⟨h, -, -⟩ := h
  exact h.first

theorem Assignment.first {ts rest : List Token} {e : Expr} {n : Nat} (h : Assignment ts rest e n) :
    ∃ kind, firstKind ts = some kind ∧ startsExpression kind = true := by
  cases h with
  | sum h => exact h.first
  | assign h => exact h.first

/-- Of the expressions without operators only a spread starts with three dots. -/
theorem Primary.entry {ts rest : List Token} {e : Expr} {n : Nat} (h : Primary ts rest e n)
    (hs : firstKind ts = some .spread) : ∃ p, Entry ts rest p n := by
  cases h with
  | spread hd he => exact ⟨_, .spread hd he⟩
  | parenthesized ho => simp [ho] at hs
  | object h => simp [h.first] at hs
  | name h => simp [h.first] at hs
  | call h => simp [h.first] at hs
  | number hk => simp [hk] at hs
  | string hk => simp [hk] at hs

/-- Behind a statement there is a semicolon, a line break or a closing brace. -/
theorem End.first {ts rest : List Token} (h : End ts rest) : firstKind ts = some .semicolon ∨
    firstKind ts = some .lineBreak ∨ firstKind ts = some .closeCurly := by
  cases h with
  | semicolon hk => exact .inl (by rw [firstKind_cons, hk])
  | lineBreak hk => exact .inr (.inl (by rw [firstKind_cons, hk]))
  | brace hb => exact .inr (.inr hb)

theorem Declared.first {ts rest : List Token} {d : Declarator} {n : Nat}
    (h : Declared ts rest d n) : firstKind ts = some .identifier := by
  cases h with
  | plain hname => exact hname.first
  | valued hname => exact hname.first

/-- What a statement starts with. -/
theorem Statement.first {ts rest : List Token} {a : Stmt} {n : Nat} (h : Statement ts rest a n) :
    ∃ kind, firstKind ts = some kind ∧ kind ≠ .lineBreak ∧ kind ≠ .closeCurly := by
  cases h with
  | empty hk => exact ⟨_, firstKind_cons .., by simp [hk]⟩
  | block h =>
    obtain ⟨ho⟩ := h
    exact ⟨_, firstKind_cons .., by simp [ho]⟩
  | declaration hword =>
    refine ⟨_, firstKind_cons .., ?_⟩
    generalize Token.kind _ = word at hword
    cases hword <;> simp
  | result hk => exact ⟨_, firstKind_cons .., by simp [hk]⟩
  | function hk => exact ⟨_, firstKind_cons .., by simp [hk]⟩
  | expression _ he =>
    obtain ⟨kind, hk, hstart⟩ := he.first
    refine ⟨kind, hk, ?_, ?_⟩ <;> rintro rfl <;> cases hstart

end Phrase

/-- The tokens are a program, `p` is its tree, and reading it takes `n` levels. The span of a
program starts at the start of the source, whose label is `file`. -/
inductive Derivable (file : String) (ts : List Token) : Program → Nat → Prop
  | intro {us : List Token} {body : List Stmt} {n : Nat} :
      Phrase.Breaks ts us → Phrase.Many (Phrase.Then Phrase.Statement Phrase.Breaks) us [] body n →
      Derivable file ts
        ⟨body, ⟨.of file 0, (ts.getLast?.map (·.span.stop)).getD (.of file 0)⟩⟩ n

end Scriptlet
