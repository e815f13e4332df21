import Scriptlet.Proofs.Levels

/-!
# Trees and the tokens they are woven from

A tree keeps some of the tokens it was read from as its leaves: names, numbers, strings and
operators. The others, words and punctuation, are only passed over on the way. Seen like this a
tree is a `Node`: a leaf, or a branch with a span and with the nodes directly below it in the order
of the source. A declared variable with a first value is a node of its own sort, because the equals
sign in it is a token that is neither kept nor mere punctuation.

A node *covers* the tokens from its first to its last: its span is theirs, and the nodes below it
are *woven* into them, each covering tokens of its own, in order, with nothing but words and
punctuation between them. The parentheses around an expression are outside of what it covers, and
that is why a sum may start behind the parenthesis that its first operand stands in.

That the tree of every program is woven into its tokens is proved along the grammar. What is to be
known of spans and of leaves can then be read off nodes, whatever productions they come from.

## Main definitions

* `Leaf`, `Node`, and the views of trees as nodes;
* `Token.leaf?`: the leaf that a token is kept as;
* `Node.Covers`, `Node.Weave`: nodes over tokens.

## Main results

* `Node.Weave.append`: weaving goes on from left to right;
* `Phrase.weaves_statement`, `Derivable.weave`: the statements of a program are woven into its
  tokens.
-/

namespace Scriptlet

/-! ### Trees as nodes -/

/-- What a tree keeps of a single token. -/
inductive Leaf where
  /-- A name. -/
  | identifier (id : Identifier)
  /-- A number. -/
  | number (value : Binary64) (span : Span)
  /-- A string, decoded. -/
  | string (value : String) (span : Span)
  /-- The operator of a sum. -/
  | sum (operator : Token)
  /-- The operator of an assignment. -/
  | assignment (operator : Token)
  /-- The three dots of a spread. -/
  | spread (operator : Token)

/-- The span of a leaf. -/
def Leaf.span : Leaf → Span
  | identifier id => id.span
  | number _ span | string _ span => span
  | sum operator | assignment operator | spread operator => operator.span

/-- The leaf that a token is kept as; `none` for words and punctuation. -/
def Token.leaf? (t : Token) : Option Leaf :=
  match t.kind with
  | .identifier => some (.identifier ⟨t.value, t.span⟩)
  | .number => some (.number (Phrase.numberOf t) t.span)
  | .string => some (.string (Phrase.textOf t) t.span)
  | .additiveOperator => some (.sum t)
  | .simpleAssignment | .complexAssignment => some (.assignment t)
  | .spread => some (.spread t)
  | _ => none

/-- A tree as spans and leaves. -/
inductive Node where
  /-- A token that was kept. -/
  | leaf (leaf : Leaf)
  /-- A span, and the nodes directly below in the order of the source. -/
  | branch (span : Span) (children : List Node)
  /-- A declared variable, with its name and its first value. -/
  | initialised (span : Span) (name : Identifier) (value : Node)

namespace Node

/-- The span of a node. -/
def span : Node → Span
  | leaf l => l.span
  | branch span _ | initialised span _ _ => span

/-- The nodes directly below a node. -/
def children : Node → List Node
  | leaf _ => []
  | branch _ children => children
  | initialised _ name value => [leaf (.identifier name), value]

end Node

/-- A name as a node. -/
def Identifier.node (id : Identifier) : Node := .leaf (.identifier id)

mutual

/-- An expression as a node. -/
def Expr.node : Expr → Node
  | .identifier id => id.node
  | .number value span => .leaf (.number value span)
  | .string value span => .leaf (.string value span)
  | .object properties span => .branch span (Property.nodes properties)
  | .binary left operator right span => .branch span [left.node, .leaf (.sum operator), right.node]
  | .assignment assignee operator value span =>
    .branch span [assignee.node, .leaf (.assignment operator), value.node]
  | .spread operator operand span => .branch span [.leaf (.spread operator), operand.node]
  | .call callee arguments span => .branch span (callee.node :: Expr.nodes arguments)

/-- A property as a node. -/
def Property.node : Property → Node
  | .keyValue key value span => .branch span [key.node, value.node]
  | .shorthand key span => .branch span [key.node]
  | .spread init span => .branch span [init.node]

/-- Expressions as nodes. -/
def Expr.nodes : List Expr → List Node
  | [] => []
  | e :: es => e.node :: Expr.nodes es

/-- Properties as nodes. -/
def Property.nodes : List Property → List Node
  | [] => []
  | p :: ps => p.node :: Property.nodes ps

end

/-- A property taken out of a parameter as a node. -/
def PatternProperty.node (p : PatternProperty) : Node :=
  .branch p.span (p.name.node :: (p.rename.map Identifier.node).toList)

/-- A parameter as a node. -/
def Param.node : Param → Node
  | .identifier id => id.node
  | .pattern p => .branch p.span (p.properties.map PatternProperty.node)

/-- A declared variable as a node. -/
def Declarator.node (d : Declarator) : Node :=
  match d.init with
  | none => .branch d.span [d.name.node]
  | some e => .initialised d.span d.name e.node

mutual

/-- A statement as a node. -/
def Stmt.node : Stmt → Node
  | .empty span => .branch span []
  | .block body span => .branch span (Stmt.nodes body)
  | .declaration _ declarators span => .branch span (declarators.map Declarator.node)
  | .result value span => .branch span [value.node]
  | .function name params body span =>
    .branch span (name.node :: (params.map Param.node ++ Stmt.nodes body))
  | .expression value span => .branch span [value.node]

/-- Statements as nodes. -/
def Stmt.nodes : List Stmt → List Node
  | [] => []
  | a :: as => a.node :: Stmt.nodes as

end

/-- A program as a node. -/
def Program.node (p : Program) : Node := .branch p.span (p.body.map Stmt.node)

theorem Expr.nodes_eq (es : List Expr) : Expr.nodes es = es.map Expr.node := by
  induction es with
  | nil => simp [Expr.nodes]
  | cons e es ih => simp [Expr.nodes, ih]

theorem Property.nodes_eq (ps : List Property) : Property.nodes ps = ps.map Property.node := by
  induction ps with
  | nil => simp [Property.nodes]
  | cons p ps ih => simp [Property.nodes, ih]

theorem Stmt.nodes_eq (as : List Stmt) : Stmt.nodes as = as.map Stmt.node := by
  induction as with
  | nil => simp [Stmt.nodes]
  | cons a as ih => simp [Stmt.nodes, ih]

/-- The node of an expression has the expression's span. -/
@[simp] theorem Expr.span_node (e : Expr) : e.node.span = e.span := by
  cases e <;> simp [Expr.node, Expr.span, Node.span, Identifier.node, Leaf.span]

/-! ### Tokens that are passed over -/

/-- The tokens are words and punctuation, of which a tree keeps nothing. -/
def Silent (c : List Token) : Prop := ∀ t ∈ c, t.leaf? = none

@[simp] theorem silent_nil : Silent [] := by simp [Silent]

@[simp] theorem silent_cons {t : Token} {c : List Token} :
    Silent (t :: c) ↔ t.leaf? = none ∧ Silent c := by
  simp [Silent]

@[simp] theorem silent_append {c d : List Token} : Silent (c ++ d) ↔ Silent c ∧ Silent d := by
  simp [Silent, or_imp, forall_and]

/-- The span is that of the tokens, from the first to the last, and the first is no line break. -/
def Frames (c : List Token) (span : Span) : Prop :=
  (∃ t, c.head? = some t ∧ t.kind ≠ .lineBreak ∧ t.span.start = span.start) ∧
    ∃ t, c.getLast? = some t ∧ t.span.stop = span.stop

namespace Frames

/-- A token bounds its own span. -/
theorem singleton {t : Token} (h : t.kind ≠ .lineBreak) : Frames [t] t.span :=
  ⟨⟨t, rfl, h, rfl⟩, t, rfl, rfl⟩

/-- From the first of some tokens to the last of others that stand behind them. -/
theorem append {c d : List Token} {span span' : Span} (h : Frames c span) (m : List Token)
    (h' : Frames d span') : Frames (c ++ (m ++ d)) ⟨span.start, span'.stop⟩ := by
  obtain ⟨⟨t, ht, hk, hstart⟩, -⟩ := h
  obtain ⟨-, u, hu, hstop⟩ := h'
  refine ⟨⟨t, ?_, hk, hstart⟩, u, ?_, hstop⟩
  · rw [List.head?_append, ht, Option.some_or]
  · rw [List.getLast?_append, List.getLast?_append, hu, Option.some_or, Option.some_or]

/-- The span of a phrase is that of its tokens. -/
theorem spanOf {c rest : List Token} {kind : Kind} (hfirst : firstKind c = some kind)
    (hkind : kind ≠ .lineBreak) : Frames c (Scriptlet.spanOf (c ++ rest) rest) := by
  cases c with
  | nil => cases hfirst
  | cons t c =>
    cases hfirst
    refine ⟨⟨t, rfl, hkind, rfl⟩, (t :: c).getLast (by simp), List.getLast?_eq_some_getLast _, ?_⟩
    have htake : ((t :: c) ++ rest).take (((t :: c) ++ rest).length - rest.length) = t :: c := by
      rw [List.length_append, Nat.add_sub_cancel, List.take_left]
    rw [Scriptlet.spanOf, htake, List.getLast?_eq_some_getLast (by simp)]
    rfl

end Frames

namespace Node

/-! ### Covering and weaving -/

mutual

/-- The node is read from exactly these tokens, the first and the last of which bound its span. -/
def Covers : Node → List Token → Prop
  | leaf l, c => ∃ t, c = [t] ∧ t.leaf? = some l
  | branch span children, c => Frames c span ∧ Weave children c
  | initialised span name value, c => Frames c span ∧
    ∃ t equals pre core post, c = t :: equals :: (pre ++ (core ++ post)) ∧
      t.leaf? = some (.identifier name) ∧ equals.kind = .simpleAssignment ∧
      Silent pre ∧ Covers value core ∧ Silent post

/-- The nodes are read from the tokens one behind the other, and what stands between them is passed
over. -/
def Weave : List Node → List Token → Prop
  | [], c => Silent c
  | n :: ns, c => ∃ pre core post, c = pre ++ (core ++ post) ∧ Silent pre ∧ Covers n core ∧
      Weave ns post

end

variable {n : Node} {ns ms : List Node} {c d : List Token} {t : Token}

theorem Covers.weave (h : Covers n c) : Weave [n] c := by
  rw [Weave]
  exact ⟨[], c, [], by simp, silent_nil, h, by simp [Weave]⟩

namespace Weave

theorem nil (h : Silent c) : Weave [] c := by rwa [Weave]

/-- A token with a leaf is woven with that leaf. -/
theorem leaf {l : Leaf} (h : t.leaf? = some l) : Weave [.leaf l] [t] := by
  refine Covers.weave ?_
  rw [Covers]
  exact ⟨t, rfl, h⟩

/-- What is passed over in front of nodes is passed over on the way to them. -/
theorem skip (hd : Silent d) (h : Weave ns c) : Weave ns (d ++ c) := by
  cases ns with
  | nil =>
    rw [Weave] at h ⊢
    exact silent_append.2 ⟨hd, h⟩
  | cons n ns =>
    rw [Weave] at h ⊢
    obtain ⟨pre, core, post, rfl, hpre, hn, hns⟩ := h
    exact ⟨d ++ pre, core, post, by simp, silent_append.2 ⟨hd, hpre⟩, hn, hns⟩

/-- Nodes behind nodes. -/
theorem append (h : Weave ns c) (h' : Weave ms d) : Weave (ns ++ ms) (c ++ d) := by
  induction ns generalizing c with
  | nil =>
    rw [Weave] at h
    exact h'.skip h
  | cons n ns ih =>
    rw [Weave] at h
    obtain ⟨pre, core, post, rfl, hpre, hn, hns⟩ := h
    rw [List.cons_append, Weave]
    exact ⟨pre, core, post ++ d, by simp, hpre, hn, ih hns⟩

theorem cons (h : Weave [n] c) (h' : Weave ns d) : Weave (n :: ns) (c ++ d) := h.append h'

/-- What is passed over behind nodes. -/
theorem skipRight (h : Weave ns c) (hd : Silent d) : Weave ns (c ++ d) := by
  simpa using h.append (nil hd)

/-- Children woven into the tokens of a span are woven with their parent. -/
theorem branch {span : Span} (hframes : Frames c span) (h : Weave ns c) :
    Weave [.branch span ns] c := by
  refine Covers.weave ?_
  rw [Covers]
  exact ⟨hframes, h⟩

end Weave

/-- Nodes between braces. -/
theorem Weave.braces {opening closing : Token} (ho : opening.kind = .openCurly)
    (hc : closing.kind = .closeCurly) (h : Weave ns c) :
    Covers (.branch ⟨opening.span.start, closing.span.stop⟩ ns)
      ([opening] ++ (c ++ [closing])) := by
  rw [Covers]
  refine ⟨(Frames.singleton (by simp [ho])).append c (.singleton (by simp [hc])), ?_⟩
  exact (h.skipRight (by simp [Token.leaf?, hc])).skip (by simp [Token.leaf?, ho])

/-- The span of a node is that of the tokens it covers. -/
theorem Covers.frames (h : Covers n c) : Frames c n.span := by
  cases n with
  | leaf l =>
    rw [Covers] at h
    obtain ⟨t, rfl, ht⟩ := h
    have hspan : l.span = t.span ∧ t.kind ≠ .lineBreak := by
      unfold Token.leaf? at ht
      split at ht <;> cases ht <;> simp_all [Leaf.span]
    rw [span, hspan.1]
    exact .singleton hspan.2
  | branch span children =>
    rw [Covers] at h
    exact h.1
  | initialised span name value =>
    rw [Covers] at h
    exact h.1

namespace Weave

/-- Where there is a node there are tokens. -/
theorem ne_nil (h : Weave (n :: ns) c) : c ≠ [] := by
  rw [Weave] at h
  obtain ⟨pre, core, post, rfl, -, hn, -⟩ := h
  -- The first node has a span, and a span starts with a token.
  obtain ⟨⟨t, ht, -⟩, -⟩ := hn.frames
  intro hnil
  simp only [List.append_eq_nil_iff] at hnil
  rw [hnil.2.1] at ht
  cases ht

/-- The span of a phrase that starts with no line break frames its nodes. -/
theorem spanOf {kind : Kind} (h : Weave (n :: ns) c) (rest : List Token)
    (hfirst : firstKind (c ++ rest) = some kind) (hkind : kind ≠ .lineBreak) :
    Weave [.branch (Scriptlet.spanOf (c ++ rest) rest) (n :: ns)] c := by
  refine .branch (Frames.spanOf ?_ hkind) h
  obtain ⟨t, c, rfl⟩ := List.exists_cons_of_ne_nil h.ne_nil
  exact hfirst

/-- A node alone in another one with the same span. -/
theorem wrap (h : Weave [n] c) : Weave [.branch n.span [n]] c := by
  rw [Weave] at h
  obtain ⟨pre, core, post, rfl, hpre, hcore, hpost⟩ := h
  rw [Weave] at hpost
  exact ((branch hcore.frames hcore.weave).skipRight hpost).skip hpre

/-- Two nodes with an operator between them, from the first of the one to the last of the other. -/
theorem operation {left right : Node} {l : Leaf} (hleft : Weave [left] c) (ht : t.leaf? = some l)
    (hright : Weave [right] d) :
    Weave [.branch ⟨left.span.start, right.span.stop⟩ [left, .leaf l, right]] (c ++ t :: d) := by
  rw [Weave] at hleft hright
  obtain ⟨pre, core, post, rfl, hpre, hcore, hpost⟩ := hleft
  obtain ⟨pre', core', post', rfl, hpre', hcore', hpost'⟩ := hright
  rw [Weave] at hpost hpost'
  -- What surrounds the operands on the outside is passed over, what surrounds them on the inside
  -- belongs to the new node.
  have hinner : Weave [left, .leaf l, right] (core ++ ((post ++ t :: pre') ++ core')) := by
    have hl := hcore.weave.skipRight hpost
    have hr := hcore'.weave.skip hpre'
    simpa using hl.cons ((leaf ht).cons hr)
  have houter := ((branch (hcore.frames.append _ hcore'.frames) hinner).skipRight hpost').skip hpre
  simpa using houter

/-- An operator in front of a node. -/
theorem operated {operand : Node} {l : Leaf} (hk : t.kind ≠ .lineBreak) (ht : t.leaf? = some l)
    (h : Weave [operand] d) :
    Weave [.branch ⟨t.span.start, operand.span.stop⟩ [.leaf l, operand]] (t :: d) := by
  rw [Weave] at h
  obtain ⟨pre, core, post, rfl, hpre, hcore, hpost⟩ := h
  rw [Weave] at hpost
  have hinner : Weave [.leaf l, operand] ([t] ++ (pre ++ core)) :=
    (leaf ht).cons (hcore.weave.skip hpre)
  have houter := (branch ((Frames.singleton hk).append pre hcore.frames) hinner).skipRight hpost
  simpa using houter

/-- A name, an equals sign and a first value. -/
theorem initialised {equals : Token} {name : Identifier} {value : Node} {span : Span}
    (ht : t.leaf? = some (.identifier name)) (hk : equals.kind = .simpleAssignment)
    (h : Weave [value] d) (hframes : Frames (t :: equals :: d) span) :
    Weave [.initialised span name value] (t :: equals :: d) := by
  rw [Weave] at h
  obtain ⟨pre, core, post, rfl, hpre, hcore, hpost⟩ := h
  rw [Weave] at hpost
  refine Covers.weave ?_
  rw [Covers]
  exact ⟨hframes, t, equals, pre, core, post, rfl, ht, hk, hpre, hcore, hpost⟩

end Weave

end Node

namespace Phrase

variable {α : Type} {P : Phrase α} {R : List Token → List Token → Prop} {node : α → Node}
  {b n : Nat} {ts rest c d : List Token} {t : Token}

/-! ### Phrases are woven -/

/-- The phrases whose nodes are woven into their tokens. -/
def Woven (nodes : α → List Node) : Phrase α :=
  fun ts rest a _ => ∃ c, ts = c ++ rest ∧ Node.Weave (nodes a) c

/-- The nodes of all phrases of `P` are woven into their tokens. -/
def Weaves (nodes : α → List Node) (P : Phrase α) : Prop :=
  ∀ ⦃ts rest a n⦄, P ts rest a n → Woven nodes ts rest a n

theorem weaves_woven (nodes : α → List Node) : Weaves nodes (Woven nodes) := fun _ _ _ _ h => h

/-- Line breaks are passed over. -/
theorem Breaks.silent (h : Breaks ts rest) : ∃ c, ts = c ++ rest ∧ Silent c := by
  induction h with
  | nil ts => exact ⟨[], rfl, silent_nil⟩
  | @cons t ts rest hk _ ih =>
    obtain ⟨c, rfl, hc⟩ := ih
    exact ⟨t :: c, rfl, by simp [Token.leaf?, hk, hc]⟩

/-- A trailing comma is passed over. -/
theorem OptionalComma.silent (h : OptionalComma ts rest) : ∃ c, ts = c ++ rest ∧ Silent c := by
  cases h with
  | absent => exact ⟨[], rfl, silent_nil⟩
  | @present t _ hk => exact ⟨[t], rfl, by simp [Token.leaf?, hk]⟩

/-- What ends a statement is passed over. -/
theorem End.silent (h : End ts rest) : ∃ c, ts = c ++ rest ∧ Silent c := by
  cases h with
  | @semicolon t _ hk => exact ⟨[t], rfl, by simp [Token.leaf?, hk]⟩
  | @lineBreak t _ hk => exact ⟨[t], rfl, by simp [Token.leaf?, hk]⟩
  | brace => exact ⟨[], rfl, silent_nil⟩

namespace Weaves

variable {nodes : α → List Node}

/-- Phrases in a row are woven one behind the other. -/
theorem many (h : Weaves (fun a => [node a]) P) : Weaves (List.map node) (Many P) := by
  intro ts rest as n hM
  induction hM with
  | nil ts => exact ⟨[], rfl, .nil silent_nil⟩
  | cons hP _ ih =>
    obtain ⟨c, rfl, hc⟩ := h hP
    obtain ⟨d, rfl, hd⟩ := ih
    exact ⟨c ++ d, by simp, hc.cons hd⟩

theorem andThen (h : Weaves nodes P) (hR : ∀ {us vs}, R us vs → ∃ c, us = c ++ vs ∧ Silent c) :
    Weaves nodes (Then P R) := by
  rintro ts rest a n ⟨hP, hsep⟩
  obtain ⟨c, rfl, hc⟩ := h hP
  obtain ⟨d, rfl, hd⟩ := hR hsep
  exact ⟨c ++ d, by simp, hc.skipRight hd⟩

theorem after (h : Weaves nodes P) (hR : ∀ {us vs}, R us vs → ∃ c, us = c ++ vs ∧ Silent c) :
    Weaves nodes (After R P) := by
  rintro ts rest a n ⟨hsep, hP⟩
  obtain ⟨d, rfl, hd⟩ := hR hsep
  obtain ⟨c, rfl, hc⟩ := h hP
  exact ⟨d ++ c, by simp, hc.skip hd⟩

/-- The entries between braces, with the separators behind them. -/
theorem body {as : List α × Span} (h : Weaves (fun a => [node a]) P) (hbody : Body P ts rest as n) :
    ∃ c, ts = c ++ rest ∧ Node.Covers (.branch as.2 (as.1.map node)) c := by
  obtain ⟨ho, hM, hbreaks, hc⟩ := hbody
  obtain ⟨c, rfl, hw⟩ := (h.after Breaks.silent).many hM
  obtain ⟨d, rfl, hd⟩ := hbreaks.silent
  exact ⟨_, by simp, (hw.skipRight hd).braces ho hc⟩

/-- A block between braces. -/
theorem braced {P : Phrase Stmt} {block : Block} (h : Weaves (fun a => [a.node]) P)
    (hblock : Braced P ts rest block n) :
    ∃ c, ts = c ++ rest ∧ Node.Covers (.branch block.span (block.body.map Stmt.node)) c := by
  obtain ⟨ho, hbreaks, hM, hc⟩ := hblock
  obtain ⟨d, rfl, hd⟩ := hbreaks.silent
  obtain ⟨c, rfl, hw⟩ := (h.andThen Breaks.silent).many hM
  exact ⟨_, by simp, (hw.skip hd).braces ho hc⟩

end Weaves

/-! ### Names and parameters -/

/-- A name is the leaf of its token. -/
theorem weaves_name : Weaves (fun id => [id.node]) Name := by
  rintro _ rest _ _ ⟨hk⟩
  exact ⟨[_], rfl, .leaf (by simp [Token.leaf?, hk])⟩

/-- The brackets around a key are passed over, and the key is a leaf in any case. -/
theorem weaves_key : Weaves (fun id => [id.node]) Key := by
  intro ts rest key n h
  cases h with
  | plain h => exact weaves_name h
  | @bracketed opening closing ts _ _ ho h hc =>
    obtain ⟨c, rfl, hw⟩ := weaves_name h
    refine ⟨[opening] ++ (c ++ [closing]), by simp, (hw.skipRight ?_).skip ?_⟩
    · simp [Token.leaf?, hc]
    · simp [Token.leaf?, ho]

/-- A key starts with a name or with a bracket, and not with a line break. -/
theorem Key.firstKind_ne {key : Identifier} (h : Key ts rest key n) :
    ∃ kind, firstKind ts = some kind ∧ kind ≠ .lineBreak := by
  obtain ⟨t, ht, hk⟩ := h.first
  refine ⟨t.kind, by rw [firstKind, ht]; rfl, ?_⟩
  rcases hk with hk | hk <;> simp [hk]

theorem weaves_binding : Weaves (fun p => [p.node]) Binding := by
  intro ts rest p n h
  cases h with
  | plain h =>
    have hfirst := h.first
    obtain ⟨c, rfl, hw⟩ := weaves_name h
    exact ⟨c, rfl, hw.spanOf rest hfirst (by simp)⟩
  | @renamed colon _ us _ _ _ h hk h' =>
    have hfirst := h.first
    obtain ⟨c, rfl, hw⟩ := weaves_name h
    obtain ⟨d, rfl, hw'⟩ := weaves_name h'
    have hsep : Silent [colon] := by simp [Token.leaf?, hk]
    have hboth := hw.cons (hw'.skip hsep)
    refine ⟨c ++ ([colon] ++ d), by simp, ?_⟩
    have hspan := hboth.spanOf rest (by simpa using hfirst) (by simp)
    simpa [PatternProperty.node] using hspan

theorem weaves_parameter : Weaves (fun p => [p.node]) Parameter := by
  intro ts rest p n h
  cases h with
  | name h => exact weaves_name h
  | pattern h =>
    obtain ⟨c, rfl, hw⟩ := (weaves_binding.andThen OptionalComma.silent).body h
    exact ⟨c, rfl, hw.weave⟩

/-! ### Expressions -/

/-- An expression that is woven into its tokens. -/
abbrev WovenExpr : Phrase Expr := Woven fun e => [e.node]

/-- The operands of a sum and the operators between them, by induction on the operands that are
left. What has been read so far is one node, which is the left child of the next one. -/
theorem weave_terms {more : List (Token × Expr)} {left : Expr}
    (hoperand : Below b Primary WovenExpr) (hn : n ≤ b) (h : Terms ts rest more n)
    (hleft : Node.Weave [left.node] c) :
    ∃ d, ts = d ++ rest ∧ Node.Weave [(sumOf left more).node] (c ++ d) := by
  induction more generalizing ts n left c with
  | nil =>
    cases h
    exact ⟨[], rfl, by simpa [sumOf] using hleft⟩
  | cons part more ih =>
    cases h with
    | @cons operator _ us _ e _ n m hk he hmore =>
      obtain ⟨d, rfl, hw⟩ := hoperand (by omega) he
      have hjoin : Node.Weave [(Expr.binary left operator e ⟨left.span.start, e.span.stop⟩).node]
          (c ++ operator :: d) := by
        have hboth := hleft.operation (show operator.leaf? = some (.sum operator) by
          simp [Token.leaf?, hk]) hw
        simpa [Expr.node] using hboth
      obtain ⟨d', rfl, hw'⟩ := ih (by omega) hmore hjoin
      exact ⟨operator :: (d ++ d'), by simp, by simpa [sumOf] using hw'⟩

theorem woven_additive (hoperand : Below b Primary WovenExpr) : Below b Additive WovenExpr := by
  rintro ts rest _ n hn ⟨hfirst, hmore, -⟩
  obtain ⟨c, rfl, hw⟩ := hoperand (by omega) hfirst
  obtain ⟨d, rfl, hw'⟩ := weave_terms hoperand (by omega) hmore hw
  exact ⟨c ++ d, by simp, hw'⟩

/-- The right side of an assignment is one level deeper, hence the bound is raised here. -/
theorem woven_assignment (hsum : Below b Additive WovenExpr)
    (hvalue : Below b Assignment WovenExpr) : Below (b + 1) Assignment WovenExpr := by
  intro ts rest e n hn h
  cases h with
  | sum he =>
    obtain ⟨c, rfl, hw⟩ := hsum (by omega) he
    exact ⟨c, rfl, hw⟩
  | @assign operator _ us _ left right _ _ hleft hk hright =>
    obtain ⟨c, rfl, hw⟩ := hsum (by omega) hleft
    obtain ⟨d, rfl, hw'⟩ := hvalue (by omega) hright
    have hleaf : operator.leaf? = some (.assignment operator) := by
      unfold Token.leaf?
      generalize operator.kind = kind at hk
      cases hk <;> rfl
    exact ⟨c ++ operator :: d, by simp, by simpa [Expr.node] using hw.operation hleaf hw'⟩

/-- Three dots and what is spread, which is an expression and a property. -/
theorem weave_spread {dots : Token} {e : Expr} (hk : dots.kind = .spread)
    (h : Node.Weave [e.node] c) :
    Node.Weave [(Expr.spread dots e ⟨dots.span.start, e.span.stop⟩).node] (dots :: c) := by
  have hleaf : dots.leaf? = some (.spread dots) := by simp [Token.leaf?, hk]
  simpa [Expr.node] using h.operated (by simp [hk]) hleaf

/-- The entries of an object. -/
theorem woven_entry (hsum : Below b Additive WovenExpr) :
    Below b Entry (Woven fun p => [p.node]) := by
  intro ts rest p n hn h
  cases h with
  | @spread dots _ _ e _ hk he =>
    obtain ⟨c, rfl, hw⟩ := hsum (by omega) he
    have hspread := (weave_spread hk hw).spanOf rest (firstKind_cons ..) (by simp [hk])
    exact ⟨dots :: c, rfl, by simpa [Property.node] using hspread⟩
  | @keyValue colon _ us _ key e _ hkey hk he =>
    obtain ⟨kind, hfirst, hkind⟩ := hkey.firstKind_ne
    obtain ⟨c, rfl, hw⟩ := weaves_key hkey
    obtain ⟨d, rfl, hw'⟩ := hsum hn he
    have hsep : Silent [colon] := by simp [Token.leaf?, hk]
    have hboth := hw.cons (hw'.skip hsep)
    refine ⟨c ++ ([colon] ++ d), by simp, ?_⟩
    have hspan := hboth.spanOf rest (by simpa using hfirst) hkind
    simpa [Property.node] using hspan
  | shorthand hkey =>
    obtain ⟨kind, hfirst, hkind⟩ := hkey.firstKind_ne
    obtain ⟨c, rfl, hw⟩ := weaves_key hkey
    exact ⟨c, rfl, by simpa [Property.node] using hw.spanOf rest hfirst hkind⟩

/-- In parentheses there is a whole assignment, and so the bound is raised. -/
theorem woven_primary (hsum : Below b Additive WovenExpr)
    (hexpression : Below b Assignment WovenExpr) : Below (b + 1) Primary WovenExpr := by
  intro ts rest e n hn h
  cases h with
  -- Parentheses leave no node of their own.
  | @parenthesized opening closing _ _ _ _ ho he hc =>
    obtain ⟨c, rfl, hw⟩ := hexpression (by omega) he
    refine ⟨[opening] ++ (c ++ [closing]), by simp, (hw.skipRight ?_).skip ?_⟩
    · simp [Token.leaf?, hc]
    · simp [Token.leaf?, ho]
  | object hbody =>
    obtain ⟨c, rfl, hw⟩ := ((weaves_woven _).andThen OptionalComma.silent).body
      ((woven_entry hsum).andThen.body (by omega) hbody)
    exact ⟨c, rfl, by simpa [Expr.node, Property.nodes_eq] using hw.weave⟩
  | name hname _ => exact weaves_name hname
  | @call opening closing _ us _ callee arguments _ hname ho hM hc =>
    obtain ⟨hk⟩ := hname
    rename_i t
    obtain ⟨c, rfl, hw⟩ := ((weaves_woven _).andThen OptionalComma.silent).many
      (hsum.andThen.many (by omega) hM)
    have hname : Node.Weave [Identifier.node ⟨t.value, t.span⟩] [t] :=
      .leaf (by simp [Token.leaf?, hk])
    have hsilent : Silent [opening] ∧ Silent [closing] := by simp [Token.leaf?, ho, hc]
    have hinner := hname.cons ((hw.skip hsilent.1).skipRight hsilent.2)
    have hframes := (Frames.singleton (t := t) (by simp [hk])).append ([opening] ++ c)
      (.singleton (t := closing) (by simp [hc]))
    refine ⟨[t] ++ (([opening] ++ c) ++ [closing]), by simp, ?_⟩
    simpa [Expr.node, Expr.nodes_eq] using Node.Weave.branch hframes hinner
  | @spread dots _ _ e _ hk he =>
    obtain ⟨c, rfl, hw⟩ := hsum (by omega) he
    exact ⟨dots :: c, rfl, weave_spread hk hw⟩
  | number hk => exact ⟨[_], rfl, by simpa [Expr.node] using .leaf (by simp [Token.leaf?, hk])⟩
  | string hk => exact ⟨[_], rfl, by simpa [Expr.node] using .leaf (by simp [Token.leaf?, hk])⟩

/-- All three kinds of expressions at once, by induction on the bound. -/
theorem woven_expressions (b : Nat) :
    Below b Assignment WovenExpr ∧ Below b Additive WovenExpr ∧ Below b Primary WovenExpr :=
  below_expressions (fun _ => woven_additive) (fun _ => woven_assignment) (fun _ => woven_primary) b

theorem weaves_assignment : Weaves (fun e => [e.node]) Assignment := fun _ _ _ n h =>
  (woven_expressions n).1 (Nat.le_refl n) h

theorem weaves_additive : Weaves (fun e => [e.node]) Additive := fun _ _ _ n h =>
  (woven_expressions n).2.1 (Nat.le_refl n) h

/-! ### Statements -/

/-- A declared variable, with or without a value. -/
theorem weaves_declared : Weaves (fun d => [d.node]) Declared := by
  intro ts rest d n h
  cases h with
  | plain hname =>
    have hfirst := hname.first
    obtain ⟨c, rfl, hw⟩ := weaves_name hname
    exact ⟨c, rfl, hw.spanOf rest hfirst (by simp)⟩
  | @valued equals _ us _ name e _ hname hk he =>
    obtain ⟨hid⟩ := hname
    rename_i t
    obtain ⟨c, rfl, hw⟩ := weaves_assignment he
    refine ⟨t :: equals :: c, rfl, .initialised (by simp [Token.leaf?, hid]) hk hw ?_⟩
    exact Frames.spanOf (c := t :: equals :: c) (firstKind_cons ..) (by simp [hid])

theorem weaves_nextDeclared : Weaves (fun d => [d.node]) NextDeclared := by
  rintro _ rest d n ⟨hk, hbreaks, hd⟩
  obtain ⟨c, rfl, hc⟩ := hbreaks.silent
  obtain ⟨d, rfl, hw⟩ := weaves_declared hd
  rename_i comma
  -- The comma and the line breaks behind it are passed over on the way to the next one.
  exact ⟨comma :: c ++ d, by simp, hw.skip (by simp [Token.leaf?, hk, hc])⟩

/-- The word that starts a statement belongs to its frame. -/
theorem weave_word {ns : List Node} {m : Node} (h : Node.Weave (m :: ns) c) (rest : List Token)
    {word : Token} (hk : word.leaf? = none) (hne : word.kind ≠ .lineBreak) :
    Node.Weave [.branch (spanOf (word :: (c ++ rest)) rest) (m :: ns)] (word :: c) := by
  have hword : Node.Weave (m :: ns) (word :: c) := h.skip (d := [word]) (by simp [hk])
  exact hword.spanOf rest (firstKind_cons ..) hne

/-- The word of a declaration has no leaf. -/
theorem Declares.leaf? {kind : DeclarationKind} (h : Declares t.kind kind) :
    t.leaf? = none ∧ t.kind ≠ .lineBreak := by
  unfold Token.leaf?
  generalize t.kind = word at h
  cases h <;> simp

/-- Statements inside a statement are below the bound, so the bound is raised by one. -/
theorem woven_statement (h : Below b Statement (Woven fun a => [a.node])) :
    Below (b + 1) Statement (Woven fun a => [a.node]) := by
  intro ts rest a n hn hs
  cases hs with
  | @empty t _ hk =>
    have hnode : Node.Weave [.branch t.span []] [t] :=
      .branch (.singleton (by simp [hk])) (.nil (by simp [Token.leaf?, hk]))
    exact ⟨[t], rfl, by simpa [Stmt.node] using hnode⟩
  | block hblock =>
    obtain ⟨c, rfl, hw⟩ := (weaves_woven _).braced (h.braced (by omega) hblock)
    exact ⟨c, rfl, by simpa [Stmt.node, Stmt.nodes_eq] using hw.weave⟩
  | @declaration word _ _ us vs _ _ _ _ _ hword hfirst hM hend =>
    obtain ⟨c, rfl, hw⟩ := weaves_declared hfirst
    obtain ⟨d, rfl, hw'⟩ := weaves_nextDeclared.many hM
    obtain ⟨e, rfl, he⟩ := hend.silent
    refine ⟨word :: (c ++ d) ++ e, by simp, ?_⟩
    have hstatement := weave_word (hw.cons hw') (e ++ rest) hword.leaf?.1 hword.leaf?.2
    simpa [Stmt.node] using hstatement.skipRight he
  | @result word _ us _ _ _ hk he hend =>
    obtain ⟨c, rfl, hw⟩ := weaves_additive he
    obtain ⟨d, rfl, hd⟩ := hend.silent
    refine ⟨word :: c ++ d, by simp, ?_⟩
    have hword : word.leaf? = none := by simp [Token.leaf?, hk]
    have hstatement := weave_word hw (d ++ rest) hword (by simp [hk])
    simpa [Stmt.node] using hstatement.skipRight hd
  | @function word opening closing _ us vs _ name params body _ hk hname ho hM hc hbody =>
    obtain ⟨c₁, rfl, hw₁⟩ := weaves_name hname
    obtain ⟨c₂, rfl, hw₂⟩ := (weaves_parameter.andThen OptionalComma.silent).many hM
    obtain ⟨c₃, rfl, hw₃⟩ := (weaves_woven _).braced (h.braced (by omega) hbody)
    rw [Node.Covers] at hw₃
    have hsilent : Silent [word] ∧ Silent [opening] ∧ Silent [closing] := by
      simp [Token.leaf?, hk, ho, hc]
    have hinner := ((hw₁.skip hsilent.1).append (hw₂.skip hsilent.2.1)).append
      (hw₃.2.skip hsilent.2.2)
    have hframes := (Frames.singleton (t := word) (by simp [hk])).append
      (c₁ ++ ([opening] ++ (c₂ ++ [closing]))) hw₃.1
    refine ⟨[word] ++ ((c₁ ++ ([opening] ++ (c₂ ++ [closing]))) ++ c₃), by simp, ?_⟩
    have hnode := Node.Weave.branch hframes (by simpa using hinner)
    simpa [Stmt.node, Stmt.nodes_eq] using hnode
  | expression _ he hend =>
    obtain ⟨c, rfl, hw⟩ := weaves_assignment he
    obtain ⟨d, rfl, hd⟩ := hend.silent
    exact ⟨c ++ d, by simp, by simpa [Stmt.node] using hw.wrap.skipRight hd⟩

theorem weaves_statement : Weaves (fun a => [a.node]) Statement := fun _ _ _ n h =>
  below_statement (fun _ => woven_statement) n (Nat.le_refl n) h

end Phrase

/-- The statements of a program are woven into its tokens. -/
theorem Derivable.weave {file : String} {ts : List Token} {p : Program} {n : Nat}
    (h : Derivable file ts p n) : Node.Weave (p.body.map Stmt.node) ts := by
  obtain ⟨hbreaks, hM⟩ := h
  obtain ⟨d, rfl, hd⟩ := hbreaks.silent
  obtain ⟨c, rfl, hw⟩ := (Phrase.weaves_statement.andThen Phrase.Breaks.silent).many hM
  simpa using hw.skip hd

end Scriptlet
