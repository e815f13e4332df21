import Mathlib.Data.List.Forall2
import Scriptlet.Proofs.Recognition
import Scriptlet.Proofs.TreeEquality
import Scriptlet.Proofs.Weaving

/-!
# Spans nest

In a tree that was read from a source, the span of each node starts where some token starts and ends
where some token ends, and it is not empty. The nodes directly below a node lie inside its span, one
behind the other. The span of a program reaches from the start of the source to the end of its last
token.

How spans are made differs from production to production: from the first token to the last one
consumed, from the span of one operand to that of another, or taken over as they are. All of this is
in the relation between nodes and the tokens they cover, so here it is enough that tokens stand one
behind the other.

## Main definitions

* `Standing`: tokens that stand one behind the other;
* `Node.Inside`: the nodes somewhere below a node;
* `Node.Placed`, `Node.Encloses`: what is asked of a span, and of the spans directly below it.

## Main results

* `Scanner.standing_feed`: the tokens of a source stand one behind the other;
* `Node.Covers.of_inside`: what is below a node covers some of its tokens;
* `Node.Covers.placed`, `Node.Covers.encloses`: covering nodes have the spans they should have;
* `parseSource_spans_nest`: the spans of a program.
-/

namespace Scriptlet

open Text (byteLength)

/-! ### Tokens one behind the other -/

/-- The tokens stand one behind the other in a source with the given label, and all but line breaks
take some text. -/
structure Standing (label : String) (c : List Token) : Prop where
  /-- Both ends carry the label. -/
  file : ∀ t ∈ c, t.span.start.file = label ∧ t.span.stop.file = label
  /-- No token ends in front of its start. -/
  le : ∀ t ∈ c, t.span.start.offset ≤ t.span.stop.offset
  /-- Only a line break may be empty. -/
  lt : ∀ t ∈ c, t.kind ≠ .lineBreak → t.span.start.offset < t.span.stop.offset
  /-- A token starts behind all that are in front of it. -/
  inOrder : c.Pairwise fun t u => t.span.stop.offset ≤ u.span.start.offset

namespace Standing

variable {label : String} {c d : List Token} {t u : Token}

/-- Some of the tokens stand in the same way. -/
theorem sublist (h : Standing label c) (hd : d.Sublist c) : Standing label d where
  file t ht := h.file t (hd.subset ht)
  le t ht := h.le t (hd.subset ht)
  lt t ht := h.lt t (hd.subset ht)
  inOrder := h.inOrder.sublist hd

/-- No token starts in front of the first. -/
theorem start_le (h : Standing label c) (ht : c.head? = some t) (hu : u ∈ c) :
    t.span.start.offset ≤ u.span.start.offset := by
  obtain ⟨c, rfl⟩ := List.head?_eq_some_iff.1 ht
  rcases List.mem_cons.1 hu with rfl | hu
  · exact UInt32.le_refl _
  · exact UInt32.le_trans (h.le t List.mem_cons_self) (List.rel_of_pairwise_cons h.inOrder hu)

/-- No token ends behind the last. -/
theorem le_stop (h : Standing label c) (ht : c.getLast? = some t) (hu : u ∈ c) :
    u.span.stop.offset ≤ t.span.stop.offset := by
  obtain ⟨c, rfl⟩ := List.getLast?_eq_some_iff.1 ht
  rcases List.mem_append.1 hu with hu | hu
  · have hlast := (List.pairwise_append.1 h.inOrder).2.2 u hu t (List.mem_singleton_self t)
    exact UInt32.le_trans hlast (h.le t (by simp))
  · rw [List.mem_singleton.1 hu]
    exact UInt32.le_refl _

end Standing

/-- The tokens of a source whose length fits into an offset stand one behind the other. -/
theorem Scanner.standing_feed (s : Scanner) (h : s.offset + byteLength s.rest < UInt32.size) :
    Standing s.file s.feed.tokens ∧
      ∀ t ∈ s.feed.tokens, s.offset ≤ t.span.start.offset.toNat := by
  fun_induction feed s with
  | case1 => exact ⟨⟨by simp, by simp, by simp, .nil⟩, by simp⟩
  | case2 => exact ⟨⟨by simp, by simp, by simp, .nil⟩, by simp⟩
  | case3 s t s' hnext ih =>
    obtain ⟨hfile, ⟨start, hle, hle', hspan⟩, hstop, -⟩ := scanned_of_next hnext
    obtain ⟨hstanding, hbehind⟩ := ih (by omega)
    rw [hfile] at hstanding
    have hstart : t.span.start.offset.toNat = start := by
      rw [hspan]
      exact Position.toNat_offset_of _ (by omega)
    have hend : t.span.stop.offset.toNat = s'.offset := by
      rw [hspan]
      exact Position.toNat_offset_of _ (by omega)
    refine ⟨⟨?_, ?_, ?_, ?_⟩, ?_⟩
    · refine List.forall_mem_cons.2 ⟨?_, hstanding.file⟩
      rw [hspan]
      exact ⟨rfl, rfl⟩
    · refine List.forall_mem_cons.2 ⟨?_, hstanding.le⟩
      rw [UInt32.le_iff_toNat_le]
      omega
    · -- Only the line break at the end has no text.
      refine List.forall_mem_cons.2 ⟨fun hk => ?_, hstanding.lt⟩
      rcases start_lt_of_next hnext with ⟨start', -, hlt, hspan'⟩ | ⟨hbreak, -⟩
      · have hstart' : t.span.start.offset.toNat = start' := by
          rw [hspan']
          exact Position.toNat_offset_of _ (by omega)
        rw [UInt32.lt_iff_toNat_lt]
        omega
      · exact absurd hbreak hk
    · refine List.pairwise_cons.2 ⟨fun u hu => ?_, hstanding.inOrder⟩
      have := hbehind u hu
      rw [UInt32.le_iff_toNat_le]
      omega
    · refine List.forall_mem_cons.2 ⟨by omega, fun u hu => ?_⟩
      have := hbehind u hu
      omega

/-- The tokens of a source stand in order, with its label. -/
theorem standing_of_tokenize {source : String} {file : Option String} {ts : List Token}
    (hsize : byteLength source.toList < UInt32.size) (h : tokenize source file = .ok ts) :
    Standing (file.getD defaultLabel) ts := by
  rw [tokenize_eq_ok_iff_streamOf, streamOf] at h
  have hstanding := (Scanner.ofSource (file.getD defaultLabel) source).standing_feed
    (by simpa [Scanner.ofSource] using hsize)
  rw [h] at hstanding
  exact hstanding.1

namespace Node

/-! ### Nodes below a node -/

/-- The first node is somewhere below the second. -/
inductive Inside : Node → Node → Prop
  | child {m n : Node} : m ∈ n.children → Inside m n
  | deeper {m k n : Node} : m ∈ k.children → Inside k n → Inside m n

/-- The span is not empty, it starts with a token and ends with one, and both ends carry the
label. -/
structure Placed (label : String) (ts : List Token) (n : Node) : Prop where
  /-- There is something in it. -/
  lt : n.span.start.offset < n.span.stop.offset
  /-- It starts where a token starts. -/
  start : ∃ t ∈ ts, t.span.start = n.span.start
  /-- It ends where a token ends. -/
  stop : ∃ t ∈ ts, t.span.stop = n.span.stop
  /-- Both ends carry the label. -/
  file : n.span.start.file = label ∧ n.span.stop.file = label

/-- The nodes directly below lie inside the span, one behind the other. -/
structure Encloses (n : Node) : Prop where
  /-- They lie inside. -/
  inside : ∀ m ∈ n.children,
    n.span.start.offset ≤ m.span.start.offset ∧ m.span.stop.offset ≤ n.span.stop.offset
  /-- Each starts behind the ends of those in front of it. -/
  inOrder : n.children.Pairwise fun m m' => m.span.stop.offset ≤ m'.span.start.offset

variable {label : String} {n m : Node} {ns : List Node} {c : List Token} {cs : List (List Token)}

/-- Woven nodes cover tokens of their own, one behind the other. -/
theorem Weave.exists_covers (h : Weave ns c) :
    ∃ cs : List (List Token), cs.flatten.Sublist c ∧ List.Forall₂ Covers ns cs := by
  induction ns generalizing c with
  | nil => exact ⟨[], List.nil_sublist c, .nil⟩
  | cons n ns ih =>
    rw [Weave] at h
    obtain ⟨pre, core, post, rfl, -, hn, hns⟩ := h
    obtain ⟨cs, hcs, hcovers⟩ := ih hns
    refine ⟨core :: cs, ?_, .cons hn hcovers⟩
    exact ((List.Sublist.refl core).append hcs).trans (List.sublist_append_right pre _)

/-- So do the nodes directly below a node. -/
theorem Covers.exists_children (h : Covers n c) :
    ∃ cs : List (List Token), cs.flatten.Sublist c ∧ List.Forall₂ Covers n.children cs := by
  cases n with
  | leaf l => exact ⟨[], List.nil_sublist c, .nil⟩
  | branch span children =>
    rw [Covers] at h
    exact h.2.exists_covers
  | initialised span name value =>
    rw [Covers] at h
    obtain ⟨-, t, equals, pre, core, post, rfl, ht, -, -, hcore, -⟩ := h
    have hname : Covers (.leaf (.identifier name)) [t] := by
      rw [Covers]
      exact ⟨t, rfl, ht⟩
    refine ⟨[[t], core], ?_, .cons hname (.cons hcore .nil)⟩
    have hsub : core.Sublist (equals :: (pre ++ (core ++ post))) :=
      .cons _ ((List.sublist_append_left core post).trans (List.sublist_append_right pre _))
    simpa using hsub

theorem exists_covers_of_mem (hcs : List.Forall₂ Covers ns cs) (hm : m ∈ ns) :
    ∃ d ∈ cs, Covers m d := by
  induction hcs with
  | nil => cases hm
  | cons hn _ ih =>
    rcases List.mem_cons.1 hm with rfl | hm
    · exact ⟨_, List.mem_cons_self, hn⟩
    · obtain ⟨d, hd, hcovers⟩ := ih hm
      exact ⟨d, List.mem_cons_of_mem _ hd, hcovers⟩

/-- A node below one that covers some tokens covers some of these. -/
theorem Covers.of_inside (h : Covers n c) (hm : Inside m n) : ∃ d, d.Sublist c ∧ Covers m d := by
  have hstep : ∀ {k m : Node} {c : List Token}, Covers k c → m ∈ k.children →
      ∃ d, d.Sublist c ∧ Covers m d := by
    intro k m c hk hm
    obtain ⟨cs, hcs, hcovers⟩ := hk.exists_children
    obtain ⟨d, hd, hm⟩ := exists_covers_of_mem hcovers hm
    exact ⟨d, (List.sublist_flatten_of_mem hd).trans hcs, hm⟩
  induction hm with
  | child hm => exact hstep h hm
  | deeper hm _ ih =>
    obtain ⟨d, hd, hk⟩ := ih h
    obtain ⟨d', hd', hm⟩ := hstep hk hm
    exact ⟨d', hd'.trans hd, hm⟩

/-! ### Spans of nodes -/

/-- A node starts with a token that it covers, and ends with one. -/
theorem Covers.exists_ends (h : Covers n c) :
    (∃ t ∈ c, t.span.start = n.span.start) ∧ ∃ t ∈ c, t.span.stop = n.span.stop := by
  obtain ⟨⟨t, ht, -, hstart⟩, u, hu, hstop⟩ := h.frames
  exact ⟨⟨t, List.mem_of_mem_head? ht, hstart⟩, u, List.mem_of_getLast? hu, hstop⟩

theorem Covers.placed (hc : Standing label c) (h : Covers n c) : Placed label c n := by
  obtain ⟨⟨t, ht, hk, hstart⟩, u, hu, hstop⟩ := h.frames
  have ht' := List.mem_of_mem_head? ht
  have hu' := List.mem_of_getLast? hu
  refine ⟨?_, h.exists_ends.1, h.exists_ends.2, ?_, ?_⟩
  · rw [← hstart, ← hstop]
    exact UInt32.lt_of_lt_of_le (hc.lt t ht' hk) (hc.le_stop hu ht')
  · rw [← hstart]
    exact (hc.file t ht').1
  · rw [← hstop]
    exact (hc.file u hu').2

/-- Nodes that cover tokens one behind the other lie one behind the other. -/
theorem pairwise_of_forall₂ (hc : Standing label cs.flatten) (h : List.Forall₂ Covers ns cs) :
    ns.Pairwise fun m m' => m.span.stop.offset ≤ m'.span.start.offset := by
  induction h with
  | nil => exact .nil
  | @cons n c ns cs hn hns ih =>
    have hboth := List.pairwise_append.1 hc.inOrder
    refine List.pairwise_cons.2 ⟨fun m hm => ?_, ih (hc.sublist (List.sublist_append_right c _))⟩
    obtain ⟨d, hd, hm⟩ := exists_covers_of_mem hns hm
    obtain ⟨-, t, ht, hstop⟩ := hn.exists_ends
    obtain ⟨⟨u, hu, hstart⟩, -⟩ := hm.exists_ends
    rw [← hstop, ← hstart]
    exact hboth.2.2 t ht u (List.mem_flatten.2 ⟨d, hd, hu⟩)

/-- A span around tokens is a span around the nodes that cover some of them. -/
theorem encloses_of_forall₂ {span : Span} (hc : Standing label c) (hcs : cs.flatten.Sublist c)
    (h : List.Forall₂ Covers n.children cs) (hspan : n.span = span)
    (hstart : ∀ t ∈ c, span.start.offset ≤ t.span.start.offset)
    (hstop : ∀ t ∈ c, t.span.stop.offset ≤ span.stop.offset) : Encloses n := by
  refine ⟨fun m hm => ?_, pairwise_of_forall₂ (hc.sublist hcs) h⟩
  obtain ⟨d, hd, hm⟩ := exists_covers_of_mem h hm
  have hsub : d ⊆ c := ((List.sublist_flatten_of_mem hd).trans hcs).subset
  obtain ⟨⟨t, ht, htstart⟩, u, hu, hustop⟩ := hm.exists_ends
  rw [hspan, ← htstart, ← hustop]
  exact ⟨hstart t (hsub ht), hstop u (hsub hu)⟩

theorem Covers.encloses (hc : Standing label c) (h : Covers n c) : Encloses n := by
  obtain ⟨cs, hcs, hcovers⟩ := h.exists_children
  obtain ⟨⟨t, ht, -, hstart⟩, u, hu, hstop⟩ := h.frames
  refine encloses_of_forall₂ hc hcs hcovers rfl (fun v hv => ?_) fun v hv => ?_
  · rw [← hstart]
    exact hc.start_le ht hv
  · rw [← hstop]
    exact hc.le_stop hu hv

theorem Placed.mono {ts : List Token} (h : Placed label c n) (hc : c ⊆ ts) : Placed label ts n where
  lt := h.lt
  start := h.start.imp fun _ ⟨ht, hstart⟩ => ⟨hc ht, hstart⟩
  stop := h.stop.imp fun _ ⟨ht, hstop⟩ => ⟨hc ht, hstop⟩
  file := h.file

/-- What is below a node is one of the nodes directly below it, or below one of these. -/
theorem Inside.exists_child (h : Inside m n) : ∃ k ∈ n.children, m = k ∨ Inside m k := by
  induction h with
  | @child m n hm => exact ⟨m, hm, .inl rfl⟩
  | deeper hm _ ih =>
    obtain ⟨k, hk, rfl | hinside⟩ := ih
    · exact ⟨_, hk, .inr (.child hm)⟩
    · exact ⟨k, hk, .inr (.deeper hm hinside)⟩

/-- Every node that is woven into tokens, or below one that is, covers some of them. -/
theorem Weave.exists_covers_of_inside (h : Weave n.children c) (hm : Inside m n) :
    ∃ d, d.Sublist c ∧ Covers m d := by
  obtain ⟨k, hk, hcases⟩ := hm.exists_child
  obtain ⟨cs, hcs, hcovers⟩ := h.exists_covers
  obtain ⟨d, hd, hkd⟩ := exists_covers_of_mem hcovers hk
  have hsub := (List.sublist_flatten_of_mem hd).trans hcs
  rcases hcases with rfl | hinside
  · exact ⟨d, hsub, hkd⟩
  · obtain ⟨d', hd', hm⟩ := hkd.of_inside hinside
    exact ⟨d', hd'.trans hsub, hm⟩

end Node

/-! ### Programs -/

/-- Every source has a token, if only the line break at its end. -/
theorem ne_nil_of_tokenize {source : String} {file : Option String} {ts : List Token}
    (h : tokenize source file = .ok ts) : ts ≠ [] := by
  rintro rfl
  rw [tokenize_eq_ok_iff_streamOf, streamOf] at h
  cases hn : (Scanner.ofSource (file.getD defaultLabel) source).next with
  | error e s' =>
    rw [Scanner.feed_of_next_eq_error hn] at h
    cases h
  | ok t s' =>
    cases t with
    | none => exact Scanner.next_ne_none rfl rfl hn
    | some t =>
      rw [Scanner.feed_of_next_eq_some hn] at h
      cases h

/-- The span of a program reaches from the start of the source to the end of its last token, and
around its statements. Every node below it has a span that is not empty, starts with a token, ends
with a token and lies around the nodes directly below, which come in the order of the source and do
not overlap. All positions carry the label of the source. -/
theorem parseSource_spans_nest (source : String) (options : ParseOptions) (p : Program)
    (hsize : byteLength source.toList < UInt32.size) (h : parseSource source options = .ok p) :
    ∃ ts, tokenize source options.file = .ok ts ∧
      (∃ last, ts.getLast? = some last ∧
        p.span = ⟨.of (options.file.getD defaultLabel) 0, last.span.stop⟩) ∧
      p.span.stop.file = options.file.getD defaultLabel ∧
      p.node.Encloses ∧
      ∀ n : Node, n.Inside p.node → n.Placed (options.file.getD defaultLabel) ts ∧ n.Encloses := by
  obtain ⟨ts, n, htokens, hd, -⟩ := exists_derivable_of_parseSource h
  have hstanding := standing_of_tokenize hsize htokens
  have hweave : Node.Weave p.node.children ts := hd.weave
  have hlast := List.getLast?_eq_some_getLast (ne_nil_of_tokenize htokens)
  have hspan : p.span = ⟨.of (options.file.getD defaultLabel) 0,
      (ts.getLast (ne_nil_of_tokenize htokens)).span.stop⟩ := by
    obtain ⟨-, -⟩ := hd
    rw [hlast]
    rfl
  refine ⟨ts, htokens, ⟨_, hlast, hspan⟩, ?_, ?_, fun n hn => ?_⟩
  · rw [hspan]
    exact (hstanding.file _ (List.getLast_mem _)).2
  · -- The program starts in front of its first token, and so is no node that covers its tokens.
    obtain ⟨cs, hcs, hcovers⟩ := hweave.exists_covers
    refine Node.encloses_of_forall₂ hstanding hcs hcovers hspan (fun t _ => ?_) fun t ht =>
      hstanding.le_stop hlast ht
    rw [UInt32.le_iff_toNat_le]
    exact Nat.zero_le _
  · obtain ⟨d, hsub, hcovers⟩ := hweave.exists_covers_of_inside hn
    have hd := hstanding.sublist hsub
    exact ⟨(hcovers.placed hd).mono hsub.subset, hcovers.encloses hd⟩

/-- Parentheses around operands, a spread in an object and a name in brackets. The span of the sum
reaches from inside the first pair of parentheses to inside the last one. -/
theorem parseSource_spans_nest_parentheses :
    let spread : Expr := .spread ⟨.spread, "...", .of "shell" 12 3⟩
      (.identifier ⟨"b", .of "shell" 16 1⟩) (.of "shell" 12 5)
    let object : Expr := .object
      [.spread spread (.of "shell" 12 6),
        .keyValue ⟨"c", .of "shell" 21 1⟩ (.identifier ⟨"d", .of "shell" 25 1⟩) (.of "shell" 20 6)]
      (.of "shell" 11 16)
    let sum : Expr := .binary (.identifier ⟨"a", .of "shell" 5 1⟩)
      ⟨.additiveOperator, "+", .of "shell" 8 1⟩ object (.of "shell" 5 22)
    let p : Program :=
      ⟨[.expression (.assignment (.identifier ⟨"x", .of "shell" 0 1⟩)
          ⟨.simpleAssignment, "=", .of "shell" 2 1⟩ sum (.of "shell" 0 27)) (.of "shell" 0 27)],
        .of "shell" 0 28⟩
    parseSource "x = (a) + ({...(b), [c]: d})" {} = .ok p ∧
      ∃ ts, tokenize "x = (a) + ({...(b), [c]: d})" none = .ok ts ∧ p.node.Encloses ∧
        ∀ n : Node, n.Inside p.node → n.Placed defaultLabel ts ∧ n.Encloses := by
  intro spread object sum p
  have hsize : byteLength "x = (a) + ({...(b), [c]: d})".toList < UInt32.size := by
    decide +kernel
  have h : parseSource "x = (a) + ({...(b), [c]: d})" {} = .ok p := by
    decide +kernel
  obtain ⟨ts, htokens, -, -, hprogram, hnodes⟩ := parseSource_spans_nest _ {} p hsize h
  exact ⟨h, ts, htokens, hprogram, hnodes⟩

end Scriptlet
