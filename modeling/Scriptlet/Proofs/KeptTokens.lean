import Mathlib.Data.List.Forall2
import Scriptlet.Proofs.Recognition
import Scriptlet.Proofs.Weaving

/-!
# What a tree keeps of its tokens

Read from left to right, a tree lists the tokens that it keeps: every name, number, string and
operator of the source, each once and in order, and nothing else. Names and operators are listed as
they were written, a number with its value, and a string as the text it stands for.

The equals signs of a source are found again as well. Each belongs to an assignment, which keeps it
as its operator, or to a declared variable with a first value, which keeps no token but is there
once for each equals sign.

## Main definitions

* `Mark`, `Node.marks`: what is met on the way through a tree from left to right;
* `Mark.Shows`: the token that a mark stands for.

## Main results

* `Node.Covers.shows`, `Node.Weave.shows`: the marks of woven nodes stand for the tokens that are
  not passed over;
* `parseSource_keeps_tokens`: a program lists the tokens of its source.
-/

namespace Scriptlet

/-! ### From left to right -/

/-- What is met on the way through a tree from left to right. -/
inductive Mark where
  /-- A leaf. -/
  | leaf (leaf : Leaf)
  /-- The place between the name of a declared variable and its first value. -/
  | initialised (name : Identifier)

mutual

/-- What is met in a node from left to right. -/
def Node.marks : Node → List Mark
  | .leaf l => [.leaf l]
  | .branch _ children => Node.marksOf children
  | .initialised _ name value =>
    .leaf (.identifier name) :: .initialised name :: Node.marks value

/-- What is met in some nodes from left to right. -/
def Node.marksOf : List Node → List Mark
  | [] => []
  | n :: ns => Node.marks n ++ Node.marksOf ns

end

namespace Mark

/-- The mark stands for the token. -/
def Shows : Mark → Token → Prop
  | leaf l, t => t.leaf? = some l
  | initialised _, t => t.kind = .simpleAssignment

/-- Whether the mark is that of a simple assignment or of a first value. -/
def isEquals : Mark → Bool
  | leaf (.assignment operator) => operator.kind = .simpleAssignment
  | leaf _ => false
  | initialised _ => true

/-- The name, number, string or operator met there, apart from simple assignments. -/
def content? : Mark → Option Leaf
  | leaf l => if (leaf l).isEquals then none else some l
  | initialised _ => none

end Mark

/-- The name, number, string or operator that a token is, apart from simple assignments. -/
def Token.content? (t : Token) : Option Leaf :=
  if t.kind = .simpleAssignment then none else t.leaf?

/-! ### Marks and tokens -/

/-- The tokens that are not passed over. -/
def kept (c : List Token) : List Token := c.filter (·.leaf?.isSome)

@[simp] theorem kept_append (c d : List Token) : kept (c ++ d) = kept c ++ kept d :=
  List.filter_append c d

theorem kept_of_silent {c : List Token} (h : Silent c) : kept c = [] := by
  rw [kept, List.filter_eq_nil_iff]
  intro t ht
  simp [h t ht]

theorem kept_cons {t : Token} {l : Leaf} (h : t.leaf? = some l) (c : List Token) :
    kept (t :: c) = t :: kept c := by
  simp [kept, h]

theorem Token.leaf?_of_simpleAssignment {t : Token} (h : t.kind = .simpleAssignment) :
    t.leaf? = some (.assignment t) := by
  simp [Token.leaf?, h]

mutual

/-- The marks of a node stand for the tokens it covers and does not pass over. -/
theorem Node.Covers.shows : ∀ {n : Node} {c : List Token}, n.Covers c →
    List.Forall₂ Mark.Shows n.marks (kept c)
  | .leaf l, c, h => by
    rw [Node.Covers] at h
    obtain ⟨t, rfl, ht⟩ := h
    rw [Node.marks, kept_cons ht]
    exact .cons ht .nil
  | .branch _ children, c, h => by
    rw [Node.Covers] at h
    rw [Node.marks]
    exact Node.Weave.shows h.2
  | .initialised _ name value, c, h => by
    rw [Node.Covers] at h
    obtain ⟨-, t, equals, pre, core, post, rfl, ht, hk, hpre, hcore, hpost⟩ := h
    rw [Node.marks, kept_cons ht, kept_cons (Token.leaf?_of_simpleAssignment hk), kept_append,
      kept_append, kept_of_silent hpre, kept_of_silent hpost, List.nil_append, List.append_nil]
    exact .cons ht (.cons hk (Node.Covers.shows hcore))

/-- The marks of woven nodes stand for the tokens that are not passed over. -/
theorem Node.Weave.shows : ∀ {ns : List Node} {c : List Token}, Node.Weave ns c →
    List.Forall₂ Mark.Shows (Node.marksOf ns) (kept c)
  | [], c, h => by
    rw [Node.Weave] at h
    rw [Node.marksOf, kept_of_silent h]
    exact .nil
  | n :: ns, c, h => by
    rw [Node.Weave] at h
    obtain ⟨pre, core, post, rfl, hpre, hn, hns⟩ := h
    rw [Node.marksOf, kept_append, kept_append, kept_of_silent hpre, List.nil_append]
    exact List.rel_append (Node.Covers.shows hn) (Node.Weave.shows hns)

end

/-- A mark and the token it stands for are both an equals sign, or neither is. -/
theorem Mark.Shows.isEquals_iff {m : Mark} {t : Token} (h : m.Shows t) :
    m.isEquals = true ↔ t.kind = .simpleAssignment := by
  cases m with
  | initialised name => exact ⟨fun _ => h, fun _ => rfl⟩
  | leaf l =>
    rw [Shows] at h
    unfold Token.leaf? at h
    split at h <;> cases h <;> simp_all [isEquals]

theorem Mark.Shows.content?_eq {m : Mark} {t : Token} (h : m.Shows t) :
    m.content? = t.content? := by
  have hequals := h.isEquals_iff
  cases m with
  | initialised name =>
    rw [Shows] at h
    simp [content?, Token.content?, h]
  | leaf l =>
    rw [Shows] at h
    rw [content?, Token.content?, h]
    split <;> split <;> simp_all

/-- What is listed of marks is listed of the tokens they stand for. -/
theorem filterMap_content?_eq {ms : List Mark} {c : List Token}
    (h : List.Forall₂ Mark.Shows ms (kept c)) :
    ms.filterMap Mark.content? = c.filterMap Token.content? := by
  have hkept : (kept c).filterMap Token.content? = c.filterMap Token.content? := by
    rw [kept, List.filterMap_filter]
    congr 1
    funext t
    cases ht : t.leaf? <;> simp [Token.content?, ht]
  rw [← hkept]
  generalize kept c = d at h
  induction h with
  | nil => rfl
  | cons hm _ ih => rw [List.filterMap_cons, List.filterMap_cons, hm.content?_eq, ih]

/-- The marks of equals signs stand for the equals signs. -/
theorem forall₂_isEquals {ms : List Mark} {c : List Token}
    (h : List.Forall₂ Mark.Shows ms (kept c)) :
    List.Forall₂ Mark.Shows (ms.filter Mark.isEquals)
      (c.filter fun t => t.kind = .simpleAssignment) := by
  have hkept : (kept c).filter (fun t => decide (t.kind = .simpleAssignment)) =
      c.filter fun t => t.kind = .simpleAssignment := by
    rw [kept, List.filter_filter]
    congr 1
    funext t
    by_cases hk : t.kind = .simpleAssignment
    · simp [hk, Token.leaf?_of_simpleAssignment hk]
    · simp [hk]
  rw [← hkept]
  refine List.rel_filter (fun m t hm => ?_) h
  show m.isEquals = true ↔ decide (t.kind = .simpleAssignment) = true
  rw [hm.isEquals_iff, decide_eq_true_iff]

/-- Read from left to right, the tree of a source lists its names, numbers, strings and operators as
the tokens do, and for each equals sign it has one assignment with that operator, or one declared
variable with a first value. -/
theorem parseSource_keeps_tokens (source : String) (options : ParseOptions) (p : Program)
    (h : parseSource source options = .ok p) :
    ∃ ts, tokenize source options.file = .ok ts ∧
      List.Forall₂ Mark.Shows p.node.marks (ts.filter (·.leaf?.isSome)) ∧
      p.node.marks.filterMap Mark.content? = ts.filterMap Token.content? ∧
      List.Forall₂ Mark.Shows (p.node.marks.filter Mark.isEquals)
        (ts.filter fun t => t.kind = .simpleAssignment) := by
  obtain ⟨ts, n, htokens, hd, -⟩ := exists_derivable_of_parseSource h
  have hshows : List.Forall₂ Mark.Shows p.node.marks (kept ts) := by
    rw [Program.node, Node.marks]
    exact hd.weave.shows
  exact ⟨ts, htokens, hshows, filterMap_content?_eq hshows, forall₂_isEquals hshows⟩

/-- A declared variable with a first value that is an assignment in parentheses. -/
theorem parseSource_keeps_tokens_nested :
    ∃ p ts, parseSource "let a = (b = 'c' + d), e" {} = .ok p ∧
      tokenize "let a = (b = 'c' + d), e" none = .ok ts ∧
      p.node.marks.filterMap Mark.content? = ts.filterMap Token.content? ∧
      List.Forall₂ Mark.Shows (p.node.marks.filter Mark.isEquals)
        (ts.filter fun t => t.kind = .simpleAssignment) := by
  have hok : (parseSource "let a = (b = 'c' + d), e" {}).isOk = true := by decide +kernel
  cases h : parseSource "let a = (b = 'c' + d), e" {} with
  | error e =>
    rw [h] at hok
    cases hok
  | ok p =>
    obtain ⟨ts, htokens, -, hcontent, hequals⟩ := parseSource_keeps_tokens _ {} p h
    exact ⟨p, ts, rfl, htokens, hcontent, hequals⟩

end Scriptlet
