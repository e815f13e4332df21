import Scriptlet.Proofs.JsonLayout
import Scriptlet.Tree.Json

/-!
# Trees from their JSON

The dump of a program loses nothing of it but, perhaps, the values of its numbers. Two programs with
the same compact text are the same in all else: in the shapes of their nodes, in names, texts and
operators, in what is missing, in the lengths and the order of lists, and in all positions and
labels.

Documents are read back from their texts in general, so what is left is that trees are read back
from documents. Where nodes of several shapes can stand in one place their first members differ, and
within one shape the members are compared one by one. A part that is missing is `null`, and no node
is.

## Main definitions

* `Program.unnumbered` and the same for all nodes that can hold numbers: what is left of a tree
  without the values of its numbers;
* `Json.Keeps`: dumps that determine a part of what they are made from;
* `Json.UniqueKeys`: documents whose objects have no key twice.

## Main results

* `Expr.unnumbered_eq_of_blur_eq`, `Stmt.unnumbered_eq_of_blur_eq`: trees are read back;
* `Program.uniqueKeys_toJson`: no object of a dump has a key twice;
* `Program.toJson_faithful`: the two forms of a dump, and what they keep.
-/

namespace Scriptlet

/-! ### Trees without the values of their numbers -/

mutual

/-- An expression with all its numbers made zero. -/
def Expr.unnumbered : Expr → Expr
  | .identifier id => .identifier id
  | .number _ span => .number ⟨0⟩ span
  | .string value span => .string value span
  | .object properties span => .object (Property.allUnnumbered properties) span
  | .binary left operator right span => .binary left.unnumbered operator right.unnumbered span
  | .assignment assignee operator value span =>
    .assignment assignee.unnumbered operator value.unnumbered span
  | .spread operator operand span => .spread operator operand.unnumbered span
  | .call callee arguments span => .call callee (Expr.allUnnumbered arguments) span

/-- A property with all its numbers made zero. -/
def Property.unnumbered : Property → Property
  | .keyValue key value span => .keyValue key value.unnumbered span
  | .shorthand key span => .shorthand key span
  | .spread init span => .spread init.unnumbered span

/-- Expressions with all their numbers made zero. -/
def Expr.allUnnumbered : List Expr → List Expr
  | [] => []
  | e :: es => e.unnumbered :: Expr.allUnnumbered es

/-- Properties with all their numbers made zero. -/
def Property.allUnnumbered : List Property → List Property
  | [] => []
  | p :: ps => p.unnumbered :: Property.allUnnumbered ps

end

/-- A declarator with all its numbers made zero. -/
def Declarator.unnumbered (d : Declarator) : Declarator :=
  { d with init := d.init.map Expr.unnumbered }

mutual

/-- A statement with all its numbers made zero. -/
def Stmt.unnumbered : Stmt → Stmt
  | .empty span => .empty span
  | .block body span => .block (Stmt.allUnnumbered body) span
  | .declaration kind declarators span =>
    .declaration kind (declarators.map Declarator.unnumbered) span
  | .result value span => .result value.unnumbered span
  | .function name params body span => .function name params (Stmt.allUnnumbered body) span
  | .expression value span => .expression value.unnumbered span

/-- Statements with all their numbers made zero. -/
def Stmt.allUnnumbered : List Stmt → List Stmt
  | [] => []
  | a :: as => a.unnumbered :: Stmt.allUnnumbered as

end

/-- A program with all its numbers made zero. -/
def Program.unnumbered (p : Program) : Program := { p with body := Stmt.allUnnumbered p.body }

/-! ### What dumps keep -/

namespace Json

/-- The dump of a thing determines a part of it, whatever the values of numbers are. -/
def Keeps {α β : Type} (toJson : α → Json) (part : α → β) : Prop :=
  ∀ a a', (toJson a).blur = (toJson a').blur → part a = part a'

variable {α β : Type} {toJson : α → Json} {part : α → β}

/-- Lists are kept element by element. -/
theorem Keeps.list (h : Keeps toJson part) {as as' : List α}
    (heq : blurItems (as.map toJson) = blurItems (as'.map toJson)) :
    as.map part = as'.map part := by
  induction as generalizing as' with
  | nil =>
    cases as' with
    | nil => rfl
    | cons a' as' => cases heq
  | cons a as ih =>
    cases as' with
    | nil => cases heq
    | cons a' as' =>
      obtain ⟨hhead, htail⟩ := List.cons.inj heq
      rw [List.map_cons, List.map_cons, h a a' hhead, ih htail]

/-- A part that may be missing is kept, if it is never `null` itself. -/
theorem Keeps.optional (h : Keeps toJson part) (hnull : ∀ a, (toJson a).blur ≠ .null)
    {o o' : Option α} (heq : (Json.optional toJson o).blur = (Json.optional toJson o').blur) :
    o.map part = o'.map part := by
  cases o with
  | none =>
    cases o' with
    | none => rfl
    | some a' => exact absurd heq.symm (hnull a')
  | some a =>
    cases o' with
    | none => exact absurd heq (hnull a)
    | some a' => rw [Option.map_some, Option.map_some, h a a' heq]

end Json

/-! ### Positions, tokens and names -/

/-- A position is determined by its dump: both numbers in it are natural ones, which are kept. -/
@[simp] theorem Position.blur_toJson_inj {p q : Position} :
    p.toJson.blur = q.toJson.blur ↔ p = q := by
  obtain ⟨offset, file⟩ := p
  obtain ⟨offset', file'⟩ := q
  simp [toJson, UInt32.toNat_inj]

/-- A span is determined by its dump. -/
@[simp] theorem Span.blur_toJson_inj {s t : Span} : s.toJson.blur = t.toJson.blur ↔ s = t := by
  obtain ⟨start, stop⟩ := s
  obtain ⟨start', stop'⟩ := t
  simp [toJson]

/-- The kinds of tokens have names of their own. -/
theorem Kind.ofName?_name (k : Kind) : ofName? k.name = some k := by
  cases k <;> decide

@[simp] theorem Kind.name_inj {k l : Kind} : k.name = l.name ↔ k = l := by
  refine ⟨fun h => ?_, congrArg name⟩
  -- Names are told apart by reading them back, so that the kinds need not be compared in pairs.
  rw [← Option.some_inj, ← ofName?_name, h, ofName?_name]

/-- The two declaration kinds have different names. -/
@[simp] theorem DeclarationKind.name_inj {k l : DeclarationKind} : k.name = l.name ↔ k = l := by
  cases k <;> cases l <;> decide

/-- A token is determined by its dump, also one that holds a number: its value is dumped as text. -/
@[simp] theorem Token.blur_toJson_inj {t u : Token} : t.toJson.blur = u.toJson.blur ↔ t = u := by
  obtain ⟨kind, value, span⟩ := t
  obtain ⟨kind', value', span'⟩ := u
  simp [toJson]

/-- The members of an identifier stand without braces of their own in nodes that hold nothing else.
-/
@[simp] theorem Identifier.blurMembers_inj {id id' : Identifier} :
    Json.blurMembers id.members = Json.blurMembers id'.members ↔ id = id' := by
  obtain ⟨name, span⟩ := id
  obtain ⟨name', span'⟩ := id'
  simp [members]

@[simp] theorem Identifier.blur_toJson_inj {id id' : Identifier} :
    id.toJson.blur = id'.toJson.blur ↔ id = id' := by
  simp [toJson]

/-! ### Expressions -/

mutual

/-- An expression is read back from its dump. -/
theorem Expr.unnumbered_eq_of_blur_eq (e e' : Expr) (h : e.toJson.blur = e'.toJson.blur) :
    e.unnumbered = e'.unnumbered := by
  -- Expressions of different shapes differ in their first members.
  match e with
  | .identifier id =>
    cases e' with
    | identifier id' =>
      obtain rfl : id = id' := by simpa [Expr.toJson] using h
      rfl
    | _ => simp [Expr.toJson] at h
  | .number value span =>
    cases e' with
    | number value' span' =>
      obtain rfl : span = span' := by simpa [Expr.toJson] using h
      rfl
    | _ => simp [Expr.toJson] at h
  | .string value span =>
    cases e' with
    | string value' span' =>
      obtain ⟨rfl, rfl⟩ : value = value' ∧ span = span' := by simpa [Expr.toJson] using h
      rfl
    | _ => simp [Expr.toJson] at h
  | .object properties span =>
    cases e' with
    | object properties' span' =>
      obtain ⟨hproperties, rfl⟩ : Json.blurItems (Property.listToJson properties) =
          Json.blurItems (Property.listToJson properties') ∧ span = span' := by
        simpa [Expr.toJson] using h
      rw [Expr.unnumbered, Expr.unnumbered, Property.allUnnumbered_eq_of_blur_eq _ _ hproperties]
    | _ => simp [Expr.toJson] at h
  | .binary left operator right span =>
    cases e' with
    | binary left' operator' right' span' =>
      obtain ⟨hleft, rfl, hright, rfl⟩ : left.toJson.blur = left'.toJson.blur ∧
          operator = operator' ∧ right.toJson.blur = right'.toJson.blur ∧ span = span' := by
        simpa [Expr.toJson] using h
      rw [Expr.unnumbered, Expr.unnumbered, Expr.unnumbered_eq_of_blur_eq left left' hleft,
        Expr.unnumbered_eq_of_blur_eq right right' hright]
    | _ => simp [Expr.toJson] at h
  | .assignment assignee operator value span =>
    cases e' with
    | assignment assignee' operator' value' span' =>
      obtain ⟨hassignee, rfl, hvalue, rfl⟩ : assignee.toJson.blur = assignee'.toJson.blur ∧
          operator = operator' ∧ value.toJson.blur = value'.toJson.blur ∧ span = span' := by
        simpa [Expr.toJson] using h
      rw [Expr.unnumbered, Expr.unnumbered,
        Expr.unnumbered_eq_of_blur_eq assignee assignee' hassignee,
        Expr.unnumbered_eq_of_blur_eq value value' hvalue]
    | _ => simp [Expr.toJson] at h
  | .spread operator operand span =>
    cases e' with
    | spread operator' operand' span' =>
      obtain ⟨rfl, hoperand, rfl⟩ : operator = operator' ∧
          operand.toJson.blur = operand'.toJson.blur ∧ span = span' := by
        simpa [Expr.toJson] using h
      rw [Expr.unnumbered, Expr.unnumbered,
        Expr.unnumbered_eq_of_blur_eq operand operand' hoperand]
    | _ => simp [Expr.toJson] at h
  | .call callee arguments span =>
    cases e' with
    | call callee' arguments' span' =>
      obtain ⟨rfl, harguments, rfl⟩ : callee = callee' ∧
          Json.blurItems (Expr.listToJson arguments) =
            Json.blurItems (Expr.listToJson arguments') ∧ span = span' := by
        simpa [Expr.toJson] using h
      rw [Expr.unnumbered, Expr.unnumbered, Expr.allUnnumbered_eq_of_blur_eq _ _ harguments]
    | _ => simp [Expr.toJson] at h

/-- A property is read back from its dump. -/
theorem Property.unnumbered_eq_of_blur_eq (p p' : Property) (h : p.toJson.blur = p'.toJson.blur) :
    p.unnumbered = p'.unnumbered := by
  match p with
  | .keyValue key value span =>
    cases p' with
    | keyValue key' value' span' =>
      obtain ⟨rfl, hvalue, rfl⟩ : key = key' ∧ value.toJson.blur = value'.toJson.blur ∧
          span = span' := by
        simpa [Property.toJson] using h
      rw [Property.unnumbered, Property.unnumbered,
        Expr.unnumbered_eq_of_blur_eq value value' hvalue]
    | _ => simp [Property.toJson] at h
  | .shorthand key span =>
    cases p' with
    | shorthand key' span' =>
      obtain ⟨rfl, rfl⟩ : key = key' ∧ span = span' := by simpa [Property.toJson] using h
      rfl
    | _ => simp [Property.toJson] at h
  | .spread init span =>
    cases p' with
    | spread init' span' =>
      obtain ⟨hinit, rfl⟩ : init.toJson.blur = init'.toJson.blur ∧ span = span' := by
        simpa [Property.toJson] using h
      rw [Property.unnumbered, Property.unnumbered,
        Expr.unnumbered_eq_of_blur_eq init init' hinit]
    | _ => simp [Property.toJson] at h

/-- Lists of expressions are read back element by element. -/
theorem Expr.allUnnumbered_eq_of_blur_eq (es es' : List Expr)
    (h : Json.blurItems (Expr.listToJson es) = Json.blurItems (Expr.listToJson es')) :
    Expr.allUnnumbered es = Expr.allUnnumbered es' := by
  match es, es' with
  | [], [] => rfl
  | [], _ :: _ | _ :: _, [] => simp [Expr.listToJson] at h
  | e :: es, e' :: es' =>
    obtain ⟨he, hes⟩ := List.cons.inj h
    rw [Expr.allUnnumbered, Expr.allUnnumbered, Expr.unnumbered_eq_of_blur_eq e e' he,
      Expr.allUnnumbered_eq_of_blur_eq es es' hes]

theorem Property.allUnnumbered_eq_of_blur_eq (ps ps' : List Property)
    (h : Json.blurItems (Property.listToJson ps) = Json.blurItems (Property.listToJson ps')) :
    Property.allUnnumbered ps = Property.allUnnumbered ps' := by
  match ps, ps' with
  | [], [] => rfl
  | [], _ :: _ | _ :: _, [] => simp [Property.listToJson] at h
  | p :: ps, p' :: ps' =>
    obtain ⟨hp, hps⟩ := List.cons.inj h
    rw [Property.allUnnumbered, Property.allUnnumbered, Property.unnumbered_eq_of_blur_eq p p' hp,
      Property.allUnnumbered_eq_of_blur_eq ps ps' hps]

end

/-! ### Statements -/

/-- A property of a pattern is kept whole. A missing new name is `null`, and no identifier is. -/
theorem PatternProperty.keeps_toJson : Json.Keeps PatternProperty.toJson id := by
  rintro ⟨name, rename, span⟩ ⟨name', rename', span'⟩ h
  obtain ⟨rfl, hrename, rfl⟩ : name = name' ∧ (Json.optional Identifier.toJson rename).blur =
      (Json.optional Identifier.toJson rename').blur ∧ span = span' := by
    simpa [toJson] using h
  have hkeeps : Json.Keeps Identifier.toJson id := fun _ _ => Identifier.blur_toJson_inj.1
  have hnull : ∀ id : Identifier, id.toJson.blur ≠ .null := by simp [Identifier.toJson]
  rw [show rename = rename' by simpa using hkeeps.optional hnull hrename]

/-- A parameter is kept whole, there being no numbers in it. -/
theorem Param.keeps_toJson : Json.Keeps Param.toJson id := by
  intro p p' h
  cases p with
  | identifier id =>
    cases p' with
    | identifier id' =>
      obtain rfl : id = id' := by simpa [toJson] using h
      rfl
    | pattern p' => simp [toJson] at h
  | pattern p =>
    cases p' with
    | identifier id' => simp [toJson] at h
    | pattern p' =>
      obtain ⟨properties, span⟩ := p
      obtain ⟨properties', span'⟩ := p'
      obtain ⟨hproperties, rfl⟩ : Json.blurItems (properties.map PatternProperty.toJson) =
          Json.blurItems (properties'.map PatternProperty.toJson) ∧ span = span' := by
        simpa [toJson] using h
      rw [show properties = properties' by
        simpa using PatternProperty.keeps_toJson.list hproperties]

/-- A declarator is kept but for the numbers in what it starts with. -/
theorem Declarator.keeps_toJson : Json.Keeps Declarator.toJson Declarator.unnumbered := by
  rintro ⟨name, init, span⟩ ⟨name', init', span'⟩ h
  obtain ⟨rfl, hinit, rfl⟩ : name = name' ∧ (Json.optional Expr.toJson init).blur =
      (Json.optional Expr.toJson init').blur ∧ span = span' := by
    simpa [toJson] using h
  have hkeeps : Json.Keeps Expr.toJson Expr.unnumbered := Expr.unnumbered_eq_of_blur_eq
  -- Every expression is an object, and so is not taken for a missing one.
  have hnull : ∀ e : Expr, e.toJson.blur ≠ .null := by
    intro e
    cases e <;> simp [Expr.toJson]
  rw [unnumbered, unnumbered, hkeeps.optional hnull hinit]

mutual

/-- A statement is read back from its dump. -/
theorem Stmt.unnumbered_eq_of_blur_eq (a a' : Stmt) (h : a.toJson.blur = a'.toJson.blur) :
    a.unnumbered = a'.unnumbered := by
  -- Statements of different shapes differ in their first members.
  match a with
  | .empty span =>
    cases a' with
    | empty span' =>
      obtain rfl : span = span' := by simpa [Stmt.toJson] using h
      rfl
    | _ => simp [Stmt.toJson] at h
  | .block body span =>
    cases a' with
    | block body' span' =>
      obtain ⟨hbody, rfl⟩ : Json.blurItems (Stmt.listToJson body) =
          Json.blurItems (Stmt.listToJson body') ∧ span = span' := by
        simpa [Stmt.toJson] using h
      rw [Stmt.unnumbered, Stmt.unnumbered, Stmt.allUnnumbered_eq_of_blur_eq _ _ hbody]
    | _ => simp [Stmt.toJson] at h
  | .declaration kind declarators span =>
    cases a' with
    | declaration kind' declarators' span' =>
      obtain ⟨rfl, hdeclarators, rfl⟩ : kind = kind' ∧
          Json.blurItems (declarators.map Declarator.toJson) =
            Json.blurItems (declarators'.map Declarator.toJson) ∧ span = span' := by
        simpa [Stmt.toJson] using h
      rw [Stmt.unnumbered, Stmt.unnumbered, Declarator.keeps_toJson.list hdeclarators]
    | _ => simp [Stmt.toJson] at h
  | .result value span =>
    cases a' with
    | result value' span' =>
      obtain ⟨hvalue, rfl⟩ : value.toJson.blur = value'.toJson.blur ∧ span = span' := by
        simpa [Stmt.toJson] using h
      rw [Stmt.unnumbered, Stmt.unnumbered, Expr.unnumbered_eq_of_blur_eq _ _ hvalue]
    | _ => simp [Stmt.toJson] at h
  | .function name params body span =>
    cases a' with
    | function name' params' body' span' =>
      obtain ⟨rfl, hparams, hbody, rfl⟩ : name = name' ∧
          Json.blurItems (params.map Param.toJson) = Json.blurItems (params'.map Param.toJson) ∧
          Json.blurItems (Stmt.listToJson body) = Json.blurItems (Stmt.listToJson body') ∧
          span = span' := by
        simpa [Stmt.toJson] using h
      obtain rfl : params = params' := by simpa using Param.keeps_toJson.list hparams
      rw [Stmt.unnumbered, Stmt.unnumbered, Stmt.allUnnumbered_eq_of_blur_eq _ _ hbody]
    | _ => simp [Stmt.toJson] at h
  | .expression value span =>
    cases a' with
    | expression value' span' =>
      obtain ⟨hvalue, rfl⟩ : value.toJson.blur = value'.toJson.blur ∧ span = span' := by
        simpa [Stmt.toJson] using h
      rw [Stmt.unnumbered, Stmt.unnumbered, Expr.unnumbered_eq_of_blur_eq _ _ hvalue]
    | _ => simp [Stmt.toJson] at h

theorem Stmt.allUnnumbered_eq_of_blur_eq (as as' : List Stmt)
    (h : Json.blurItems (Stmt.listToJson as) = Json.blurItems (Stmt.listToJson as')) :
    Stmt.allUnnumbered as = Stmt.allUnnumbered as' := by
  match as, as' with
  | [], [] => rfl
  | [], _ :: _ | _ :: _, [] => simp [Stmt.listToJson] at h
  | a :: as, a' :: as' =>
    obtain ⟨ha, has⟩ := List.cons.inj h
    rw [Stmt.allUnnumbered, Stmt.allUnnumbered, Stmt.unnumbered_eq_of_blur_eq a a' ha,
      Stmt.allUnnumbered_eq_of_blur_eq as as' has]

end

/-- A program is kept but for its numbers. -/
theorem Program.keeps_toJson : Json.Keeps Program.toJson Program.unnumbered := by
  rintro ⟨body, span⟩ ⟨body', span'⟩ h
  obtain ⟨hbody, rfl⟩ : Json.blurItems (Stmt.listToJson body) =
      Json.blurItems (Stmt.listToJson body') ∧ span = span' := by
    simpa [toJson] using h
  rw [unnumbered, unnumbered, Stmt.allUnnumbered_eq_of_blur_eq _ _ hbody]

/-! ### Keys -/

namespace Json

mutual

/-- No object of the document has two members of one key. -/
def UniqueKeys : Json → Prop
  | null | natural _ | number _ | text _ => True
  | array items => UniqueKeysItems items
  | object members => (members.map (·.1)).Nodup ∧ UniqueKeysMembers members

/-- The same for elements. -/
def UniqueKeysItems : List Json → Prop
  | [] => True
  | j :: js => j.UniqueKeys ∧ UniqueKeysItems js

/-- The same for the values of members. -/
def UniqueKeysMembers : List (String × Json) → Prop
  | [] => True
  | (_, j) :: members => j.UniqueKeys ∧ UniqueKeysMembers members

end

attribute [simp] UniqueKeys UniqueKeysItems UniqueKeysMembers

/-- If a thing is dumped with unique keys, so is a list of such things. -/
theorem uniqueKeysItems_map {α : Type} {toJson : α → Json} (h : ∀ a, (toJson a).UniqueKeys)
    (as : List α) : UniqueKeysItems (as.map toJson) := by
  induction as with
  | nil => trivial
  | cons a as ih => exact ⟨h a, ih⟩

theorem uniqueKeys_optional {α : Type} {toJson : α → Json} (h : ∀ a, (toJson a).UniqueKeys)
    (o : Option α) : (Json.optional toJson o).UniqueKeys := by
  cases o with
  | none => trivial
  | some a => exact h a

end Json

@[simp] theorem Span.uniqueKeys_toJson (s : Span) : s.toJson.UniqueKeys := by
  simp [toJson, Position.toJson]

@[simp] theorem Token.uniqueKeys_toJson (t : Token) : t.toJson.UniqueKeys := by
  simp [toJson]

@[simp] theorem Identifier.uniqueKeys_toJson (id : Identifier) : id.toJson.UniqueKeys := by
  simp [toJson, members]

mutual

theorem Expr.uniqueKeys_toJson : ∀ e : Expr, e.toJson.UniqueKeys
  | .identifier _ => by simp [Expr.toJson, Identifier.members]
  | .number _ _ | .string _ _ => by simp [Expr.toJson]
  | .object properties _ => by simp [Expr.toJson, Property.uniqueKeysItems_listToJson properties]
  | .binary left _ right _ => by
    simp [Expr.toJson, left.uniqueKeys_toJson, right.uniqueKeys_toJson]
  | .assignment assignee _ value _ => by
    simp [Expr.toJson, assignee.uniqueKeys_toJson, value.uniqueKeys_toJson]
  | .spread _ operand _ => by simp [Expr.toJson, operand.uniqueKeys_toJson]
  | .call _ arguments _ => by simp [Expr.toJson, Expr.uniqueKeysItems_listToJson arguments]

theorem Property.uniqueKeys_toJson : ∀ p : Property, p.toJson.UniqueKeys
  | .keyValue _ value _ => by simp [Property.toJson, value.uniqueKeys_toJson]
  | .shorthand _ _ => by simp [Property.toJson]
  | .spread init _ => by simp [Property.toJson, init.uniqueKeys_toJson]

theorem Expr.uniqueKeysItems_listToJson :
    ∀ es : List Expr, Json.UniqueKeysItems (Expr.listToJson es)
  | [] => trivial
  | e :: es => ⟨e.uniqueKeys_toJson, Expr.uniqueKeysItems_listToJson es⟩

theorem Property.uniqueKeysItems_listToJson :
    ∀ ps : List Property, Json.UniqueKeysItems (Property.listToJson ps)
  | [] => trivial
  | p :: ps => ⟨p.uniqueKeys_toJson, Property.uniqueKeysItems_listToJson ps⟩

end

theorem PatternProperty.uniqueKeys_toJson (p : PatternProperty) : p.toJson.UniqueKeys := by
  simp [toJson, Json.uniqueKeys_optional Identifier.uniqueKeys_toJson]

/-- The label of a parameter is not among the keys of what it labels. -/
theorem Param.uniqueKeys_toJson (p : Param) : p.toJson.UniqueKeys := by
  cases p with
  | identifier id => simp [toJson, Identifier.members]
  | pattern p => simp [toJson, Json.uniqueKeysItems_map PatternProperty.uniqueKeys_toJson]

theorem Declarator.uniqueKeys_toJson (d : Declarator) : d.toJson.UniqueKeys := by
  simp [toJson, Json.uniqueKeys_optional Expr.uniqueKeys_toJson]

mutual

theorem Stmt.uniqueKeys_toJson : ∀ a : Stmt, a.toJson.UniqueKeys
  | .empty _ => by simp [Stmt.toJson]
  | .block body _ => by simp [Stmt.toJson, Stmt.uniqueKeysItems_listToJson body]
  | .declaration _ _ _ => by
    simp [Stmt.toJson, Json.uniqueKeysItems_map Declarator.uniqueKeys_toJson]
  | .result value _ | .expression value _ => by simp [Stmt.toJson, value.uniqueKeys_toJson]
  | .function _ _ body _ => by
    simp [Stmt.toJson, Json.uniqueKeysItems_map Param.uniqueKeys_toJson,
      Stmt.uniqueKeysItems_listToJson body]

theorem Stmt.uniqueKeysItems_listToJson :
    ∀ as : List Stmt, Json.UniqueKeysItems (Stmt.listToJson as)
  | [] => trivial
  | a :: as => ⟨a.uniqueKeys_toJson, Stmt.uniqueKeysItems_listToJson as⟩

end

/-- No object of the dump of a program has two members of one key. -/
theorem Program.uniqueKeys_toJson (p : Program) : p.toJson.UniqueKeys := by
  simp [toJson, Stmt.uniqueKeysItems_listToJson]

/-! ### Programs -/

/-- A program is determined by its dump in compact form, but for the values of its numbers; no
object of the dump has two members of one key; and the pretty form without the white space outside
strings is the compact form. -/
theorem Program.toJson_faithful (p : Program) :
    (∀ q : Program, p.toJson.compact = q.toJson.compact → p.unnumbered = q.unnumbered) ∧
      p.toJson.UniqueKeys ∧ squeeze p.toJson.pretty.toList = p.toJson.compact.toList :=
  ⟨fun q h => Program.keeps_toJson p q (Json.blur_eq_of_compact_eq h), p.uniqueKeys_toJson,
    p.toJson.squeeze_pretty⟩

end Scriptlet
