import EcmaMachine.Proofs.Grammar.Located

/-!
What is built from a match. Every rule is built into a node of one kind, and the grammar puts the
right kinds of nodes into each other.
-/

namespace EcmaMachine.Grammar

/-! ## Kinds -/

inductive Kind
  | block | statement | members | member | expression | literal | computed | name | pattern | head | entry
  | bound | other | patterns | arguments | key | token
  deriving DecidableEq

/-- Words and the end of the text have no kind. -/
def Rule.kind : Rule → Option Kind
  | .wordBreak | .wordCatch | .wordClass | .wordContinue | .wordDebugger | .wordElse
  | .wordExtends | .wordFinally | .wordFor | .wordFunction | .wordIf | .wordIn | .wordNew
  | .wordOf | .wordReturn | .wordThrow | .wordTry | .wordWhile | .finish => none
  | .block => some .block
  | .program | .emptyStatement | .expressionStatement | .debuggerStatement
  | .variableDeclaration | .ifStatement | .whileStatement | .forInStatement | .forOfStatement
  | .forStatement | .returnStatement | .throwStatement | .breakStatement | .continueStatement
  | .tryStatement | .catchClause | .finallyClause | .functionDeclaration | .classDeclaration =>
    some .statement
  | .classBody => some .members
  | .classMember => some .member
  | .variableDeclarator | .forTest | .forUpdate | .functionExpression | .arrowFunction
  | .classHeritage | .expression | .assignment | .conditional | .logicalOr | .logicalAnd
  | .bitwiseOr | .bitwiseXor | .bitwiseAnd | .equality | .relational | .shift | .additive
  | .multiplicative | .exponent | .unary | .postfixed | .memberChain | .newExpression | .newTarget
  | .computedMember | .parenthesized | .thisExpression | .arrayLiteral | .objectLiteral
  | .nullLiteral | .booleanLiteral | .templateLiteral | .templateSubstitution => some .expression
  | .numberLiteral | .stringLiteral => some .literal
  | .computedKey => some .computed
  | .identifier | .propertyName | .staticMember => some .name
  | .bindingElement | .objectPattern => some .pattern
  | .forDeclaration => some .head
  | .initProperty | .methodProperty | .shorthandProperty => some .entry
  | .patternProperty => some .bound
  | .forInit => some .other
  | .parameters | .arrowParameters => some .patterns
  | .callArguments => some .arguments
  | .propertyKey => some .key
  | _ => some .token

namespace Kind

variable {k k' : Kind} {n : Node}

def Holds : Kind → Node → Prop
  | block, n => n.Statement ∧ n.type = .blockStatement
  | statement, n => n.Statement
  | members, n => (∀ r, Runs r n) ∧ n.IsClassBody
  | member, n => (∀ r, Runs r n) ∧ n.IsMethod
  | expression, n | computed, n => n.Expression
  | literal, n => n.Expression ∧ n.staticKey? ≠ none
  | name, n => n.identifierName? ≠ none
  | pattern, n => Binds n
  | head, n => ∀ r, Shape.HeadParts Binds Role.takes r n
  | entry, n => n.shape.EntryParts Runs Role.takes
  | bound, n => n.shape.BoundParts Binds Role.takes
  | other, _ => True
  | patterns, _ | arguments, _ | key, _ | token, _ => False

def item : Kind → Kind
  | patterns => pattern
  | arguments => expression
  | _ => token

def isNode : Kind → Bool
  | patterns | arguments | key | token => false
  | _ => true

def le : Kind → Kind → Bool
  | block, statement | literal, expression | computed, expression | expression, computed
  | name, expression | name, pattern | name, literal => true
  | a, other => a.isNode
  | a, b => a == b

def below : List Kind → List Kind → Bool
  | [], [] => true
  | a :: as, b :: bs => a.le b && below as bs
  | _, _ => false

def Has (k : Kind) (span : Span) : Built → Prop
  | .node n => n.Fit span ∧ k.Holds n
  | .nodes ns => k.item ≠ .token ∧ (∀ n ∈ ns, n.Fit span ∧ k.item.Holds n) ∧ InOrder ns
  | .key n isComputed => k = .key ∧ n.Fit span ∧
      if isComputed then n.Expression else n.staticKey? ≠ none
  | .token => k = .token

theorem expression_of_name (h : n.identifierName? ≠ none) : n.Expression := by
  unfold Node.identifierName? at h
  split at h
  · next shape =>
    refine ⟨runs_of_parts ?_, ?_⟩
    · rw [shape]
      trivial
    · rw [Node.type, shape]
      nofun
  · contradiction

theorem binds_of_name (h : n.identifierName? ≠ none) : Binds n := by
  unfold Node.identifierName? at h
  split at h
  · next shape =>
    refine binds_of_parts ?_
    rw [shape]
    trivial
  · contradiction

theorem staticKey_of_name (h : n.identifierName? ≠ none) : n.staticKey? ≠ none := by
  unfold Node.identifierName? at h
  split at h
  · next shape => simp [Node.staticKey?, shape]
  · contradiction

theorem Holds.mono (h : k.Holds n) (le : k.le k' = true) : k'.Holds n := by
  unfold Kind.le at le
  split at le
  case h_1 | h_2 => exact h.1
  case h_3 | h_4 => exact h
  case h_5 => exact expression_of_name h
  case h_6 => exact binds_of_name h
  case h_7 => exact ⟨expression_of_name h, staticKey_of_name h⟩
  case h_8 => trivial
  case h_9 =>
    cases beq_iff_eq.1 le
    exact h

theorem isNode_of_le (le : k.le k' = true) (isNode : k'.isNode = true) : k.isNode = true := by
  cases k <;> cases k' <;> first | rfl | (cases isNode; done) | cases le

theorem eq_of_le (le : k.le k' = true) (other : k'.isNode = false) : k = k' := by
  cases k <;> cases k' <;> first | rfl | (cases le; done) | cases other

/-! ### Nodes of a kind -/

section Nodes

variable {shape : Shape Node} {s span : Span} (upright : s.start ≤ s.stop)
  (inside : s.Inside span) (children : ∀ m ∈ shape.children, m.Fit s)
  (lists : ∀ ns ∈ shape.lists, InOrder ns) (formed : (Node.mk shape (some s)).Formed)

include upright inside children lists formed

theorem fit_runs {r : Role} (runs : Runs r (.mk shape (some s))) :
    (Node.mk shape (some s)).Fit span :=
  Node.fit_mk (Node.sound_of_runs runs (fun m mem => (children m mem).sound) formed) upright inside
    (fun m mem => ⟨(children m mem).nested, fun _ => (children m mem).inside⟩) lists

/-- A node that is not run by itself. -/
theorem fit_plain (plain : (Node.mk shape (some s)).functionParts? = none) :
    (Node.mk shape (some s)).Fit span :=
  Node.fit_mk (Node.sound_of_plain plain (fun m mem => (children m mem).sound) formed) upright
    inside (fun m mem => ⟨(children m mem).nested, fun _ => (children m mem).inside⟩) lists

theorem fit_expression (parts : shape.Parts Runs Binds Role.takes .closed)
    (type : ((Node.mk shape (some s)).type == .blockStatement) = false) :
    expression.Has span (.node (.mk shape (some s))) :=
  ⟨fit_runs upright inside children lists formed (runs_of_parts parts), runs_of_parts parts,
    ne_of_beq_false type⟩

end Nodes

variable {shape : Shape Node} {span : Span}

theorem has_statement (upright : span.start ≤ span.stop)
    (h : (Node.mk shape (some span)).Statement) (children : ∀ m ∈ shape.children, m.Fit span)
    (lists : ∀ ns ∈ shape.lists, InOrder ns)
    (formed : (Node.mk shape (some span)).Formed) :
    statement.Has span (.node (.mk shape (some span))) :=
  ⟨fit_runs upright (.refl span) children lists formed (h true fun _ => rfl), h⟩

theorem has_expression (upright : span.start ≤ span.stop)
    (parts : shape.Parts Runs Binds Role.takes .closed)
    (children : ∀ m ∈ shape.children, m.Fit span)
    (lists : ∀ ns ∈ shape.lists, InOrder ns)
    (formed : (Node.mk shape (some span)).Formed)
    (type : ((Node.mk shape (some span)).type == .blockStatement) = false) :
    expression.Has span (.node (.mk shape (some span))) :=
  fit_expression upright (.refl span) children lists formed parts type

theorem has_name {p : Part} (upright : p.span.start ≤ p.span.stop) :
    name.Has p.span (.node (nameNode p)) :=
  ⟨fit_plain upright (.refl _) (List.forall_mem_nil _) (List.forall_mem_nil _) trivial rfl,
    by rintro ⟨⟩⟩

end Kind

/-! ## Parts -/

def Part.kind (p : Part) : Kind := p.rule.kind.getD .token

theorem exists_of_bind {ε α β : Type} {x : Except ε α} {f : α → Except ε β} {b : β}
    (h : x >>= f = .ok b) : ∃ a, x = .ok a ∧ f a = .ok b := by
  cases x with
  | error => cases h
  | ok a => exact ⟨a, rfl, h⟩

variable {parts : List Part}

theorem takeRule_spec (r : Rule) (parts : List Part) :
    parts = (takeRule r parts).1.toList ++ (takeRule r parts).2 ∧
      ∀ p ∈ (takeRule r parts).1, p.rule = r := by
  cases parts with
  | nil => exact ⟨rfl, nofun⟩
  | cons p rest =>
    by_cases same : p.rule = r
    · rw [takeRule, if_pos (beq_iff_eq.2 same)]
      refine ⟨rfl, fun q mem => ?_⟩
      cases mem
      exact same
    · rw [takeRule, if_neg (mt beq_iff_eq.1 same)]
      exact ⟨rfl, nofun⟩

theorem mem_of_taken {r : Rule} {p : Part} (mem : p ∈ (takeRule r parts).1) : p ∈ parts := by
  rw [(takeRule_spec r parts).1]
  exact List.mem_append_left _ (Option.mem_toList.2 mem)

theorem takeRule_suffix (r : Rule) (parts : List Part) : (takeRule r parts).2 <:+ parts :=
  ⟨_, (takeRule_spec r parts).1.symm⟩

theorem mem_of_left {r : Rule} {p : Part} (mem : p ∈ (takeRule r parts).2) : p ∈ parts :=
  (takeRule_suffix r parts).subset mem

end EcmaMachine.Grammar
