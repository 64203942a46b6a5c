import EcmaMachine.Proofs.Grammar.Statements

/-!
The rules for expressions are built into what their kinds say, unless the text is at fault, and so
the tree of a text is in order: its statements can be run, and its nodes stand where they are
written.
-/

namespace EcmaMachine.Grammar

variable {cs : List Char} {whole : Part} {parts : List Part} {span : Span}

namespace Assemble

variable {o r : Rule}

/-- What is built into the same as its only part. -/
theorem settles_pass {k : Kind} (h : Arranged cs r whole.span parts)
    (known : Kind.below (parts.map Part.kind) [k] = true) (isNode : k.isNode = true) :
    Settles cs (k.Has whole.span) (pass whole parts) := by
  obtain ⟨only, rfl, serves⟩ := h.one known
  exact (serves.node isNode).bind fun n good => good

theorem settles_expression : Assembles cs .expression .expression expression := by
  intro whole parts h
  refine (h.nodes .expression rfl (by decide)).bind fun ns all => ?_
  split
  · next single => exact all.1 single (List.mem_singleton_self single)
  · exact Kind.has_expression h.upright (fun n mem => (all.1 n mem).2.1)
      (fun n mem => (all.1 n mem).1) (by simpa [Shape.lists] using all.2) trivial rfl

theorem settles_assignment : Assembles cs .assignment .expression assignment := by
  intro whole parts h
  rcases h.either [.expression] [.expression, .token, .expression] (by decide) with known | known
  · obtain ⟨only, rfl, serves⟩ := h.one known
    exact (serves.node rfl).bind fun n good => good
  · obtain ⟨left, operator, right, rfl, serves, ⟨sturdy, -⟩, serves'⟩ := h.three known
    have rule := h.checked (fun rs => rs.length == 1 || rs.tail.head? == some .assignOp) (by decide)
    have rule : operator.rule = .assignOp := by simpa using rule
    have spoken := sturdy.speaks (fun s => (AssignOp.ofSymbol? s).isSome)
      (by rw [rule]; decide)
    refine (serves.node rfl).bind fun n good => ?_
    refine (Part.settles_assignable sturdy.placed (by rw [rule]; rfl) n).bind ?_
    rintro _ ⟨rfl, isTarget⟩
    split
    · exact (serves'.node rfl).bind fun m good' => Kind.has_expression h.upright
        ⟨by simp [isTarget], good.2.1, good'.2.1⟩ (by simp [Shape.children, good.1, good'.1]) nofun
        trivial rfl
    · next none => simp [none] at spoken

theorem settles_conditional : Assembles cs .conditional .expression conditional := by
  intro whole parts h
  rcases h.either [.expression] [.expression, .expression, .expression] (by decide)
    with known | known
  · obtain ⟨only, rfl, serves⟩ := h.one known
    exact (serves.node rfl).bind fun n good => good
  · obtain ⟨test, consequent, alternate, rfl, serves, serves', serves''⟩ := h.three known
    exact (serves.node rfl).bind fun n good => (serves'.node rfl).bind fun m good' =>
      (serves''.node rfl).bind fun o good'' => Kind.has_expression h.upright
        ⟨good.2.1, good'.2.1, good''.2.1⟩ (by simp [Shape.children, good.1, good'.1, good''.1])
        nofun trivial rfl

/-! ### Operators -/

def isOperation (s : String) : Bool :=
  (LogicalOp.ofSymbol? s).isSome || (BinaryOp.ofSymbol? s).isSome

theorem settles_operationShape (span : Span) {operator : Part} {left right : Node}
    (known : isOperation operator.text = true) (good : left.Expression)
    (good' : right.Expression) :
    Settles cs (fun shape => ∀ s : Span, s.start ≤ s.stop → s.Inside span → left.Fit s →
      right.Fit s → Kind.expression.Has span (.node (.mk shape (some s))))
      (operationShape operator left right) := by
  unfold operationShape
  split
  · exact fun s upright inside fit fit' => Kind.fit_expression upright inside
      (by simp [Shape.children, fit, fit']) (List.forall_mem_nil _) trivial ⟨good.1, good'.1⟩ rfl
  · next none =>
    split
    · exact fun s upright inside fit fit' => Kind.fit_expression upright inside
        (by simp [Shape.children, fit, fit']) (List.forall_mem_nil _) trivial ⟨good.1, good'.1⟩ rfl
    · next none' => simp [isOperation, none, none'] at known

/-- What is on the left ends before the operators that follow. -/
theorem settles_chain {left : Node} (sturdy : ∀ p ∈ parts, p.Sturdy cs span) (lined : Lined parts)
    (alternates : Alternates o parts) (speaks : o.speaks isOperation = true)
    (good : left.Fit span ∧ left.Expression)
    (before : ∀ s ∈ left.loc, ∀ p ∈ parts, s.stop ≤ p.span.start) :
    Settles cs (fun n => n.Fit span ∧ n.Expression) (chain left parts) := by
  induction alternates generalizing left with
  | nil => exact good
  | @cons operator operand rest rule le _ ih =>
    have known := (sturdy operator (by simp)).speaks isOperation (by rw [rule]; exact speaks)
    have own := sturdy operand (by simp)
    obtain ⟨lined, others⟩ := List.pairwise_cons.1 (List.pairwise_cons.1 lined).2
    obtain ⟨a, loc, upright, inside, fit⟩ := good.1.exists_loc
    refine (Part.Serves.own (k := .expression) ⟨own, le⟩ rfl).bind fun right good' => ?_
    obtain ⟨b, loc', upright', inside', fit'⟩ := good'.1.exists_loc
    obtain ⟨first, second, joined⟩ := Span.inside_joined upright upright'
      ((before a loc operand (by simp)).trans inside'.1)
    refine (settles_operationShape span known good.2 good'.2).bind fun shape has => ?_
    simp only [spanning, loc, loc']
    refine ih (fun p mem => sturdy p (by simp [mem])) others
      (has _ joined ⟨inside.1, inside'.2.trans own.inside.2⟩ (fit.mono first) (fit'.mono second)) ?_
    rintro _ ⟨⟩ p mem
    exact inside'.2.trans (lined p mem)

theorem settles_joined {first : Part} {rest : List Part}
    (h : Arranged cs r whole.span (first :: rest)) (le : first.rule.isOf .expression = true)
    (alternates : Alternates o rest) (speaks : o.speaks isOperation = true) :
    Settles cs (Kind.expression.Has whole.span) (operation whole (first :: rest)) := by
  have own := h.sturdy first (by simp)
  obtain ⟨before, lined⟩ := List.pairwise_cons.1 h.lined
  refine (Part.Serves.own (k := .expression) ⟨own, le⟩ rfl).bind fun n good => ?_
  exact (settles_chain (fun p mem => h.sturdy p (List.mem_cons_of_mem first mem)) lined alternates
    speaks ⟨good.1.mono own.inside, good.2⟩ fun s loc p mem =>
      (good.1.inside loc).2.trans (before p mem)).bind fun m good' => good'

/-- Operators of equal strength. -/
theorem settles_operation {e : Rule} (h : Arranged cs r whole.span parts)
    (eq : body r = .seq (.call e) (.star (.seq (.call o) (.call e)))) (shown : e.shown = some e)
    (shown' : o.shown = some o) (form : e.isOf .expression = true)
    (speaks : o.speaks isOperation = true) :
    Settles cs (Kind.expression.Has whole.span) (operation whole parts) := by
  obtain ⟨first, rest, rfl, le, alternates⟩ := h.chain eq shown shown' form
  exact settles_joined h le alternates speaks

theorem settles_exponent : Assembles cs .exponent .expression operation := by
  intro whole parts h
  rcases h.either [.expression] [.expression, .token, .expression] (by decide) with known | known
  · obtain ⟨only, rfl, serves⟩ := h.one known
    exact settles_joined (o := .exponentOp) h serves.le .nil (by decide)
  · obtain ⟨left, operator, right, rfl, serves, -, serves'⟩ := h.three known
    have rule := h.checked (fun rs => rs.length == 1 || rs.tail.head? == some .exponentOp)
      (by decide)
    have alternates : Alternates .exponentOp [operator, right] :=
      .cons (by simpa using rule) serves'.le .nil
    exact settles_joined h serves.le alternates (by decide)

theorem settles_unaryShape (span : Span) {operator : Part} {argument : Node} {outer : Span}
    (sturdy : operator.Sturdy cs outer) (rule : operator.rule = .prefixOp)
    (good : argument.Expression) :
    Settles cs (fun shape => ∀ s : Span, s.start ≤ s.stop → s.Inside span → argument.Fit s →
      Kind.expression.Has span (.node (.mk shape (some s)))) (unaryShape operator argument) := by
  have known := sturdy.speaks
    (fun s => (UpdateOp.ofSymbol? s).isSome || (UnaryOp.ofSymbol? s).isSome)
    (by rw [rule]; decide)
  unfold unaryShape
  split
  · refine (Part.settles_assignable sturdy.placed (by rw [rule]; rfl) argument).bind ?_
    rintro _ ⟨rfl, isTarget⟩ s upright inside fit
    exact Kind.fit_expression upright inside (by simp [Shape.children, fit])
      (List.forall_mem_nil _) trivial ⟨by simp [isTarget], good.1⟩ rfl
  · next none =>
    split
    · exact fun s upright inside fit => Kind.fit_expression upright inside
        (by simp [Shape.children, fit]) (List.forall_mem_nil _) trivial good.1 rfl
    · next none' => simp [none, none'] at known

/-- The operators come from the inside out, and each ends before its argument. -/
theorem settles_unaryChain {operators : List Part} {argument : Node}
    (h : ∀ p ∈ operators, p.Sturdy cs whole.span ∧ p.rule = .prefixOp)
    (lined : operators.Pairwise fun p q => q.span.stop ≤ p.span.start)
    (good : argument.Fit whole.span ∧ argument.Expression)
    (behind : ∀ s ∈ argument.loc, ∀ p ∈ operators, p.span.stop ≤ s.start) :
    Settles cs (fun n => n.Fit whole.span ∧ n.Expression)
      (unaryChain whole argument operators) := by
  induction operators generalizing argument with
  | nil => exact good
  | cons operator outer ih =>
    rw [List.forall_mem_cons] at h
    obtain ⟨⟨sturdy, rule⟩, others⟩ := h
    obtain ⟨before, lined⟩ := List.pairwise_cons.1 lined
    obtain ⟨a, loc, upright, inside, fit⟩ := good.1.exists_loc
    obtain ⟨-, second, joined⟩ := Span.inside_joined (Part.upright sturdy.placed) upright
      (behind a loc operator (by simp))
    refine (settles_unaryShape whole.span sturdy rule good.2).bind fun shape has => ?_
    simp only [loc, Option.getD_some]
    refine ih others lined (has _ joined ⟨sturdy.inside.1, inside.2⟩ (fit.mono second)) ?_
    rintro _ ⟨⟩ p mem
    exact before p mem

theorem settles_unary : Assembles cs .unary .expression unary := by
  intro whole parts h
  obtain ⟨rs, ⟨_, _, ⟨xss, all, rfl⟩, rfl, rfl⟩, rules⟩ := h.order
  have operators : xss.flatten.filterMap Rule.shown = List.replicate xss.length .prefixOp := by
    clear rules
    induction xss with
    | nil => rfl
    | cons xs xss ih =>
      rw [List.forall_mem_cons] at all
      obtain ⟨rfl, all⟩ := all
      rw [List.flatten_cons, List.filterMap_append, ih all]
      rfl
  rw [List.filterMap_append, operators] at rules
  -- the operand is the last part
  obtain ⟨before, last, rfl, outer, inner⟩ := List.map_eq_append_iff.1 rules.symm
  obtain ⟨operand, rfl, rule⟩ := one_of_map (x := Rule.postfixed) inner
  obtain ⟨lined, -, ends⟩ := List.pairwise_append.1 h.lined
  have own := h.sturdy operand (by simp)
  unfold unary
  rw [List.reverse_append, List.reverse_singleton, List.singleton_append]
  refine (Part.Serves.own (k := .expression) ⟨own, by rw [rule]; rfl⟩ rfl).bind fun n good => ?_
  refine (settles_unaryChain (fun p mem => ?_) (List.pairwise_reverse.2 lined)
    ⟨good.1.mono own.inside, good.2⟩ fun s loc p mem => ?_).bind fun _ good' => good'
  · have mem := List.mem_reverse.1 mem
    refine ⟨h.sturdy p (List.mem_append_left _ mem), ?_⟩
    have known : p.rule ∈ List.replicate xss.length Rule.prefixOp := by
      rw [← outer]
      exact List.mem_map_of_mem mem
    exact (List.mem_replicate.1 known).2
  · exact (ends p (List.mem_reverse.1 mem) operand (by simp)).trans (good.1.inside loc).1

theorem settles_postfixed : Assembles cs .postfixed .expression postfixed := by
  intro whole parts h
  rcases h.either [.expression] [.expression, .token] (by decide) with known | known
  · obtain ⟨only, rfl, serves⟩ := h.one known
    exact (serves.node rfl).bind fun n good => good
  · obtain ⟨argument, operator, rfl, serves, sturdy, -⟩ := h.two known
    have rule := h.checked (fun rs => rs.length == 1 || rs.tail.head? == some .postfixOp) (by decide)
    have rule : operator.rule = .postfixOp := by simpa using rule
    have spoken := sturdy.speaks (fun s => (UpdateOp.ofSymbol? s).isSome)
      (by rw [rule]; decide)
    refine (serves.node rfl).bind fun n good => ?_
    refine (Part.settles_assignable sturdy.placed (by rw [rule]; rfl) n).bind ?_
    rintro _ ⟨rfl, isTarget⟩
    split
    · exact Kind.has_expression h.upright ⟨by simp [isTarget], good.2.1⟩
        (by simp [Shape.children, good.1]) nofun trivial rfl
    · next none => simp [none] at spoken

/-! ### Calls and members -/

def isSuffix (r : Rule) : Bool :=
  r == .callArguments || r == .staticMember || r == .computedMember

theorem settles_suffixShape (span : Span) {expression : Node} {suffix : Part} {outer : Span}
    (sturdy : suffix.Sturdy cs outer) (rule : isSuffix suffix.rule = true)
    (good : expression.Expression) :
    Settles cs (fun shape => ∀ s : Span, s.start ≤ s.stop → s.Inside span → expression.Fit s →
      suffix.span.Inside s → Kind.expression.Has span (.node (.mk shape (some s))))
      (suffixShape expression suffix) := by
  have own : suffix.Sturdy cs suffix.span := ⟨sturdy.placed, .refl _, sturdy.built⟩
  unfold suffixShape
  split
  · next eq =>
    refine (own.nodes (k := .arguments) (by rw [Part.kind, eq]; rfl) (by decide)).bind
      fun ns all s upright inside fit inside' => ?_
    refine Kind.fit_expression upright inside ?_ (by simpa [Shape.lists] using all.2) trivial
      ⟨good.1, fun n mem => (all.1 n mem).2.1⟩ rfl
    simp only [Shape.children, List.forall_mem_cons]
    exact ⟨fit, fun n mem => (all.1 n mem).1.mono inside'⟩
  · next eq =>
    refine (Part.Serves.node (k := .name) ⟨own, by rw [eq]; rfl⟩ rfl).bind
      fun n name s upright inside fit inside' => ?_
    exact Kind.fit_expression upright inside
      (by simp [Shape.children, fit, name.1.mono inside']) (List.forall_mem_nil _) trivial
      ⟨good.1, fun none => (name.2 none).elim⟩ rfl
  · next eq =>
    refine (Part.Serves.node (k := .expression) ⟨own, by rw [eq]; rfl⟩ rfl).bind
      fun n key s upright inside fit inside' => ?_
    exact Kind.fit_expression upright inside
      (by simp [Shape.children, fit, key.1.mono inside']) (List.forall_mem_nil _) trivial
      ⟨good.1, key.2.1⟩ rfl
  · next call static computed =>
    rw [isSuffix, Bool.or_eq_true, Bool.or_eq_true, beq_iff_eq, beq_iff_eq, beq_iff_eq] at rule
    rcases rule with (rule | rule) | rule
    · exact (call rule).elim
    · exact (static rule).elim
    · exact (computed rule).elim

theorem settles_suffixChain {expression : Node}
    (h : ∀ p ∈ parts, p.Sturdy cs span ∧ isSuffix p.rule = true) (lined : Lined parts)
    (good : expression.Fit span ∧ expression.Expression)
    (before : ∀ s ∈ expression.loc, ∀ p ∈ parts, s.stop ≤ p.span.start) :
    Settles cs (fun n => n.Fit span ∧ n.Expression) (suffixChain expression parts) := by
  induction parts generalizing expression with
  | nil => exact good
  | cons suffix rest ih =>
    rw [List.forall_mem_cons] at h
    obtain ⟨⟨sturdy, rule⟩, others⟩ := h
    obtain ⟨after, lined⟩ := List.pairwise_cons.1 lined
    obtain ⟨a, loc, upright, inside, fit⟩ := good.1.exists_loc
    obtain ⟨first, second, joined⟩ := Span.inside_joined upright (Part.upright sturdy.placed)
      (before a loc suffix (by simp))
    refine (settles_suffixShape span sturdy rule good.2).bind fun shape has => ?_
    simp only [loc, Option.getD_some]
    refine ih others lined
      (has _ joined ⟨inside.1, sturdy.inside.2⟩ (fit.mono first) second) ?_
    rintro _ ⟨⟩ p mem
    exact after p mem

theorem settles_suffixed {a b : Peg Rule} (h : Arranged cs r whole.span parts)
    (eq : body r = .seq a b) (first : (a.forms Rule.shown).any
      (·.all fun | [x] => x.isOf .expression | _ => false) = true)
    (others : (b.rules.filterMap Rule.shown).all isSuffix = true) :
    Settles cs (Kind.expression.Has whole.span) (suffixed whole parts) := by
  obtain ⟨p, rest, rfl, le, suffixes⟩ := h.head eq (Rule.isOf .expression) isSuffix first others
  have own := h.sturdy p (by simp)
  obtain ⟨after, lined⟩ := List.pairwise_cons.1 h.lined
  refine (Part.Serves.own (k := .expression) ⟨own, le⟩ rfl).bind fun n good => ?_
  exact (settles_suffixChain (fun q mem => ⟨h.sturdy q (List.mem_cons_of_mem p mem),
    suffixes q mem⟩) lined ⟨good.1.mono own.inside, good.2⟩ fun s loc q mem =>
      (good.1.inside loc).2.trans (after q mem)).bind fun _ good' => good'

theorem settles_newExpression : Assembles cs .newExpression .expression newExpression := by
  intro whole parts h
  rcases h.either [.expression] [.expression, .arguments] (by decide) with known | known
  · obtain ⟨callee, rfl, serves⟩ := h.one known
    exact (serves.node rfl).bind fun n good => Kind.has_expression h.upright
      ⟨good.2.1, List.forall_mem_nil _⟩
      (by simp [Shape.children, good.1]) (by simp [Shape.lists, InOrder]) trivial rfl
  · obtain ⟨callee, arguments, rfl, serves, sturdy, le⟩ := h.two known
    refine (serves.node rfl).bind fun n good =>
      (sturdy.nodes (Kind.eq_of_le le rfl) (by decide)).bind fun ns all => ?_
    refine Kind.has_expression h.upright ⟨good.2.1, fun n mem => (all.1 n mem).2.1⟩ ?_
      (by simpa [Shape.lists] using all.2) trivial rfl
    simp only [Shape.children, List.forall_mem_cons]
    exact ⟨good.1, fun n mem => (all.1 n mem).1⟩

/-! ### Lists and objects -/

theorem settles_nodes {k : Kind} (h : Arranged cs r span parts) (list : k.item ≠ .token)
    (isNode : k.item.isNode = true)
    (check : ((body r).rules.filterMap Rule.shown).all (Rule.isOf k.item) = true) :
    Settles cs (k.Has span)
      (do .ok (.nodes (← nodesOf parts)) : Except SyntaxError Built) :=
  (h.nodes k.item isNode check).bind fun _ all => ⟨list, all.1, all.2⟩

theorem settles_arrayLiteral : Assembles cs .arrayLiteral .expression arrayLiteral := by
  intro whole parts h
  refine (settles_mapM id .expression h.lined fun p mem => ?_).bind
    fun ns all => ?_
  · have known := h.all (fun x => x == .arrayHole || x.isOf .expression) (by decide) mem
    by_cases hole : (p.rule == .arrayHole) = true
    · rw [if_pos hole]
      nofun
    · rw [if_neg hole]
      have own := Part.Serves.own (k := .expression) ⟨h.sturdy p mem, by simpa [hole] using known⟩ rfl
      cases built : p.node with
      | error e =>
        rw [built] at own
        exact own
      | ok n =>
        rw [built] at own
        rintro _ ⟨⟩
        exact own
  · refine Kind.has_expression h.upright (fun n mem => ?_) (fun n mem => ?_)
      (by simpa [Shape.lists] using all.2) trivial rfl
    · obtain ⟨p, -, -, holds⟩ := all.1 n mem
      exact holds.1
    · obtain ⟨p, known, fit, -⟩ := all.1 n mem
      exact fit.mono (h.sturdy p known).inside

theorem settles_objectLiteral :
    Assembles cs .objectLiteral .expression (listed · .objectExpression) := fun _ _ h =>
  (h.nodes .entry rfl (by decide)).bind fun _ all => Kind.has_expression h.upright
    (fun n mem => (all.1 n mem).2) (fun n mem => (all.1 n mem).1)
    (by simpa [Shape.lists] using all.2) trivial rfl

theorem has_entry {key value : Node} {isComputed shorthand method : Bool}
    (upright : span.start ≤ span.stop)
    (goodKey : key.Fit span ∧ if isComputed then key.Expression else key.staticKey? ≠ none)
    (goodValue : value.Fit span ∧ value.Expression) :
    Kind.entry.Has span
      (.node (.mk (.property key value .init isComputed shorthand method) (some span))) := by
  refine ⟨Kind.fit_plain upright (.refl _) (by simp [Shape.children, goodKey.1, goodValue.1]) nofun
    trivial rfl, ?_, ?_, goodValue.2.1⟩
  · rintro rfl
    exact goodKey.2.1
  · rintro rfl none
    exact (goodKey.2 none).elim

theorem settles_initProperty : Assembles cs .initProperty .entry initProperty := by
  intro whole parts h
  obtain ⟨key, value, rfl, ⟨sturdy, le⟩, serves⟩ :=
    h.two (h.exactly [.key, .expression] (by decide))
  exact (sturdy.key (Kind.eq_of_le le rfl)).bind fun ⟨_, _⟩ goodKey => (serves.node rfl).bind fun _ good =>
    has_entry h.upright goodKey good

theorem settles_methodProperty : Assembles cs .methodProperty .entry methodProperty := by
  intro whole parts h
  obtain ⟨key, rest, rfl, kind, tail⟩ := method_of_rules (h.checked isMethod (by decide))
  have sturdy := fun p mem => h.sturdy p (List.mem_cons_of_mem key mem)
  refine ((h.sturdy key (by simp)).key kind).bind fun ⟨_, _⟩ goodKey => ?_
  exact (settles_functionParts sturdy tail).bind fun ⟨_, _⟩ ⟨goodParams, goodBody⟩ =>
    has_entry h.upright goodKey (has_methodFunction h.upright goodParams goodBody)

theorem settles_shorthandProperty : Assembles cs .shorthandProperty .entry shorthandProperty := by
  intro whole parts h
  obtain ⟨name, rfl, serves⟩ := h.one (h.exactly [.name] (by decide))
  have good := Kind.has_name (Part.upright serves.sturdy.placed)
  exact has_entry h.upright ⟨serves.sturdy.name, Kind.staticKey_of_name good.2⟩
    ⟨serves.sturdy.name, Kind.expression_of_name good.2⟩

theorem settles_propertyKey : Assembles cs .propertyKey .key propertyKey := by
  intro whole parts h
  obtain ⟨key, rfl, serves⟩ := h.one (h.exactly [.other] (by decide))
  have known := h.all (fun x => x == .computedKey || x.isOf .literal) (by decide)
    (List.mem_singleton_self key)
  unfold propertyKey
  cases rule : key.rule == .computedKey with
  | true =>
    refine (Part.Serves.node (k := .computed) ⟨serves.sturdy, ?_⟩ rfl).bind fun n good =>
      ⟨rfl, good.1, by simpa [rule] using show n.Expression from good.2⟩
    rw [beq_iff_eq.1 rule]
    rfl
  | false =>
    rw [rule, Bool.false_or] at known
    exact (Part.Serves.node ⟨serves.sturdy, known⟩ rfl).bind fun n good =>
      ⟨rfl, good.1, by simpa [rule] using good.2.2⟩

/-! ### Literals -/

theorem has_literalNode {value : Option LiteralValue} (upright : whole.span.start ≤ whole.span.stop)
    (written : LiteralValue.Written (some whole.text) value) :
    Kind.expression.Has whole.span (literalNode whole value) := by
  refine Kind.has_expression upright ⟨nofun, ?_⟩ nofun nofun ⟨rfl, written⟩ rfl
  rintro json rfl
  exact written.elim

/-- Literals that can be keys. -/
theorem has_staticLiteral {value : LiteralValue} (upright : whole.span.start ≤ whole.span.stop)
    (written : LiteralValue.Written (some whole.text) (some value))
    (static : ∀ raw loc, (Node.mk (.literal (some value) raw none) loc).staticKey? ≠ none) :
    Kind.literal.Has whole.span (literalNode whole (some value)) :=
  have has := has_literalNode upright written
  ⟨has.1, has.2, static _ _⟩

theorem settles_numberLiteral (placed : whole.pair.Placed script Rule.isSolid cs)
    (rule : whole.rule = .numberLiteral) :
    Settles cs (Kind.literal.Has whole.span) (numberLiteral whole) := by
  unfold numberLiteral
  split
  · next x value =>
    refine has_staticLiteral (Part.upright placed) ⟨_, rfl, ?_⟩ nofun
    rwa [Part.text, String.toList_ofList]
  · obtain ⟨before, after, eq, pos, some⟩ := placed.divides
    have solid : whole.pair.rule.isSolid = true := by
      rw [show whole.pair.rule = _ from rule]
      rfl
    exact ⟨before, _, eq, pos, .invalidNumber (some solid) after⟩

/-- A strand stands where its text does; where there is none it has no place. -/
theorem strandNode_nested {chars : Option Part} (tail : Bool)
    (sturdy : ∀ p ∈ chars, p.Sturdy cs span) :
    ((strandNode chars tail).Sound ∧ (strandNode chars tail).Nested) ∧
      ∀ s ∈ (strandNode chars tail).loc, ∃ p ∈ chars, s = p.span := by
  refine ⟨⟨Node.sound_of_plain rfl nofun trivial, Node.nested_of_children ?_ nofun⟩, ?_⟩
  · cases chars with
    | none => exact .inl ⟨tail, rfl⟩
    | some p => exact .inr ⟨p.span, rfl, Part.upright (sturdy p rfl).placed, nofun, nofun⟩
  · intro s loc
    obtain ⟨p, mem, eq⟩ := Option.map_eq_some_iff.1 loc
    exact ⟨p, mem, eq.symm⟩

/-- The strands of a template and its expressions, which are each in order. -/
theorem settles_templateParts (pending : Option Part)
    (sturdy : ∀ p ∈ pending.toList ++ parts, p.Sturdy cs span)
    (lined : Lined (pending.toList ++ parts))
    (kinds : ∀ p ∈ parts, (p.rule == .templateChars || p.rule.isOf .expression) = true) :
    Settles cs (fun found =>
      ((∀ n ∈ found.1, (n.Sound ∧ n.Nested) ∧
        ∀ s ∈ n.loc, ∃ p ∈ pending.toList ++ parts, s = p.span) ∧ InOrder found.1) ∧
      (∀ n ∈ found.2, ∃ p ∈ parts, n.Fit p.span ∧ n.Expression) ∧ InOrder found.2)
      (templateParts pending parts) := by
  induction parts generalizing pending with
  | nil =>
    have strand := strandNode_nested true fun p mem =>
      sturdy p (List.mem_append_left _ (Option.mem_toList.2 mem))
    refine ⟨⟨fun n mem => ?_, List.pairwise_singleton _ _⟩, nofun, .nil⟩
    cases List.mem_singleton.1 mem
    simpa using strand
  | cons p rest ih =>
    rw [List.forall_mem_cons] at kinds
    obtain ⟨-, lined', ends⟩ := List.pairwise_append.1 lined
    have own := sturdy p (by simp)
    have others := fun q mem => sturdy q (List.mem_append_right _ mem)
    rw [templateParts]
    by_cases chars : (p.rule == .templateChars) = true
    · rw [if_pos chars]
      refine (ih (some p) others lined' kinds.2).mono fun found ⟨⟨strands, order⟩, expressions, order'⟩ =>
        ⟨⟨fun n mem => ⟨(strands n mem).1, fun s loc => ?_⟩, order⟩, fun n mem => ?_, order'⟩
      · obtain ⟨q, known, eq⟩ := (strands n mem).2 s loc
        exact ⟨q, List.mem_append_right _ known, eq⟩
      · obtain ⟨q, known, has⟩ := expressions n mem
        exact ⟨q, List.mem_cons_of_mem p known, has⟩
    · rw [if_neg chars]
      have strand := strandNode_nested false fun p mem =>
        sturdy p (List.mem_append_left _ (Option.mem_toList.2 mem))
      obtain ⟨first, lined'⟩ := List.pairwise_cons.1 lined'
      refine (Part.Serves.own (k := .expression) ⟨own, by simpa [chars] using kinds.1⟩ rfl).bind
        fun m good => ?_
      refine (ih none (fun q mem => others q (List.mem_cons_of_mem p mem)) lined' kinds.2).bind
        fun found ⟨⟨strands, order⟩, expressions, order'⟩ => ?_
      refine ⟨⟨?_, inOrder_cons (p := p.span.start) ?_ ?_ order⟩, ?_,
        inOrder_cons (fun s loc => (good.1.inside loc).2) ?_ order'⟩
      · rw [List.forall_mem_cons]
        refine ⟨⟨strand.1, fun s loc => ?_⟩, fun n mem => ⟨(strands n mem).1, fun s loc => ?_⟩⟩
        · obtain ⟨q, known, eq⟩ := strand.2 s loc
          exact ⟨q, List.mem_append_left _ (Option.mem_toList.2 known), eq⟩
        · obtain ⟨q, known, eq⟩ := (strands n mem).2 s loc
          exact ⟨q, List.mem_append_right _ (List.mem_cons_of_mem p known), eq⟩
      · intro s loc
        obtain ⟨q, known, rfl⟩ := strand.2 s loc
        exact ends q (Option.mem_toList.2 known) p List.mem_cons_self
      · intro n mem s loc
        obtain ⟨q, known, rfl⟩ := (strands n mem).2 s loc
        exact (Part.upright own.placed).trans (first q known)
      · rw [List.forall_mem_cons]
        refine ⟨⟨p, List.mem_cons_self, good⟩, fun n mem => ?_⟩
        obtain ⟨q, known, has⟩ := expressions n mem
        exact ⟨q, List.mem_cons_of_mem p known, has⟩
      · intro n mem s loc
        obtain ⟨q, known, fit, -⟩ := expressions n mem
        exact (first q known).trans (fit.inside loc).1

theorem settles_templateLiteral : Assembles cs .templateLiteral .expression templateLiteral := by
  intro whole parts h
  refine (settles_templateParts none h.sturdy h.lined fun p mem =>
    h.all (fun x => x == .templateChars || x.isOf .expression) (by decide) mem).bind
      fun ⟨quasis, expressions⟩ ⟨⟨strands, order⟩, good, order'⟩ => ?_
  have runs : Runs .closed (.mk (.templateLiteral quasis expressions) (some whole.span)) :=
    runs_of_parts fun n mem => by
      obtain ⟨p, -, -, holds⟩ := good n mem
      exact holds.1
  have fit : ∀ n ∈ expressions, n.Fit whole.span := fun n mem => by
    obtain ⟨p, known, fit, -⟩ := good n mem
    exact fit.mono (h.sturdy p known).inside
  refine ⟨Node.fit_mk (Node.sound_of_runs runs (fun n mem => ?_) trivial) h.upright (.refl _)
    (fun n mem => ?_) (by simp [Shape.lists, order, order']), runs, nofun⟩
  · rcases List.mem_append.1 mem with mem | mem
    · exact (strands n mem).1.1
    · exact (fit n mem).sound
  · rcases List.mem_append.1 mem with mem | mem
    · refine ⟨(strands n mem).1.2, fun s loc => ?_⟩
      obtain ⟨p, known, rfl⟩ := (strands n mem).2 s loc
      exact (h.sturdy p known).inside
    · exact ⟨(fit n mem).nested, fun s => (fit n mem).inside⟩

end Assemble

/-! ## Trees of texts -/

open Assemble in
theorem settles_assemble {r : Rule} {start stop : Cursor} {inner : List (Pair Rule)}
    {built : Except SyntaxError Built}
    (placed : (Pair.mk r start stop inner).Placed script Rule.isSolid cs)
    (arranged : modeOf r ≠ some .atomic →
      Arranged cs r (Part.span ⟨.mk r start stop inner, built⟩) parts) :
    Settles cs ((r.kind.getD .token).Has (Pair.mk r start stop inner).span)
      (assemble ⟨.mk r start stop inner, built⟩ parts) := by
  have upright := Part.upright (p := ⟨.mk r start stop inner, built⟩) placed
  cases r with
  | program => exact settles_program (arranged nofun)
  | block => exact settles_block (arranged nofun)
  | emptyStatement | debuggerStatement =>
    exact Kind.has_statement upright (Node.statement_of_parts fun _ => trivial) nofun nofun trivial
  | expressionStatement | throwStatement =>
    have arranged := arranged nofun
    exact settles_single arranged (arranged.exactly [.expression] (by decide)) (fun _ _ h => h)
      (fun _ => rfl) (fun _ => rfl) fun _ => trivial
  | variableDeclaration => exact settles_variableDeclaration (arranged nofun)
  | variableDeclarator => exact settles_variableDeclarator (arranged nofun)
  | ifStatement => exact settles_ifStatement (arranged nofun)
  | whileStatement => exact settles_whileStatement (arranged nofun)
  | forInStatement | forOfStatement =>
    have arranged := arranged nofun
    exact settles_loop arranged (arranged.exactly [.other, .expression, .statement] (by decide))
      (by decide) (fun _ _ _ _ left right body => ⟨left, right, body⟩) (fun _ _ _ => rfl)
      (fun _ _ _ => rfl) fun _ _ _ => trivial
  | forDeclaration => exact settles_forDeclaration (arranged nofun)
  | forStatement => exact settles_forStatement (arranged nofun)
  | returnStatement => exact settles_returnStatement (arranged nofun)
  | breakStatement =>
    exact settles_jump .breakStatement (arranged nofun) (fun _ breaks => breaks)
      (fun _ _ => trivial) (fun _ => .broken rfl) (fun _ => rfl) (fun _ => rfl) fun _ => trivial
  | continueStatement =>
    exact settles_jump .continueStatement (arranged nofun) (fun _ breaks => breaks)
      (fun _ _ => trivial) (fun _ => .continued rfl) (fun _ => rfl) (fun _ => rfl) fun _ => trivial
  | tryStatement => exact settles_tryStatement (arranged nofun) placed rfl
  | catchClause => exact settles_catchClause (arranged nofun)
  | functionDeclaration => exact settles_functionDeclaration (arranged nofun)
  | functionExpression => exact settles_functionExpression (arranged nofun)
  | parameters => exact settles_nodes (k := .patterns) (arranged nofun) nofun rfl (by decide)
  | callArguments => exact settles_nodes (k := .arguments) (arranged nofun) nofun rfl (by decide)
  | arrowFunction => exact settles_arrowFunction (arranged nofun)
  | arrowParameters => exact settles_arrowParameters (arranged nofun)
  | classDeclaration => exact settles_classDeclaration (arranged nofun)
  | classBody => exact settles_classBody (arranged nofun)
  | classMember => exact settles_classMember (arranged nofun)
  | bindingElement => exact settles_bindingElement (arranged nofun)
  | objectPattern => exact settles_objectPattern (arranged nofun)
  | patternProperty => exact settles_patternProperty (arranged nofun)
  | expression => exact settles_expression (arranged nofun)
  | assignment => exact settles_assignment (arranged nofun)
  | conditional => exact settles_conditional (arranged nofun)
  | logicalOr | logicalAnd | bitwiseOr | bitwiseXor | bitwiseAnd | equality | relational | shift
  | additive | multiplicative =>
    exact settles_operation (arranged nofun) rfl rfl rfl rfl (by decide)
  | exponent => exact settles_exponent (arranged nofun)
  | unary => exact settles_unary (arranged nofun)
  | postfixed => exact settles_postfixed (arranged nofun)
  | memberChain | newTarget => exact settles_suffixed (arranged nofun) rfl (by decide) (by decide)
  | newExpression => exact settles_newExpression (arranged nofun)
  | staticMember | computedMember | parenthesized | computedKey | finallyClause | classHeritage
  | forInit | forTest | forUpdate | templateSubstitution =>
    have arranged := arranged nofun
    exact settles_pass arranged (arranged.exactly [_] (by decide)) rfl
  | thisExpression => exact Kind.has_expression upright trivial nofun nofun trivial rfl
  | arrayLiteral => exact settles_arrayLiteral (arranged nofun)
  | objectLiteral => exact settles_objectLiteral (arranged nofun)
  | initProperty => exact settles_initProperty (arranged nofun)
  | methodProperty => exact settles_methodProperty (arranged nofun)
  | shorthandProperty => exact settles_shorthandProperty (arranged nofun)
  | propertyKey => exact settles_propertyKey (arranged nofun)
  | nullLiteral | booleanLiteral => exact has_literalNode upright trivial
  | numberLiteral => exact settles_numberLiteral placed rfl
  | stringLiteral => exact has_staticLiteral upright trivial nofun
  | templateLiteral => exact settles_templateLiteral (arranged nofun)
  | identifier | propertyName => exact Kind.has_name upright
  | _ => rfl

theorem buildInner_eq (ps : List (Pair Rule)) : buildInner ps = ps.map fun p => ⟨p, build p⟩ := by
  induction ps with
  | nil => rfl
  | cons p rest ih => rw [buildInner, ih, List.map_cons]

theorem isSilent_iff (p : Part) : p.isSilent = p.rule.kind.isNone := by
  unfold Part.isSilent
  cases p.rule <;> rfl

/-- The rules of the parts that a builder sees. -/
theorem rules_of_build (ps : List (Pair Rule)) :
    ((buildInner ps).filter fun p => !p.isSilent).map Part.rule =
      (ps.map Pair.rule).filterMap Rule.shown := by
  rw [buildInner_eq]
  induction ps with
  | nil => rfl
  | cons p rest ih =>
    have rule : Part.rule ⟨p, build p⟩ = p.rule := rfl
    rw [List.map_cons, List.map_cons, List.filter_cons, isSilent_iff, rule]
    cases kind : p.rule.kind with
    | none =>
      rw [List.filterMap_cons_none (by rw [Rule.shown, kind]; rfl)]
      exact ih
    | some k =>
      rw [List.filterMap_cons_some (b := p.rule) (by rw [Rule.shown, kind]; rfl), ← ih]
      rfl

/-- What is built from a match. -/
theorem settles_build {p : Pair Rule} (valid : p.Valid script)
    (placed : p.Placed script Rule.isSolid cs) :
    Settles cs ((p.rule.kind.getD .token).Has p.span) (build p) := by
  induction valid with
  | @mk r start stop inner atomic yields valid ih =>
    obtain ⟨upright, inside, lined⟩ := placed.stands.strung.inside
    rw [build]
    refine settles_assemble placed fun spaced =>
      ⟨upright, ?_, ?_, _, yields spaced, (rules_of_build inner).symm⟩
    · intro q mem
      rw [buildInner_eq, List.mem_filter, List.mem_map] at mem
      obtain ⟨⟨pair, known, rfl⟩, -⟩ := mem
      exact ⟨placed.of_inner known, inside pair known, ih pair known (placed.of_inner known)⟩
    · rw [buildInner_eq]
      exact (List.pairwise_map.2 lined).filter _

end EcmaMachine.Grammar

namespace EcmaMachine

/-- The tree of a text is a statement in order, and it stands within the text. -/
theorem fit_of_parse {text : String} {tree : Node} (h : parse text = .ok tree) :
    ∃ span, tree.Fit span ∧ tree.Statement := by
  unfold parse at h
  simp only at h
  split at h
  · next pair matched =>
    obtain ⟨valid, rule⟩ := Grammar.Rules.valid_of_parse matched
    have settled := Grammar.settles_build valid
      (Grammar.Rules.placed_of_parse Grammar.forward_script matched)
    obtain ⟨b, built, h⟩ := Grammar.exists_of_bind h
    rw [built, rule] at settled
    split at h
    · cases h
      exact ⟨_, settled⟩
    · cases h
  · cases h

/-- The tree of a text is a statement in order, and so are all functions in it. -/
theorem statement_of_parse {text : String} {tree : Node} (h : parse text = .ok tree) :
    tree.Statement ∧ tree.Sound := by
  obtain ⟨span, fit, statement⟩ := fit_of_parse h
  exact ⟨statement, fit.sound⟩

/-- A text that can be read has the tree that is read off it. -/
theorem parse_eq_ok {text : String} (parsed : (parse text).isOk = true) (other : Node) :
    parse text = .ok ((parse text).toOption.getD other) := by
  cases h : parse text with
  | ok tree => rfl
  | error e => simp [h, Except.isOk, Except.toBool] at parsed

end EcmaMachine
