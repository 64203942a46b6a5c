import EcmaMachine.Proofs.Grammar.Arranged

/-!
The rules for statements, functions, classes and patterns are built into what their kinds say,
unless the text is at fault.
-/

namespace EcmaMachine.Grammar

variable {cs : List Char} {whole : Part} {parts : List Part}

theorem settles_variableKind {p : Part} {span : Span} (h : p.Sturdy cs span)
    (rule : p.rule = .variableKind) : Settles cs (fun _ => True) (variableKindOf p) := by
  have known := h.speaks (fun s => (VariableKind.ofSymbol? s).isSome)
    (by rw [rule]; decide)
  unfold variableKindOf
  split
  · trivial
  · next none => simp [none] at known

namespace Assemble

variable {r : Rule} {span : Span}

/-! ## Statements -/

/-- Statements that run statements one after another. -/
theorem settles_body (shape : List Node → Shape Node) (h : Arranged cs r whole.span parts)
    (check : ((body r).rules.filterMap Rule.shown).all (Rule.isOf .statement) = true)
    (runs : ∀ ns r, (∀ n ∈ ns, Runs r n) → (shape ns).Parts Runs Binds Role.takes r)
    (isOpen : ∀ ns, (shape ns).openParts = ns) (children : ∀ ns, (shape ns).children = ns)
    (lists : ∀ ns, (shape ns).lists = [ns])
    (formed : ∀ ns, (Node.mk (shape ns) (some whole.span)).Formed) :
    Settles cs (fun b => Kind.statement.Has whole.span b ∧
      ∃ ns, b = .node (.mk (shape ns) (some whole.span))) (listed whole shape parts) := by
  refine (h.nodes .statement rfl check).bind fun ns all =>
    ⟨Kind.has_statement h.upright ?_ ?_ ?_ (formed ns), ns, rfl⟩
  · intro b strays
    refine runs_of_parts (runs ns _ fun n mem => (all.1 n mem).2 b fun inner => ?_)
    exact strays (.inside (by simpa [isOpen] using mem) inner)
  · rw [children]
    exact fun n mem => (all.1 n mem).1
  · rw [lists]
    simpa using all.2

theorem settles_program : Assembles cs .program .statement (listed · .program) := fun _ _ h =>
  (settles_body .program h (by decide) (fun _ _ h => h) (fun _ => rfl) (fun _ => rfl)
    (fun _ => rfl) fun _ => trivial).mono fun _ has => has.1

theorem settles_block : Assembles cs .block .block (listed · .blockStatement) := by
  intro whole parts h
  refine (settles_body .blockStatement h (by decide) (fun _ _ h => h) (fun _ => rfl)
    (fun _ => rfl) (fun _ => rfl) fun _ => trivial).mono ?_
  rintro _ ⟨has, ns, rfl⟩
  exact ⟨has.1, has.2, rfl⟩

/-- Statements that have one expression. -/
theorem settles_single {shape : Node → Shape Node} (h : Arranged cs r whole.span parts)
    (known : Kind.below (parts.map Part.kind) [.expression] = true)
    (runs : ∀ n r, Runs .closed n → (shape n).Parts Runs Binds Role.takes r)
    (children : ∀ n, (shape n).children = [n]) (lists : ∀ n, (shape n).lists = [])
    (formed : ∀ n, (Node.mk (shape n) (some whole.span)).Formed) :
    Settles cs (Kind.statement.Has whole.span) (single whole shape parts) := by
  obtain ⟨e, rfl, serves⟩ := h.one known
  refine (serves.node rfl).bind fun n good => Kind.has_statement h.upright
    (Node.statement_of_parts fun _ => runs n _ good.2.1) ?_ ?_ (formed n)
  · simp [children, good.1]
  · simp [lists]

theorem settles_variableDeclaration :
    Assembles cs .variableDeclaration .statement variableDeclaration := by
  intro whole parts h
  obtain ⟨kind, declarators, rfl, rule, kinds⟩ :=
    h.head rfl (fun x => x == .variableKind) (Rule.isOf .expression) (by decide) (by decide)
  refine (settles_variableKind (h.sturdy kind (by simp)) (beq_iff_eq.1 rule)).bind fun _ _ => ?_
  refine (settles_nodesOf (k := .expression) (List.pairwise_cons.1 h.lined).2 rfl fun p mem =>
    ⟨h.sturdy p (by simp [mem]), kinds p mem⟩).bind fun ns all => ?_
  exact Kind.has_statement h.upright (Node.statement_of_parts fun _ n mem => (all.1 n mem).2.1)
    (fun n mem => (all.1 n mem).1) (by simpa [Shape.lists] using all.2) trivial

theorem settles_variableDeclarator :
    Assembles cs .variableDeclarator .expression variableDeclarator := by
  intro whole parts h
  rcases h.either [.pattern] [.pattern, .expression] (by decide) with known | known
  · obtain ⟨id, rfl, serves⟩ := h.one known
    exact (serves.node rfl).bind fun n good => Kind.has_expression h.upright ⟨good.2, nofun⟩
      (by simp [Shape.children, good.1]) nofun trivial rfl
  · obtain ⟨id, init, rfl, serves, serves'⟩ := h.two known
    exact (serves.node rfl).bind fun n good => (serves'.node rfl).bind fun m good' =>
      Kind.has_expression h.upright ⟨good.2, by simpa using good'.2.1⟩
        (by simp [Shape.children, good.1, good'.1]) nofun trivial rfl

theorem settles_ifStatement : Assembles cs .ifStatement .statement ifStatement := by
  intro whole parts h
  rcases h.either [.expression, .statement] [.expression, .statement, .statement] (by decide)
    with known | known
  · obtain ⟨test, consequent, rfl, serves, serves'⟩ := h.two known
    refine (serves.node rfl).bind fun n good => (serves'.node rfl).bind fun m good' =>
      Kind.has_statement h.upright (fun b strays => runs_of_parts ⟨good.2.1, ?_, nofun⟩)
        (by simp [Shape.children, good.1, good'.1]) nofun trivial
    exact good'.2 b fun inner => strays (.inside (by simp [Shape.openParts]) inner)
  · obtain ⟨test, consequent, alternate, rfl, serves, serves', serves''⟩ := h.three known
    refine (serves.node rfl).bind fun n good => (serves'.node rfl).bind fun m good' =>
      (serves''.node rfl).bind fun o good'' => Kind.has_statement h.upright
        (fun b strays => runs_of_parts ⟨good.2.1, ?_, ?_⟩)
        (by simp [Shape.children, good.1, good'.1, good''.1]) nofun trivial
    · exact good'.2 b fun inner => strays (.inside (by simp [Shape.openParts]) inner)
    · rintro x ⟨⟩
      exact good''.2 b fun inner => strays (.inside (by simp [Shape.openParts]) inner)

/-! ### Loops -/

theorem settles_whileStatement : Assembles cs .whileStatement .statement whileStatement := by
  intro whole parts h
  obtain ⟨test, body, rfl, serves, serves'⟩ := h.two (h.exactly [.expression, .statement] (by decide))
  exact (serves.node rfl).bind fun n good => (serves'.node rfl).bind fun m good' =>
    Kind.has_statement h.upright
      (Node.statement_of_parts fun _ => ⟨good.2.1, good'.2 true fun _ => rfl⟩)
      (by simp [Shape.children, good.1, good'.1]) nofun trivial

theorem isSolid_of_isOf (le : r.isOf .other = true) (other : r ≠ .program) : r.isSolid = true := by
  cases r <;> first | rfl | cases le
  exact (other rfl).elim

theorem settles_loopLeft {left : Part} (h : left.Serves cs span .other)
    (other : left.rule ≠ .program) :
    Settles cs (fun n => n.Fit span ∧ ∀ r, Shape.HeadParts Binds Role.takes r n)
      (loopLeft left) := by
  unfold loopLeft
  by_cases declaration : (left.rule == .forDeclaration) = true
  · have head : left.Serves cs span .head := ⟨h.sturdy, by rw [beq_iff_eq.1 declaration]; rfl⟩
    simp only [declaration, if_true]
    exact (head.node rfl).bind fun n good => good
  · simp only [declaration]
    refine (h.node rfl).bind fun target good =>
      (Part.settles_assignable h.sturdy.placed (isSolid_of_isOf h.le other) target).mono ?_
    rintro _ ⟨rfl, isTarget⟩
    refine ⟨good.1, fun r => ?_⟩
    unfold Shape.isTarget at isTarget
    unfold Shape.HeadParts loopTarget
    split at isTarget
    · next shape => simp [shape]
    · next shape =>
      simp only [shape]
      rfl
    · cases isTarget

/-- Loops over the elements or keys of something. -/
theorem settles_loop {shape : Node → Node → Node → Shape Node} (h : Arranged cs r whole.span parts)
    (known : Kind.below (parts.map Part.kind) [.other, .expression, .statement] = true)
    (other : ((body r).rules.filterMap Rule.shown).all (· != .program) = true)
    (runs : ∀ left right body r, Shape.HeadParts Binds Role.takes r left → Runs .closed right →
      Runs r.looping body → (shape left right body).Parts Runs Binds Role.takes r)
    (children : ∀ left right body, (shape left right body).children = [left, right, body])
    (lists : ∀ left right body, (shape left right body).lists = [])
    (formed : ∀ left right body, (Node.mk (shape left right body) (some whole.span)).Formed) :
    Settles cs (Kind.statement.Has whole.span) (loop whole shape parts) := by
  obtain ⟨left, right, body, rfl, serves, serves', serves''⟩ := h.three known
  have notProgram := h.all (· != .program) other (List.mem_cons_self (a := left))
  refine (settles_loopLeft serves (by simpa using notProgram)).bind fun l good =>
    (serves'.node rfl).bind fun m good' => (serves''.node rfl).bind fun o good'' =>
      Kind.has_statement h.upright (Node.statement_of_parts fun _ =>
        runs _ _ _ _ (good.2 _) good'.2.1 (good''.2 true fun _ => rfl)) ?_ ?_ (formed l m o)
  · simp [children, good.1, good'.1, good''.1]
  · simp [lists]

theorem settles_forDeclaration : Assembles cs .forDeclaration .head forDeclaration := by
  intro whole parts h
  obtain ⟨kind, id, rfl, serves, serves'⟩ := h.two (h.exactly [.token, .pattern] (by decide))
  have rule := h.checked (fun rs => rs.head? == some .variableKind) (by decide)
  refine (settles_variableKind serves.sturdy (by simpa using rule)).bind fun _ _ =>
    (serves'.node rfl).bind fun n good => ?_
  have declarator : (Node.mk (.variableDeclarator n none) (some whole.span)).Fit whole.span :=
    Kind.fit_plain h.upright (.refl _) (by simp [Shape.children, good.1]) nofun trivial rfl
  exact ⟨Kind.fit_plain h.upright (.refl _) (by simp [Shape.children, declarator])
    (by simp [Shape.lists, InOrder]) trivial rfl, fun r => good.2⟩

/-- Loops with three clauses are not run, so that only the functions in them matter. -/
theorem settles_forStatement : Assembles cs .forStatement .statement forStatement := by
  intro whole parts h
  obtain ⟨init, rest, eq, known, left, rules⟩ := takeRule_cases .forInit parts
  obtain ⟨test, rest', eq', known', left', rules'⟩ := takeRule_cases .forTest rest
  obtain ⟨update, rest'', eq'', known'', left'', rules''⟩ := takeRule_cases .forUpdate rest'
  have tail := h.viewed Rule.gist
    (fun rs => isBody .statement (dropRule .forUpdate (dropRule .forTest (dropRule .forInit rs))))
    (by decide)
  have gist : (parts.map fun p => p.rule.gist) = (parts.map Part.rule).map Rule.gist := by
    rw [List.map_map]
    rfl
  rw [gist, dropRule_gist rfl, dropRule_gist rfl, dropRule_gist rfl, isBody_gist, ← rules, ← rules',
    ← rules''] at tail
  obtain ⟨body, rfl, le⟩ := body_of_rules tail
  have sturdy := fun p mem => h.sturdy p (left p mem)
  have sturdy' := fun p mem => sturdy p (left' p mem)
  unfold forStatement
  rw [eq]
  refine (settles_taken (k := .other) h.sturdy known rfl rfl).bind fun init' good₁ => ?_
  rw [eq']
  refine (settles_taken (k := .other) sturdy known' rfl rfl).bind fun test' good₂ => ?_
  rw [eq'']
  refine (settles_taken (k := .other) sturdy' known'' rfl rfl).bind fun update' good₃ => ?_
  refine (Part.Serves.node ⟨sturdy' body (left'' body (by simp)), le⟩ rfl).bind fun n good₄ =>
    Kind.has_statement h.upright (Node.statement_of_parts fun _ => trivial) (fun m mem => ?_) nofun
      trivial
  simp only [Shape.children, List.mem_append, Option.mem_toList, List.mem_singleton] at mem
  rcases mem with ((mem | mem) | mem) | rfl
  · exact (good₁ m mem).1
  · exact (good₂ m mem).1
  · exact (good₃ m mem).1
  · exact good₄.1

/-! ### Jumps and handlers -/

theorem settles_returnStatement : Assembles cs .returnStatement .statement returnStatement := by
  intro whole parts h
  cases parts with
  | nil =>
    exact Kind.has_statement h.upright (Node.statement_of_parts fun _ => ⟨fun _ => rfl, nofun⟩) nofun
      nofun trivial
  | cons argument rest =>
    have serves := h.serves (k := .expression) (by decide) (List.mem_cons_self (a := argument))
    exact (serves.node rfl).bind fun n good => Kind.has_statement h.upright
      (Node.statement_of_parts fun _ => ⟨fun _ => rfl, by simpa using good.2.1⟩)
      (by simp [Shape.children, good.1]) nofun trivial

theorem settles_jump (shape : Option Node → Shape Node) (h : Arranged cs r whole.span parts)
    (runs : ∀ r, r.breaks = true → (shape none).Parts Runs Binds Role.takes r)
    (named : ∀ n r, (shape (some n)).Parts Runs Binds Role.takes r)
    (strays : ∀ loc, (Node.mk (shape none) loc).Strays)
    (children : ∀ label, (shape label).children = label.toList)
    (lists : ∀ label, (shape label).lists = [])
    (formed : ∀ label, (Node.mk (shape label) (some whole.span)).Formed) :
    Settles cs (Kind.statement.Has whole.span) (jump whole shape parts) := by
  refine Kind.has_statement h.upright ?_ (fun m mem => ?_) (by simp [lists]) (formed _)
  · intro b strays'
    cases label : parts.head?.map nameNode with
    | none =>
      rw [label] at strays'
      exact runs_of_parts (runs _ (strays' (strays _)))
    | some n => exact runs_of_parts (named n _)
  · rw [children] at mem
    obtain ⟨p, there, rfl⟩ := Option.map_eq_some_iff.1 (Option.mem_toList.1 mem)
    exact (h.sturdy p (List.mem_of_mem_head? there)).name

/-- The word `try` stands where a statement of this rule starts. -/
theorem justified_missingHandler {p : Pair Rule} (placed : p.Placed script Rule.isSolid cs)
    (rule : p.rule = .tryStatement) :
    SyntaxError.Justified cs ⟨.missingHandler, p.start.pos⟩ := by
  obtain ⟨word, _, inner, wordRule, start⟩ :=
    placed.stands.first (by rw [rule]; nofun) .wordTry _ (by rw [rule]; rfl)
  have placed' := placed.of_inner (q := word) (by rw [inner]; exact List.mem_cons_self)
  have text := placed'.mem_texts ["try".toList] (by rw [wordRule]; rfl)
    (by rw [wordRule]; decide)
  obtain ⟨before, after, eq, pos, -⟩ := placed'.divides
  rw [List.mem_singleton.1 text] at eq
  rw [start] at pos
  exact ⟨before, _, eq, pos, .missingHandler after⟩

theorem settles_tryStatement (h : Arranged cs .tryStatement whole.span parts)
    (placed : whole.pair.Placed script Rule.isSolid cs) (rule : whole.rule = .tryStatement) :
    Settles cs (Kind.statement.Has whole.span) (tryStatement whole parts) := by
  obtain ⟨block, parts, rfl⟩ := h.cons (by decide)
  have serves := h.serves (k := .statement) (by decide) (List.mem_cons_self (a := block))
  have sturdy := fun p mem => h.sturdy p (List.mem_cons_of_mem block mem)
  obtain ⟨handler, rest, eq, known, left, -⟩ := takeRule_cases .catchClause parts
  obtain ⟨finalizer, rest', eq', known', -, -⟩ := takeRule_cases .finallyClause rest
  have sturdy' := fun p mem => sturdy p (left p mem)
  unfold tryStatement
  refine (serves.node rfl).bind fun n good => ?_
  rw [eq]
  refine (settles_taken (k := .statement) sturdy known rfl rfl).bind fun handler good₁ => ?_
  rw [eq']
  refine (settles_taken (k := .statement) sturdy' known' rfl rfl).bind fun finalizer good₂ => ?_
  by_cases none : (handler.isNone && finalizer.isNone) = true
  · rw [if_pos none]
    exact justified_missingHandler placed rule
  rw [if_neg none]
  refine Kind.has_statement h.upright (fun b strays => ?_) (fun m mem => ?_) nofun trivial
  · have runs : ∀ m, m ∈ n :: (handler.toList ++ finalizer.toList) → m.Statement →
        Runs ⟨true, b⟩ m :=
      fun m mem statement => statement b fun inner => strays (.inside mem inner)
    refine runs_of_parts ⟨runs n (by simp) good.2, fun m mem => ?_, fun m mem => ?_⟩
    · exact runs m (by simp [Option.mem_def.1 mem]) (good₁ m mem).2
    · exact runs m (by simp [Option.mem_def.1 mem]) (good₂ m mem).2
  · simp only [Shape.children, List.mem_cons, List.mem_append, Option.mem_toList] at mem
    rcases mem with rfl | mem | mem
    · exact good.1
    · exact (good₁ m mem).1
    · exact (good₂ m mem).1

theorem settles_catchClause : Assembles cs .catchClause .statement catchClause := by
  intro whole parts h
  rcases h.either [.statement] [.pattern, .statement] (by decide) with known | known
  · obtain ⟨body, rfl, serves⟩ := h.one known
    refine (serves.node rfl).bind fun n good => Kind.has_statement h.upright
      (fun b strays => runs_of_parts ⟨nofun, ?_⟩) (by simp [Shape.children, good.1]) nofun
      trivial
    exact good.2 b fun inner => strays (.inside (by simp [Shape.openParts]) inner)
  · obtain ⟨param, body, rfl, serves, serves'⟩ := h.two known
    refine (serves.node rfl).bind fun n good => (serves'.node rfl).bind fun m good' =>
      Kind.has_statement h.upright
        (fun b strays => runs_of_parts ⟨by rintro x ⟨⟩; exact good.2, ?_⟩)
        (by simp [Shape.children, good.1, good'.1]) nofun trivial
    exact good'.2 b fun inner => strays (.inside (by simp [Shape.openParts]) inner)

/-! ## Functions -/

/-- Functions with a body of their own. -/
theorem settles_function (shape : Option Node → List Node → Node → Bool → Bool → Shape Node)
    (h : Arranged cs r whole.span parts)
    (check : ((body r).forms fun x => x.shown.map id).any (·.all fun rs => isBody .statement
      (dropRule .parameters (dropRule .identifier (dropRule .generatorMarker
        (dropRule .asyncMarker rs))))) = true)
    (runs : ∀ id params body generator isAsync r, (∀ p ∈ params, Binds p) → Runs .body body →
      (shape id params body generator isAsync).Parts Runs Binds Role.takes r)
    (children : ∀ id params body generator isAsync,
      (shape id params body generator isAsync).children = id.toList ++ params ++ [body])
    (lists : ∀ id params body generator isAsync,
      (shape id params body generator isAsync).lists = [params])
    (formed : ∀ id params body generator isAsync,
      (Node.mk (shape id params body generator isAsync) (some whole.span)).Formed) :
    Settles cs (fun b => ∃ id params body generator isAsync,
      b = .node (.mk (shape id params body generator isAsync) (some whole.span)) ∧
        (Node.mk (shape id params body generator isAsync) (some whole.span)).Fit whole.span ∧
        ∀ r, (shape id params body generator isAsync).Parts Runs Binds Role.takes r)
      (function whole shape parts) := by
  obtain ⟨isAsync, rest, eq, -, left, rules⟩ := takeRule_cases .asyncMarker parts
  obtain ⟨generator, rest', eq', -, left', rules'⟩ := takeRule_cases .generatorMarker rest
  obtain ⟨id, rest'', eq'', known, left'', rules''⟩ := takeRule_cases .identifier rest'
  have tail := h.checked _ check
  rw [← rules, ← rules', ← rules''] at tail
  have sturdy := fun p mem => h.sturdy p (left p (left' p mem))
  unfold function
  rw [eq]
  simp only
  rw [eq']
  simp only
  rw [eq'']
  refine (settles_functionParts (fun p mem => sturdy p (left'' p mem)) tail).bind
    fun ⟨params, body⟩ ⟨goodParams, goodBody⟩ => ?_
  have run : ∀ r, (shape (id.map nameNode) params body generator.isSome isAsync.isSome).Parts
      Runs Binds Role.takes r := fun r =>
    runs _ _ _ _ _ _ (fun p mem => (goodParams.1 p mem).2) (goodBody.2 true fun _ => rfl)
  refine ⟨_, params, body, _, _, rfl, ?_, run⟩
  refine Kind.fit_runs h.upright (.refl _) (fun m mem => ?_) ?_ (formed _ _ _ _ _)
    (runs_of_parts (run .closed))
  · simp only [children, List.mem_append, Option.mem_toList, List.mem_singleton] at mem
    rcases mem with (mem | mem) | rfl
    · obtain ⟨p, taken, rfl⟩ := Option.map_eq_some_iff.1 mem
      exact (sturdy p (known p taken).1).name
    · exact (goodParams.1 m mem).1
    · exact goodBody.1
  · rw [lists]
    simpa using goodParams.2

theorem settles_functionDeclaration :
    Assembles cs .functionDeclaration .statement (function · .functionDeclaration) := by
  intro whole parts h
  refine (settles_function .functionDeclaration h (by decide)
    (fun _ _ _ _ _ _ params body => ⟨params, body⟩) (fun _ _ _ _ _ => rfl)
    (fun _ _ _ _ _ => rfl) fun _ _ _ _ _ => trivial).mono ?_
  rintro _ ⟨_, _, _, _, _, rfl, fit, runs⟩
  exact ⟨fit, Node.statement_of_parts fun _ => runs _⟩

theorem settles_functionExpression :
    Assembles cs .functionExpression .expression (function · .functionExpression) := by
  intro whole parts h
  refine (settles_function .functionExpression h (by decide)
    (fun _ _ _ _ _ _ params body => ⟨params, body⟩) (fun _ _ _ _ _ => rfl)
    (fun _ _ _ _ _ => rfl) fun _ _ _ _ _ => trivial).mono ?_
  rintro _ ⟨_, _, _, _, _, rfl, fit, runs⟩
  exact ⟨fit, runs_of_parts (runs _), nofun⟩

theorem settles_arrowFunction : Assembles cs .arrowFunction .expression arrowFunction := by
  intro whole parts h
  obtain ⟨isAsync, rest, eq, -, left, rules⟩ := takeRule_cases .asyncMarker parts
  have tail := h.checked (fun rs => (dropRule .asyncMarker rs).length == 2 &&
    (dropRule .asyncMarker rs).head? == some .arrowParameters &&
    (dropRule .asyncMarker rs).getLast?.any fun y => y == .block || y.isOf .expression) (by decide)
  rw [← rules] at tail
  obtain ⟨head, body, rfl, rule, last⟩ : ∃ head body, rest = [head, body] ∧
      head.rule = .arrowParameters ∧ (body.rule = .block ∨ body.rule.isOf .expression = true) := by
    rcases rest with _ | ⟨head, _ | ⟨body, _ | ⟨_, _⟩⟩⟩
    case cons.cons.nil => exact ⟨head, body, rfl, by simpa using tail⟩
    all_goals simp at tail
  have own := h.sturdy head (left head (by simp))
  have kind : head.kind = .patterns := by rw [Part.kind, rule]; rfl
  have goodBody : Settles cs (fun n => n.Fit whole.span ∧
      Runs (if n.type = .blockStatement then .body else .closed) n) body.node := by
    have sturdy := h.sturdy body (left body (by simp))
    rcases last with block | expression
    · refine (Part.Serves.node (k := .block) ⟨sturdy, by rw [block]; rfl⟩ rfl).mono fun n good => ?_
      rw [if_pos good.2.2]
      exact ⟨good.1, good.2.1 true fun _ => rfl⟩
    · refine (Part.Serves.node ⟨sturdy, expression⟩ rfl).mono fun n good => ?_
      rw [if_neg good.2.2]
      exact ⟨good.1, good.2.1⟩
  unfold arrowFunction
  rw [eq]
  refine (own.nodes kind (by decide)).bind fun params good => goodBody.bind fun n good' => ?_
  refine Kind.has_expression h.upright ⟨fun p mem => (good.1 p mem).2, good'.2⟩ (fun m mem => ?_)
    (by simpa [Shape.lists] using good.2) trivial rfl
  simp only [Shape.children, List.mem_append, List.mem_singleton] at mem
  rcases mem with mem | rfl
  · exact (good.1 m mem).1
  · exact good'.1

theorem settles_arrowParameters (h : Arranged cs .arrowParameters span parts) :
    Settles cs (Kind.patterns.Has span) (arrowParameters parts) := by
  cases parts with
  | nil => exact ⟨by decide, List.forall_mem_nil _, .nil⟩
  | cons head rest =>
    have form := h.all (fun x => x == .identifier || x == .parameters) (by decide)
      (List.mem_cons_self (a := head))
    have own := h.sturdy head (by simp)
    rw [arrowParameters]
    by_cases name : (head.rule == .identifier) = true
    · rw [if_pos name]
      refine ⟨by decide, fun n mem => ?_, List.pairwise_singleton _ _⟩
      cases List.mem_singleton.1 mem
      exact ⟨own.name, (Kind.has_name (Part.upright own.placed)).2.mono rfl⟩
    · rw [if_neg name]
      have rule : head.rule = .parameters := by simpa [name] using form
      have kind : head.kind = .patterns := by rw [Part.kind, rule]; rfl
      exact (own.nodes kind (by decide)).bind fun ns good => ⟨by decide, good.1, good.2⟩

/-! ## Classes -/

theorem has_methodFunction {params : List Node} {body : Node} (upright : span.start ≤ span.stop)
    (goodParams : (∀ p ∈ params, p.Fit span ∧ Binds p) ∧ InOrder params)
    (goodBody : body.Fit span ∧ body.Statement) :
    Kind.expression.Has span (.node (methodFunction params body span)) := by
  refine Kind.has_expression upright
    ⟨fun p mem => (goodParams.1 p mem).2, goodBody.2 true fun _ => rfl⟩ (fun m mem => ?_)
    (by simpa [Shape.lists] using goodParams.2) trivial rfl
  simp only [Shape.children, List.mem_append, Option.toList, List.nil_append,
    List.mem_singleton] at mem
  rcases mem with mem | rfl
  · exact (goodParams.1 m mem).1
  · exact goodBody.1

theorem settles_classDeclaration : Assembles cs .classDeclaration .statement classDeclaration := by
  intro whole parts h
  obtain ⟨id, parts, rfl⟩ := h.cons (by decide)
  have sturdy := fun p mem => h.sturdy p (List.mem_cons_of_mem id mem)
  obtain ⟨heritage, rest, eq, known, left, rules⟩ := takeRule_cases .classHeritage parts
  have tail := h.checked (fun rs => isBody .members (dropRule .classHeritage rs.tail)) (by decide)
  rw [List.map_cons, List.tail_cons, ← rules] at tail
  obtain ⟨body, rfl, le⟩ := body_of_rules tail
  rw [classDeclaration, eq]
  refine (settles_taken (k := .expression) sturdy known rfl rfl).bind fun superClass good => ?_
  refine (Part.Serves.node ⟨sturdy body (left body (by simp)), le⟩ rfl).bind fun n goodBody =>
    Kind.has_statement h.upright (Node.statement_of_parts fun _ =>
      ⟨nofun, fun m mem => (good m mem).2.1, goodBody.2.1 _⟩) (fun m mem => ?_) nofun goodBody.2.2
  simp only [Shape.children, List.mem_append, Option.mem_toList, List.mem_singleton] at mem
  rcases mem with (mem | mem) | rfl
  · cases mem
    exact (h.sturdy id List.mem_cons_self).name
  · exact (good m mem).1
  · exact goodBody.1

theorem settles_classBody : Assembles cs .classBody .members (listed · .classBody) := by
  intro whole parts h
  refine (h.nodes .member rfl (by decide)).bind fun ns all => ?_
  have runs : ∀ r, Runs r (.mk (.classBody ns) (some whole.span)) :=
    fun r => runs_of_parts fun n mem => (all.1 n mem).2.1 r
  exact ⟨Kind.fit_runs h.upright (.refl _) (fun n mem => (all.1 n mem).1)
    (by simpa [Shape.lists] using all.2) trivial (runs .closed), runs, fun n mem => (all.1 n mem).2.2⟩

def isMethod : List Rule → Bool
  | x :: rest => x == .propertyKey && isBody .statement (dropRule .parameters rest)
  | [] => false

theorem method_of_rules (h : isMethod (parts.map Part.rule) = true) :
    ∃ key rest, parts = key :: rest ∧ key.kind = .key ∧
      isBody .statement (dropRule .parameters (rest.map Part.rule)) = true := by
  cases parts with
  | nil => cases h
  | cons key rest =>
    obtain ⟨rule, tail⟩ := Bool.and_eq_true_iff.1 h
    exact ⟨key, rest, rfl, by rw [Part.kind, beq_iff_eq.1 rule]; rfl, tail⟩

theorem settles_classMember : Assembles cs .classMember .member classMember := by
  intro whole parts h
  obtain ⟨isStatic, rest, eq, -, left, rules⟩ := takeRule_cases .staticMarker parts
  have method := h.checked (fun rs => isMethod (dropRule .staticMarker rs)) (by decide)
  rw [← rules] at method
  obtain ⟨key, rest, rfl, kind, tail⟩ := method_of_rules method
  have sturdy := fun p mem => h.sturdy p (left p (List.mem_cons_of_mem key mem))
  unfold classMember
  rw [eq]
  refine ((h.sturdy key (left key (by simp))).key kind).bind fun ⟨key', computed⟩ goodKey => ?_
  refine (settles_functionParts sturdy tail).bind fun ⟨params, body⟩ ⟨goodParams, goodBody⟩ => ?_
  have value := has_methodFunction h.upright goodParams goodBody
  have runs : ∀ r kind isStatic, Runs r (.mk (.methodDefinition key'
      (methodFunction params body whole.span) kind computed isStatic) (some whole.span)) :=
    fun r kind isStatic => runs_of_parts value.2.1
  exact ⟨Kind.fit_runs h.upright (.refl _) (by simp [Shape.children, goodKey.1, value.1]) nofun
    trivial (runs .closed _ _), fun r => runs r _ _, .inl rfl⟩

/-! ## Patterns -/

theorem settles_withDefault {target : Node} (upright : span.start ≤ span.stop)
    (serves : ∀ p ∈ parts, p.Serves cs span .expression)
    (goodTarget : target.Fit span ∧ Binds target) :
    Settles cs (fun n => n.Fit span ∧ Binds n) (withDefault target span parts) := by
  cases parts with
  | nil => exact goodTarget
  | cons p rest =>
    refine ((serves p List.mem_cons_self).node rfl).bind fun n good => ⟨?_, ?_⟩
    · exact Kind.fit_plain upright (.refl _) (by simp [Shape.children, goodTarget.1, good.1]) nofun
        trivial rfl
    · exact binds_of_parts ⟨goodTarget.2, good.2.1⟩

theorem settles_bindingElement : Assembles cs .bindingElement .pattern bindingElement := by
  intro whole parts h
  have form := h.checked (fun
    | first :: rest => first.isOf .pattern && rest.all (Rule.isOf .expression)
    | [] => true) (by decide)
  obtain ⟨target, rest, rfl⟩ := h.cons (by decide)
  rw [List.map_cons, Bool.and_eq_true, List.all_map, List.all_eq_true] at form
  refine (Part.Serves.node ⟨h.sturdy target (by simp), form.1⟩ rfl).bind fun n good => ?_
  exact (settles_withDefault h.upright (fun p mem => ⟨h.sturdy p (by simp [mem]), form.2 p mem⟩)
    good).bind fun m good' => good'

theorem settles_objectPattern :
    Assembles cs .objectPattern .pattern (listed · .objectPattern) := fun _ _ h =>
  (h.nodes .bound rfl (by decide)).bind fun ns all =>
    ⟨Kind.fit_plain h.upright (.refl _) (fun n mem => (all.1 n mem).1)
      (by simpa [Shape.lists] using all.2) trivial rfl, binds_of_parts fun n mem => (all.1 n mem).2⟩

theorem settles_patternProperty : Assembles cs .patternProperty .bound patternProperty := by
  intro whole parts h
  have form := h.checked (fun rs =>
    if rs.head? == some .propertyKey then isBody .pattern rs.tail
    else rs.head? == some .identifier && rs.tail.all (Rule.isOf .expression)) (by decide)
  obtain ⟨first, rest, rfl⟩ := h.cons (by decide)
  have own := h.sturdy first (by simp)
  rw [patternProperty]
  simp only [List.map_cons, List.head?_cons, Option.some_beq_some, List.tail_cons] at form
  by_cases key : (first.rule == .propertyKey) = true
  · simp only [key, if_true] at form ⊢
    obtain ⟨value, rfl, le⟩ := body_of_rules form
    have kind : first.kind = .key := by rw [Part.kind, beq_iff_eq.1 key]; rfl
    refine (own.key kind).bind fun found goodKey => ?_
    refine (Part.Serves.node ⟨h.sturdy value (by simp), le⟩ rfl).bind fun n good =>
      ⟨Kind.fit_plain h.upright (.refl _) (by simp [Shape.children, goodKey.1, good.1])
        (List.forall_mem_nil _) trivial rfl, fun _ => rfl, good.2⟩
  · rw [if_neg key]
    simp only [if_neg key, Bool.and_eq_true, List.all_map, List.all_eq_true] at form
    have name := Kind.has_name (Part.upright own.placed)
    refine (settles_withDefault h.upright (fun p mem => ⟨h.sturdy p (by simp [mem]), form.2 p mem⟩)
      ⟨own.name, Kind.binds_of_name name.2⟩).bind fun n good =>
        ⟨Kind.fit_plain h.upright (.refl _) (by simp [Shape.children, own.name, good.1])
          (List.forall_mem_nil _) trivial rfl, fun _ => rfl, good.2⟩

end Assemble

end EcmaMachine.Grammar
