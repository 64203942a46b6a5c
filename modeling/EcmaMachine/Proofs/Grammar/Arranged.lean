import EcmaMachine.Proofs.Grammar.Built
import EcmaMachine.Proofs.Grammar.Places

/-!
The parts that a builder sees. The grammar arranges the parts of every rule in one of a few ways,
so that each part that a builder asks for is there and was built into what it is taken for; where
it was not, the text is at fault.
-/

namespace EcmaMachine

/-! ## Faults of a text -/

/-- What is wrong with a text that the grammar matches, and what stands where the error points. -/
inductive SyntaxFault.Concerns : SyntaxFault → List Char → Prop
  | missingHandler (rest : List Char) : Concerns .missingHandler ("try".toList ++ rest)
  | invalidTarget (type : NodeType) {there : List Char} (some : there ≠ []) :
    Concerns (.invalidTarget type) there
  | invalidNumber {digits : List Char} (some : digits ≠ []) (rest : List Char) :
    Concerns (.invalidNumber (String.ofList digits)) (digits ++ rest)

theorem SyntaxFault.Concerns.there_ne_nil {fault : SyntaxFault} {there : List Char}
    (h : fault.Concerns there) : there ≠ [] := by
  cases h with
  | missingHandler rest => nofun
  | invalidTarget type some => exact some
  | invalidNumber some rest => exact fun empty => some (List.append_eq_nil_iff.1 empty).1

/-- The error points at a place of the text where what it says is wrong stands. -/
def SyntaxError.Justified (cs : List Char) (e : SyntaxError) : Prop :=
  ∃ before there, cs = before ++ there ∧ e.pos = (Position.mk 1 0).after before ∧
    e.fault.Concerns there

namespace Grammar

variable {α β : Type} {cs : List Char} {k : Kind} {parts : List Part} {span : Span}

/-- Either there is an answer and it is as `Q` says, or the text is at fault. -/
def Settles (cs : List Char) (Q : α → Prop) : Except SyntaxError α → Prop
  | .ok a => Q a
  | .error e => e.Justified cs

theorem Settles.bind {Q : α → Prop} {R : β → Prop} {x : Except SyntaxError α}
    {f : α → Except SyntaxError β} (h : Settles cs Q x) (next : ∀ a, Q a → Settles cs R (f a)) :
    Settles cs R (x >>= f) := by
  cases x with
  | error => exact h
  | ok a => exact next a h

theorem Settles.mono {Q R : α → Prop} {x : Except SyntaxError α} (h : Settles cs Q x)
    (imp : ∀ a, Q a → R a) : Settles cs R x := by
  cases x with
  | error => exact h
  | ok a => exact imp a h

theorem settles_optionM {Q : β → Prop} {f : α → Except SyntaxError β} {o : Option α}
    (h : ∀ x ∈ o, Settles cs Q (f x)) : Settles cs (fun found => ∀ b ∈ found, Q b) (o.mapM f) := by
  cases o with
  | none => exact nofun
  | some x =>
    refine (h x rfl).bind fun b holds => ?_
    rintro _ ⟨⟩
    exact holds

/-! ## Parts -/

namespace Rule

/-- Words are not among the parts that a builder sees. -/
def shown (r : Rule) : Option Rule := r.kind.map fun _ => r

def speaks (known : String → Bool) (r : Rule) : Bool :=
  modeOf r == some .atomic && (body r).texts.any (·.all fun w => known (String.ofList w))

def isOf (k : Kind) (r : Rule) : Bool := (r.kind.getD .token).le k

end Rule

namespace Part

/-- The part stands in the text, within a span, and it was built into what its rule is built into,
unless the text is at fault. -/
structure Sturdy (cs : List Char) (span : Span) (p : Part) : Prop where
  placed : p.pair.Placed script Rule.isSolid cs
  inside : p.span.Inside span
  built : Settles cs (p.kind.Has p.span) p.built

variable {p : Part} {span : Span} {k : Kind}

theorem upright (placed : p.pair.Placed script Rule.isSolid cs) : p.span.start ≤ p.span.stop := by
  obtain ⟨w, leads, -⟩ := placed.stands.covers
  exact leads.le

theorem Sturdy.speaks (h : p.Sturdy cs span) (known : String → Bool)
    (check : p.rule.speaks known = true) : known p.text = true := by
  obtain ⟨atomic, check⟩ := Bool.and_eq_true_iff.1 check
  obtain ⟨ws, texts, all⟩ := (Option.any_eq_true _ _).1 check
  exact List.all_eq_true.1 all _ (h.placed.mem_texts ws (beq_iff_eq.1 atomic) texts)

/-- The name that a part is. -/
theorem Sturdy.name (h : p.Sturdy cs span) : (nameNode p).Fit span :=
  (Kind.has_name (upright h.placed)).1.mono h.inside

structure Serves (cs : List Char) (span : Span) (k : Kind) (p : Part) : Prop where
  sturdy : p.Sturdy cs span
  le : p.rule.isOf k = true

/-- The node of a part stands within its match. -/
theorem Serves.own (h : p.Serves cs span k) (isNode : k.isNode = true) :
    Settles cs (fun n => n.Fit p.span ∧ k.Holds n) p.node := by
  have known : p.kind.isNode = true := Kind.isNode_of_le h.le isNode
  refine h.sturdy.built.bind fun b has => ?_
  cases b with
  | node n => exact ⟨has.1, has.2.mono h.le⟩
  | nodes ns =>
    have list := has.1
    cases kind : p.kind <;> rw [kind] at known list <;> first | cases known; done | cases list rfl
  | key n => rw [show p.kind = _ from has.1] at known; cases known
  | token => rw [show p.kind = _ from has] at known; cases known

theorem Serves.node (h : p.Serves cs span k) (isNode : k.isNode = true) :
    Settles cs (fun n => n.Fit span ∧ k.Holds n) p.node :=
  (h.own isNode).mono fun _ has => ⟨has.1.mono h.sturdy.inside, has.2⟩

theorem Sturdy.nodes (h : p.Sturdy cs span) (kind : p.kind = k)
    (list : k.item ≠ .token) :
    Settles cs (fun ns => (∀ n ∈ ns, n.Fit span ∧ k.item.Holds n) ∧ InOrder ns) p.nodes := by
  refine h.built.bind fun b has => ?_
  rw [kind] at has
  cases b with
  | nodes ns => exact ⟨fun n mem => ⟨(has.2.1 n mem).1.mono h.inside, (has.2.1 n mem).2⟩, has.2.2⟩
  | node n =>
    have holds := has.2
    cases k <;> first | exact holds.elim | cases list rfl
  | key n => cases list (by rw [has.1]; rfl)
  | token => cases list (by rw [show k = _ from has]; rfl)

theorem Sturdy.key (h : p.Sturdy cs span) (kind : p.kind = .key) :
    Settles cs (fun found => found.1.Fit span ∧
      if found.2 then found.1.Expression else found.1.staticKey? ≠ none) p.key := by
  refine h.built.bind fun b has => ?_
  rw [kind] at has
  cases b with
  | key n => exact ⟨has.2.1.mono h.inside, has.2.2⟩
  | node n => exact has.2.elim
  | nodes ns => cases has.1 rfl
  | token => cases has

/-- Only the text is at fault where a target cannot be assigned to. -/
theorem settles_assignable {place : Part} (placed : place.pair.Placed script Rule.isSolid cs)
    (solid : place.rule.isSolid = true) (target : Node) :
    Settles cs (fun n => n = target ∧ target.shape.isTarget = true) (place.assignable target) := by
  obtain ⟨before, after, eq, pos, some⟩ := placed.divides
  unfold assignable
  split
  · next shape => exact ⟨rfl, by rw [shape]; rfl⟩
  · next shape => exact ⟨rfl, by rw [shape]; rfl⟩
  · refine ⟨before, _, eq, pos, .invalidTarget _ ?_⟩
    intro empty
    exact some solid (List.append_eq_nil_iff.1 empty).1

end Part

/-! ## The parts of a rule -/

def Lined (parts : List Part) : Prop := parts.Pairwise fun p q => p.span.stop ≤ q.span.start

/-- The parts of a rule, as the grammar arranges them within the span of its match. -/
structure Arranged (cs : List Char) (r : Rule) (span : Span) (parts : List Part) : Prop where
  upright : span.start ≤ span.stop
  sturdy : ∀ p ∈ parts, p.Sturdy cs span
  lined : Lined parts
  order : ∃ rs, (body r).Yields rs ∧ rs.filterMap Rule.shown = parts.map Part.rule

/-- Matches of the rule are built into what the kind says, unless the text is at fault. -/
def Assembles (cs : List Char) (r : Rule) (k : Kind)
    (f : Part → List Part → Except SyntaxError Built) : Prop :=
  ∀ ⦃whole parts⦄, Arranged cs r whole.span parts → Settles cs (k.Has whole.span) (f whole parts)

inductive Alternates (operator : Rule) : List Part → Prop
  | nil : Alternates operator []
  | cons {p q : Part} {rest : List Part} (first : p.rule = operator)
    (second : q.rule.isOf .expression = true) (others : Alternates operator rest) :
    Alternates operator (p :: q :: rest)

theorem one_of_map {f : α → β} {l : List α} {x : β} (h : l.map f = [x]) :
    ∃ a, l = [a] ∧ f a = x := by
  simpa [List.map_eq_cons_iff] using h

/-- Nodes of parts, one by one. -/
theorem settles_mapM {f : Part → Except SyntaxError α} (view : α → Option Node) (k : Kind)
    (lined : Lined parts)
    (h : ∀ p ∈ parts, Settles cs (fun a => ∀ n ∈ view a, n.Fit p.span ∧ k.Holds n) (f p)) :
    Settles cs (fun as => (∀ n ∈ as.filterMap view, ∃ p ∈ parts, n.Fit p.span ∧ k.Holds n) ∧
      InOrder (as.filterMap view)) (parts.mapM f) := by
  induction parts with
  | nil => exact ⟨nofun, .nil⟩
  | cons p rest ih =>
    rw [List.forall_mem_cons] at h
    obtain ⟨first, lined⟩ := List.pairwise_cons.1 lined
    rw [List.mapM_cons]
    refine h.1.bind fun a own => (ih lined h.2).bind fun as all => ?_
    have others : ∀ n ∈ as.filterMap view, ∃ q ∈ p :: rest, n.Fit q.span ∧ k.Holds n := by
      intro n mem
      obtain ⟨q, known, has⟩ := all.1 n mem
      exact ⟨q, List.mem_cons_of_mem p known, has⟩
    change (∀ n ∈ (a :: as).filterMap view, _) ∧ InOrder ((a :: as).filterMap view)
    cases shown : view a with
    | none =>
      rw [List.filterMap_cons_none shown]
      exact ⟨others, all.2⟩
    | some n =>
      rw [List.filterMap_cons_some shown, List.forall_mem_cons]
      have has := own n shown
      refine ⟨⟨⟨p, List.mem_cons_self, has⟩, others⟩,
        inOrder_cons (fun s loc => (has.1.inside loc).2) (fun m mem s loc => ?_) all.2⟩
      obtain ⟨q, known, fit, -⟩ := all.1 m mem
      exact (first q known).trans (fit.inside loc).1

theorem settles_nodesOf (lined : Lined parts) (isNode : k.isNode = true)
    (h : ∀ p ∈ parts, p.Serves cs span k) :
    Settles cs (fun ns => (∀ n ∈ ns, n.Fit span ∧ k.Holds n) ∧ InOrder ns) (nodesOf parts) := by
  refine Settles.mono (settles_mapM some k lined fun p mem =>
    ((h p mem).own isNode).mono ?_) fun ns all => ?_
  · rintro n has _ ⟨⟩
    exact has
  · rw [List.filterMap_some] at all
    refine ⟨fun n mem => ?_, all.2⟩
    obtain ⟨p, known, has⟩ := all.1 n mem
    exact ⟨has.1.mono (h p known).sturdy.inside, has.2⟩

namespace Arranged

variable {r : Rule} {span : Span} {parts : List Part} {k : Kind}

section

variable (h : Arranged cs r span parts)
include h

/-- What can be checked of all orders of the parts, by what a view shows of their rules. -/
theorem viewed {κ : Type} [BEq κ] [LawfulBEq κ] (view : Rule → κ) (P : List κ → Bool)
    (check : ((body r).forms fun x => x.shown.map view).any (·.all P) = true) :
    P (parts.map fun p => view p.rule) = true := by
  obtain ⟨rs, yields, rules⟩ := h.order
  obtain ⟨known, forms, all⟩ := (Option.any_eq_true _ _).1 check
  have same : rs.filterMap (fun x => x.shown.map view) = parts.map fun p => view p.rule := by
    rw [← List.map_filterMap, rules, List.map_map]
    rfl
  rw [← same]
  exact List.all_eq_true.1 all _ (yields.mem_forms forms)

theorem checked (P : List Rule → Bool)
    (check : ((body r).forms fun x => x.shown.map id).any (·.all P) = true) :
    P (parts.map Part.rule) = true :=
  h.viewed id P check

/-- The kinds of the parts, of which it is known what they are below. -/
theorem exactly (ks : List Kind)
    (check : ((body r).forms fun x => x.shown.map fun x => x.kind.getD .token).any
      (·.all (Kind.below · ks)) = true) : Kind.below (parts.map Part.kind) ks = true :=
  h.viewed (fun x => x.kind.getD .token) (Kind.below · ks) check

theorem either (ks ks' : List Kind)
    (check : ((body r).forms fun x => x.shown.map fun x => x.kind.getD .token).any
      (·.all fun found => Kind.below found ks || Kind.below found ks') = true) :
    Kind.below (parts.map Part.kind) ks = true ∨ Kind.below (parts.map Part.kind) ks' = true :=
  Bool.or_eq_true_iff.1 (h.viewed (fun x => x.kind.getD .token)
    (fun found => Kind.below found ks || Kind.below found ks') check)

/-! A few parts of known kinds. -/

theorem first {ks : List Kind} (before : List Part) {rest : List Part} (eq : parts = before ++ rest)
    (known : Kind.below (rest.map Part.kind) (k :: ks) = true) :
    ∃ p others, rest = p :: others ∧ p.Serves cs span k ∧
      Kind.below (others.map Part.kind) ks = true := by
  cases rest with
  | nil => cases known
  | cons p others =>
    obtain ⟨le, known⟩ := Bool.and_eq_true_iff.1 known
    exact ⟨p, others, rfl, ⟨h.sturdy p (by simp [eq]), le⟩, known⟩

end

theorem nil_of_below {rest : List Part} (known : Kind.below (rest.map Part.kind) [] = true) :
    rest = [] := by
  cases rest with
  | nil => rfl
  | cons => cases known

variable (h : Arranged cs r span parts)
include h

theorem one (known : Kind.below (parts.map Part.kind) [k] = true) :
    ∃ p, parts = [p] ∧ p.Serves cs span k := by
  obtain ⟨p, rest, rfl, serves, known⟩ := h.first [] rfl known
  exact ⟨p, by rw [nil_of_below known], serves⟩

theorem two {k' : Kind} (known : Kind.below (parts.map Part.kind) [k, k'] = true) :
    ∃ p q, parts = [p, q] ∧ p.Serves cs span k ∧ q.Serves cs span k' := by
  obtain ⟨p, rest, rfl, serves, known⟩ := h.first [] rfl known
  obtain ⟨q, rest, rfl, serves', known⟩ := h.first [p] rfl known
  exact ⟨p, q, by rw [nil_of_below known], serves, serves'⟩

theorem three {k' k'' : Kind} (known : Kind.below (parts.map Part.kind) [k, k', k''] = true) :
    ∃ p q o, parts = [p, q, o] ∧ p.Serves cs span k ∧ q.Serves cs span k' ∧
      o.Serves cs span k'' := by
  obtain ⟨p, rest, rfl, serves, known⟩ := h.first [] rfl known
  obtain ⟨q, rest, rfl, serves', known⟩ := h.first [p] rfl known
  obtain ⟨o, rest, rfl, serves'', known⟩ := h.first [p, q] rfl known
  exact ⟨p, q, o, by rw [nil_of_below known], serves, serves', serves''⟩

theorem cons
    (check : ((body r).forms fun x => x.shown.map id).any (·.all fun rs => !rs.isEmpty) = true) :
    ∃ p rest, parts = p :: rest := by
  cases parts with
  | nil => cases h.checked _ check
  | cons p rest => exact ⟨p, rest, rfl⟩

/-- What can be checked of all rules that a rule names. -/
theorem all (P : Rule → Bool)
    (check : ((body r).rules.filterMap Rule.shown).all P = true) {p : Part} (mem : p ∈ parts) :
    P p.rule = true := by
  obtain ⟨rs, yields, rules⟩ := h.order
  have known : p.rule ∈ rs.filterMap Rule.shown := by
    rw [rules]
    exact List.mem_map_of_mem mem
  obtain ⟨rule, there, shown⟩ := List.mem_filterMap.1 known
  exact List.all_eq_true.1 check _ (List.mem_filterMap.2 ⟨rule, yields.mem_rules there, shown⟩)

theorem serves (check : ((body r).rules.filterMap Rule.shown).all (Rule.isOf k) = true) {p : Part}
    (mem : p ∈ parts) : p.Serves cs span k :=
  ⟨h.sturdy p mem, h.all _ check mem⟩

theorem nodes (k : Kind) (isNode : k.isNode = true)
    (check : ((body r).rules.filterMap Rule.shown).all (Rule.isOf k) = true) :
    Settles cs (fun ns => (∀ n ∈ ns, n.Fit span ∧ k.Holds n) ∧ InOrder ns) (nodesOf parts) :=
  settles_nodesOf h.lined isNode fun _ mem => h.serves check mem

/-- A first part and the others. -/
theorem head {a b : Peg Rule} (eq : body r = .seq a b) (P Q : Rule → Bool)
    (first : (a.forms Rule.shown).any (·.all fun | [x] => P x | _ => false) = true)
    (others : (b.rules.filterMap Rule.shown).all Q = true) :
    ∃ p rest, parts = p :: rest ∧ P p.rule = true ∧ ∀ q ∈ rest, Q q.rule = true := by
  obtain ⟨rs, yields, rules⟩ := h.order
  rw [eq] at yields
  obtain ⟨xs, ys, left, right, rfl⟩ := yields
  obtain ⟨known, forms, all⟩ := (Option.any_eq_true _ _).1 first
  have found := List.all_eq_true.1 all _ (left.mem_forms forms)
  split at found
  · next x shown =>
    rw [List.filterMap_append, shown, List.singleton_append] at rules
    obtain ⟨p, rest, rfl, rfl, tail⟩ := List.map_eq_cons_iff.1 rules.symm
    refine ⟨p, rest, rfl, found, fun q mem => ?_⟩
    have known : q.rule ∈ ys.filterMap Rule.shown := by
      rw [← tail]
      exact List.mem_map_of_mem mem
    obtain ⟨rule, there, shown⟩ := List.mem_filterMap.1 known
    exact List.all_eq_true.1 others _ (List.mem_filterMap.2 ⟨rule, right.mem_rules there, shown⟩)
  · cases found

/-- An operand, and more of them behind operators. -/
theorem chain {e o : Rule}
    (eq : body r = .seq (.call e) (.star (.seq (.call o) (.call e)))) (shown : e.shown = some e)
    (shown' : o.shown = some o) (form : e.isOf .expression = true) :
    ∃ p rest, parts = p :: rest ∧ p.rule.isOf .expression = true ∧ Alternates o rest := by
  obtain ⟨rs, yields, rules⟩ := h.order
  rw [eq] at yields
  obtain ⟨xs, ys, rfl, ⟨yss, all, rfl⟩, rfl⟩ := yields
  rw [List.filterMap_append, List.filterMap_cons_some shown] at rules
  obtain ⟨p, rest, rfl, rule, tail⟩ := List.map_eq_cons_iff.1 rules.symm
  refine ⟨p, rest, rfl, by rw [rule, form], ?_⟩
  clear rules h
  change rest.map Part.rule = yss.flatten.filterMap Rule.shown at tail
  induction yss generalizing rest with
  | nil =>
    cases List.map_eq_nil_iff.1 tail
    exact .nil
  | cons ys yss ih =>
    rw [List.forall_mem_cons] at all
    obtain ⟨⟨_, _, rfl, rfl, rfl⟩, all⟩ := all
    rw [List.flatten_cons, List.filterMap_append, List.singleton_append,
      List.filterMap_cons_some shown', List.filterMap_cons_some shown] at tail
    obtain ⟨q, rest, rfl, operator, tail⟩ := List.map_eq_cons_iff.1 tail
    obtain ⟨p', rest, rfl, operand, tail⟩ := List.map_eq_cons_iff.1 tail
    exact .cons operator (by rw [operand, form]) (ih all rest tail)

end Arranged

/-! ### Parts that may be missing -/

def dropRule (r : Rule) : List Rule → List Rule
  | [] => []
  | x :: rest => if x == r then rest else x :: rest

/-- What is taken from the parts, and what is left. -/
theorem takeRule_cases (r : Rule) (parts : List Part) :
    ∃ taken rest, takeRule r parts = (taken, rest) ∧ (∀ p ∈ taken, p ∈ parts ∧ p.rule = r) ∧
      (∀ p ∈ rest, p ∈ parts) ∧ rest.map Part.rule = dropRule r (parts.map Part.rule) := by
  refine ⟨_, _, rfl, fun p mem => ⟨mem_of_taken mem, (takeRule_spec r parts).2 p mem⟩,
    fun p mem => mem_of_left mem, ?_⟩
  cases parts with
  | nil => rfl
  | cons p rest =>
    simp only [dropRule, List.map_cons]
    split <;> rfl

def isBody (k : Kind) : List Rule → Bool
  | [x] => x.isOf k
  | _ => false

theorem body_of_rules (h : isBody k (parts.map Part.rule) = true) :
    ∃ p, parts = [p] ∧ p.rule.isOf k = true := by
  unfold isBody at h
  split at h
  · next x rules =>
    obtain ⟨p, rfl, rfl⟩ := one_of_map rules
    exact ⟨p, rfl, h⟩
  · cases h

/-- A rule, but all statements are alike. -/
def Rule.gist (r : Rule) : Rule := if statement.rules.contains r then .ifStatement else r

theorem isOf_gist (r : Rule) : r.gist.isOf .statement = r.isOf .statement := by
  cases r <;> rfl

theorem isBody_gist (rs : List Rule) :
    isBody .statement (rs.map Rule.gist) = isBody .statement rs := by
  match rs with
  | [] => rfl
  | [x] => exact isOf_gist x
  | _ :: _ :: _ => rfl

theorem dropRule_gist {r : Rule} (other : statement.rules.contains r = false) (rs : List Rule) :
    dropRule r (rs.map Rule.gist) = (dropRule r rs).map Rule.gist := by
  cases rs with
  | nil => rfl
  | cons x rest =>
    have same : (x.gist == r) = (x == r) := by
      unfold Rule.gist
      split
      · next known =>
        have differs : x ≠ r := by
          rintro rfl
          rw [other] at known
          cases known
        have differs' : Rule.ifStatement ≠ r := by
          rintro rfl
          cases other
        rw [beq_false_of_ne differs, beq_false_of_ne differs']
      · rfl
    simp only [List.map_cons, dropRule, same]
    split <;> rfl

theorem settles_taken {r : Rule} {taken : Option Part} (sturdy : ∀ p ∈ parts, p.Sturdy cs span)
    (known : ∀ p ∈ taken, p ∈ parts ∧ p.rule = r) (kind : r.isOf k = true)
    (isNode : k.isNode = true) :
    Settles cs (fun found => ∀ n ∈ found, n.Fit span ∧ k.Holds n) (taken.mapM Part.node) := by
  refine settles_optionM fun p mem => Part.Serves.node ⟨sturdy p (known p mem).1, ?_⟩ isNode
  rw [(known p mem).2, kind]

/-- Parameters, if there are any, and a body. -/
theorem settles_functionParts {whole : Part} (sturdy : ∀ p ∈ parts, p.Sturdy cs span)
    (tail : isBody .statement (dropRule .parameters (parts.map Part.rule)) = true) :
    Settles cs (fun found => ((∀ n ∈ found.1, n.Fit span ∧ Binds n) ∧ InOrder found.1) ∧
      found.2.Fit span ∧ found.2.Statement) (functionParts whole parts) := by
  obtain ⟨taken, rest, eq, known, left, rules⟩ := takeRule_cases .parameters parts
  have params : Settles cs (fun ns => (∀ n ∈ ns, n.Fit span ∧ Binds n) ∧ InOrder ns)
      (paramsOf taken) := by
    cases taken with
    | none => exact ⟨List.forall_mem_nil _, .nil⟩
    | some p =>
      have own := sturdy p (known p rfl).1
      have kind : p.kind = .patterns := by rw [Part.kind, (known p rfl).2]; rfl
      exact own.nodes kind (by decide)
  rw [← rules] at tail
  obtain ⟨body, rfl, le⟩ := body_of_rules tail
  unfold functionParts
  rw [eq]
  refine params.bind fun _ good => ?_
  exact (Part.Serves.node ⟨sturdy body (left body (by simp)), le⟩ rfl).bind fun _ good' => ⟨good, good'⟩

end Grammar

end EcmaMachine
