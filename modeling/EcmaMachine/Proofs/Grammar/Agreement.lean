import EcmaMachine.Proofs.Grammar.Expressions

/-!
The grammar and the tree builder agree. Whatever the grammar matches has the parts that the
builder asks for, in the order in which it asks for them, so that only a text can be at fault:
by a `try` with nothing behind it, by an assignment to what cannot be assigned to, or by a number
that does not fit.

The nodes of a tree that is built stand where they are written, each within the one around it.
-/

namespace EcmaMachine

/-- The tree of a text that the grammar matches is what is built from the match. -/
theorem parse_of_match {text : String} {pair : Grammar.Pair Grammar.Rule}
    (matched : Grammar.script.parse? .program text.toList = some pair)
    (answer : Except SyntaxError Node)
    (built : Grammar.build pair = answer.map Grammar.Built.node) : parse text = answer := by
  unfold parse
  simp only [matched, built]
  cases answer <;> rfl

/-- Of every text that the grammar matches a program is built, or the text is at fault: by a
missing handler, an invalid target or an invalid number, and the error points at a place of the
text where that stands. -/
theorem build_agrees_with_grammar {text : String} {pair : Grammar.Pair Grammar.Rule}
    (matched : Grammar.script.parse? .program text.toList = some pair) :
    (∃ statements loc, parse text = .ok (.mk (.program statements) loc)) ∨
      ∃ fault before there, parse text = .error ⟨fault, (Position.mk 1 0).after before⟩ ∧
        text.toList = before ++ there ∧ there ≠ [] ∧ fault.Concerns there := by
  obtain ⟨valid, rule⟩ := Grammar.Rules.valid_of_parse matched
  have placed := Grammar.Rules.placed_of_parse Grammar.forward_script matched
  have settled := Grammar.settles_build valid placed
  cases built : Grammar.build pair with
  | error e =>
    rw [built] at settled
    obtain ⟨before, there, eq, pos, concerns⟩ := settled
    refine .inr ⟨e.fault, before, there, ?_, eq, concerns.there_ne_nil, concerns⟩
    rw [← pos]
    exact parse_of_match matched (.error e) built
  | ok b =>
    obtain ⟨r, start, stop, inner⟩ := pair
    cases rule
    have made := built
    rw [Grammar.build] at made
    obtain ⟨ns, -, made⟩ := Grammar.exists_of_bind made
    cases made
    exact .inl ⟨ns, _, parse_of_match matched (.ok _) built⟩

/-- All three occur. -/
example :
    ["try \x7b\x7d", "1 = x", "0x10000000000000000"].map (fun text =>
      match parse text with
      | .ok _ => none
      | .error e => some e.fault) =
      [some .missingHandler, some (.invalidTarget .literal),
        some (.invalidNumber "0x10000000000000000")] := by
  decide +kernel

/-- A target that is a number is found inside a `try` that lacks a handler too. -/
theorem invalid_target_inside_try :
    let text := "x;\ntry \x7b\n  1 = y\n\x7d"
    (Grammar.script.parse? .program text.toList).isSome ∧
      ((∃ statements loc, parse text = .ok (.mk (.program statements) loc)) ∨
        ∃ fault before there, parse text = .error ⟨fault, (Position.mk 1 0).after before⟩ ∧
          text.toList = before ++ there ∧ there ≠ [] ∧ fault.Concerns there) := by
  intro text
  have matched : (Grammar.script.parse? .program text.toList).isSome := by decide
  obtain ⟨pair, found⟩ := Option.isSome_iff_exists.1 matched
  exact ⟨matched, build_agrees_with_grammar found⟩

/-- The places in a tree nest: every node but a strand of a template in which no text stands has a
place that does not end before it starts, its children lie within it, and the nodes of each of its
lists come one behind the other and do not overlap. -/
theorem places_nest {text : String} {tree : Node} (parsed : parse text = .ok tree) :
    ∀ n, Node.Within tree n → n.IsEmptyStrand ∨ ∃ span, n.loc = some span ∧ span.start ≤ span.stop ∧
      (∀ m ∈ n.children, ∀ s ∈ m.loc, span.start ≤ s.start ∧ s.stop ≤ span.stop) ∧
        ∀ ns ∈ n.shape.lists, ns.Pairwise fun m m' =>
          ∀ s ∈ m.loc, ∀ t ∈ m'.loc, s.stop ≤ t.start := by
  obtain ⟨_, fit, -⟩ := fit_of_parse parsed
  exact fit.nested

/-- A template with a strand and an expression in parentheses, and a call. -/
theorem template_places_nest :
    ∃ tree, parse "`a$\x7b-(b)\x7d` + f(c, d)" = .ok tree ∧
      ∀ n, Node.Within tree n → n.IsEmptyStrand ∨ ∃ span, n.loc = some span ∧
        span.start ≤ span.stop ∧
          (∀ m ∈ n.children, ∀ s ∈ m.loc, span.start ≤ s.start ∧ s.stop ≤ span.stop) ∧
            ∀ ns ∈ n.shape.lists, ns.Pairwise fun m m' =>
              ∀ s ∈ m.loc, ∀ t ∈ m'.loc, s.stop ≤ t.start := by
  have known : (parse "`a$\x7b-(b)\x7d` + f(c, d)").toOption.isSome = true := by decide +kernel
  cases parsed : parse "`a$\x7b-(b)\x7d` + f(c, d)" with
  | ok tree => exact ⟨tree, rfl, places_nest parsed⟩
  | error e =>
    rw [parsed] at known
    cases known

end EcmaMachine
