import EcmaMachine.Proofs.Binding.Turns

/-!
Parameters. A call binds them from left to right in a scope of its own, each to its argument;
arguments that are missing are undefined, and further ones are not looked at. The main statement
says for patterns and for calls what is bound, in which order, and when it fails.
-/

namespace EcmaMachine

variable {η : Type}

/-- The scope that a call makes, with the store that has it. -/
def Closure.callScope (closure : Closure) (this : Value) (s : Store) : ScopeId × Store :=
  s.childScope closure.scope (if closure.isArrow then [] else [("this", this)])

def Closure.site (closure : Closure) (scope : ScopeId) (config : Config) : Site :=
  ⟨closure.spot, scope, config⟩

section

variable (host : Host η) {c : Scene η} {f : FunctionId} {closure : Closure} {properties : Dict Value}
  (found : c.store.function? f = some ⟨.closure closure, properties⟩)
include found

/-- A call binds the parameters before all else. -/
theorem Scene.step_apply (this : Value) (args : List Value) (config : Config) (k : List Frame) :
    let site := closure.site (closure.callScope this c.store).1 config
    c.ledger.step host (c.state (.apply f this args config) k) =
      some ((c.newCell.withStore (closure.callScope this c.store).2).unpack
        (.apply f this args config) (.guard c.cell :: k)
        (.parts (site.items closure.params) (.call site closure args))) := by
  have found' : c.world.store.function? f = some ⟨.closure closure, properties⟩ := found
  simp only [Ledger.step, Scene.state, State.advance, State.applyFunction, State.store, found']
  rfl

/-- Closures are not the host's. -/
theorem Scene.not_holds_apply (this : Value) (args : List Value) (config : Config) (k : List Frame)
    (answers : List Outcome) : ¬ (c.state (.apply f this args config) k).Holds host answers := by
  rintro ⟨_, _, _, ⟨f', _, _, _, control, found'⟩, -⟩
  cases control
  cases found.symm.trans found'

end

/-- What binding does, for patterns of names, defaults that are expressions, and object patterns
whose keys are known; defaults may make calls that are answered later, and others may then run. A
binding runs as the law says: it takes the turns of the pattern from left to right, leaving out the
defaults whose value is there; it fails with the first default that does, or where an object pattern
meets undefined or null, and otherwise its scope has got the names of the pattern and no others but
those that others may declare. From wherever it is, it goes on to such an end, or one of its
defaults has none. In the same way a call binds its parameters, in a scope of its own, before its
body is run; where that fails, so does the call. -/
theorem bindings_follow_patterns (S : Setup η) (may : ScopeId → String → Prop)
    (plainHost : S.host.DeclaresNothing)
    (meanwhile : ∀ p q, S.others p q → p.2.store.Declared may q.2.store) (c : Scene η) (k : List Frame) :
    (∀ (target : Site) (v : Value), target.node.Plain .bind →
      (∀ acts o c', c.Unpacks S k (.pattern target v) acts o c' →
        Thread S k (c.put (.bind target v) k) (c'.hand k o) ∧
        c.store.Unpacked may target.scope target.turns acts o.failure? c'.store) ∧
      ∀ r : Route S k (c.put (.bind target v) k),
        (∃ acts o c', c.Unpacks S k (.pattern target v) acts o c' ∧
          Thread S k r.goal (c'.hand k o)) ∨
        ¬ r.goal.2.Hands k ∧ r.Stalls k (.default · ∈ target.turns)) ∧
    ∀ (f : FunctionId) (this : Value) (args : List Value) (config : Config) (closure : Closure)
      (properties : Dict Value), c.store.function? f = some ⟨.closure closure, properties⟩ →
      (∀ p ∈ closure.params, p.Plain .bind) →
      let start := c.put (.apply f this args config) k
      let made := closure.callScope this c.store
      let site := closure.site made.1 config
      let params := site.items closure.params
      let guard := Frame.guard c.cell
      let binding := Binding.parts params (.call site closure args)
      let begun := c.newCell.withStore made.2
      (∀ acts o c', begun.Unpacks S (guard :: k) binding acts o c' →
        (∀ v, o = .value v →
          Thread S k start (c'.ledger, (c'.state .idle (guard :: k)).runBody site closure)) ∧
        (∀ e, o = .failure e → Thread S k start ((c'.guarded c.cell o).hand k o)) ∧
        made.1 < made.2.scopes.size ∧
        made.2.Unpacked may made.1 (params.flatMap Site.turns) acts o.failure? c'.store) ∧
      ∀ r : Route S k start,
        (∃ acts o c', begun.Unpacks S (guard :: k) binding acts o c' ∧
          r.Passes (c'.conclude (guard :: k) binding o)) ∨
        ¬ r.goal.2.Hands k ∧ r.Stalls k (.default · ∈ params.flatMap Site.turns) := by
  refine ⟨fun target v plain => ⟨fun acts o c' unpacks => ⟨?_, ?_⟩, fun r => ?_⟩, ?_⟩
  · exact unpacks.run (List.suffix_refl k) .idle
  · exact unpacks.unpacked plainHost meanwhile ⟨rfl, plain⟩
  · have begins : r.Passes (c.unpack .idle k (.pattern target v)) := r.passes_start
    rcases begins.unpack (List.suffix_refl k) with ⟨acts, o, c', unpacks, passes⟩ | stalls
    · exact .inl ⟨acts, o, c', unpacks, passes.since (c'.hands_hand k o)⟩
    · exact .inr ⟨stalls.not_hands (List.suffix_refl k), stalls⟩
  · intro f this args config closure properties found plain start made site params guard binding begun
    have first := c.step_apply S.host found this args config k
    have busy : ¬ start.2.Hands k := by
      rintro ⟨-, outcome⟩
      cases outcome
    have known : made.1 < made.2.scopes.size := by
      simp [made, Closure.callScope, Store.childScope, Store.newScope]
    refine ⟨fun acts o c' unpacks => ?_, fun r => ?_⟩
    · have run := unpacks.run (List.suffix_cons guard k) (.apply f this args config)
      refine ⟨?_, ?_, known, ?_⟩
      · rintro v rfl
        exact .step busy Control.noConfusion first run
      · rintro e rfl
        have saves : c.newCell.world.Saves (guard :: k) c'.world :=
          .trans (.of_spares (.store ..) _) unpacks.saves
        have unspent := saves.fresh List.mem_cons_self rfl
        have run : Thread S k _ (c'.hand (guard :: k) (.failure e)) := run
        exact .step busy Control.noConfusion first (run.trans
          (.handed (List.suffix_refl k) (Scene.step_guard S.host unspent ..) (.here _)))
      · exact unpacks.unpacked plainHost meanwhile fun p mem =>
          ⟨Site.scope_of_mem_items mem, Lexicon.part_of_mem_items plain mem⟩
    · have begins : r.Passes start := r.passes_start
      have begins := begins.step busy Control.noConfusion
        (c.not_holds_apply S.host found this args config k) first
      rcases begins.unpack (List.suffix_cons guard k) with ended | stalls
      · exact .inl ended
      · have stalls := stalls.below [guard] fun _ => id
        exact .inr ⟨stalls.not_hands (List.suffix_refl k), stalls⟩

namespace Sample

private def name (x : String) : Node := .mk (.identifier x) none

private def field (key : String) (target : Node) : Node :=
  .mk (.property (name key) target .init false false false) none

/-- `({ a, b: { c = f() } = {} }, d) => d` -/
def opener : Closure :=
  let c := .mk (.assignmentPattern (name "c") (call "f")) none
  let inner := .mk (.objectPattern [field "c" c]) none
  let b := .mk (.assignmentPattern inner (.mk (.objectExpression []) none)) none
  let params := [.mk (.objectPattern [field "a" (name "a"), field "b" b]) none, name "d"]
  { spot := .root (.single 0) (.mk (.arrowFunctionExpression params (name "d") true false) none)
    params
    body := name "d"
    scope := 0
    name := none
    isArrow := true }

def openerWorld : World Unit :=
  let (_, store) := (world []).store.newFunction (.closure opener)
  let (_, store) := store.newObject (.ofEntries [("a", .null)]) none
  { world [] with store }

theorem opener_plain : ∀ p ∈ opener.params, p.Plain .bind := by
  have looks : ∀ p ∈ opener.params, Node.looksPlain 10 .bind p = true := by decide
  exact fun p mem => Node.plain_of_looksPlain (looks p mem)

theorem opener_names :
    namesOf (((opener.site 1 .plain).items opener.params).flatMap Site.turns) =
      ["a", "c", "d"] := by
  simp only [opener, Closure.site, Site.items, Site.part, Spot.part, List.mapIdx_cons,
    List.mapIdx_nil, List.flatMap_cons, List.flatMap_nil, Site.turns, propertyTurns,
    Node.boundProperty, Node.shape, Node.staticKey?, field, name]
  rfl

/-- Others declare nothing while a call is held. -/
def settled : Setup Unit := ⟨host, fun p q => p.2.store.Declared (fun _ _ => False) q.2.store⟩

/-- There is no `b` in the argument, nor is there a second argument. -/
theorem opener_binds :
    settled.host.DeclaresNothing ∧ (∀ p ∈ opener.params, p.Plain .bind) ∧
    let c : Scene Unit := ⟨.empty, [], openerWorld⟩
    let made := opener.callScope .undefined openerWorld.store
    let site := opener.site 1 .plain
    let params := site.items opener.params
    namesOf (params.flatMap Site.turns) = ["a", "c", "d"] ∧
    ∃ acts o c', (c.newCell.withStore made.2).Unpacks settled [.guard 0]
        (.parts params (.call site opener [.object 0])) acts o c' ∧
      made.2.Unpacked (fun _ _ => False) 1 (params.flatMap Site.turns) acts o.failure? c'.store := by
  have plainHost : settled.host.DeclaresNothing := fun _ _ _ _ store _ => store.declared_refl _
  have laws := (bindings_follow_patterns settled _ plainHost (fun _ _ => id)
    ⟨.empty, [], openerWorld⟩ []).2 1 .undefined [.object 0] .plain opener .empty rfl opener_plain
  have start : Thread.Stands [] [] []
      (⟨.apply 1 .undefined [.object 0] .plain, [], [], openerWorld⟩ : State Unit) :=
    ⟨rfl, rfl, trivial, trivial, ⟨.nil, List.forall_mem_nil _⟩⟩
  have prompt : settled.host.Prompt True := fun _ _ _ _ _ _ => trivial
  have still : ∀ p, settled.others p (p.1, { p.2 with agenda := [] }) :=
    fun p => p.2.store.declared_refl _
  obtain ⟨r, hands⟩ := Thread.exists_route (l := .empty) start rfl still prompt
    (exists_hands (i := 38) (by rfl))
  rcases laws.2 r with ⟨acts, o, c', unpacks, -⟩ | stalls
  · exact ⟨plainHost, opener_plain, opener_names, acts, o, c', unpacks, (laws.1 _ _ _ unpacks).2.2.2⟩
  · exact absurd hands stalls.1

end Sample

end EcmaMachine
