import EcmaMachine.Proofs.Threads

/-!
What a try statement does. Its block is evaluated first; a failure that can be caught goes to the
handler, if there is one; the finalizer comes last, whatever has happened before. The statement ends
as the finalizer fails, or else as it would have ended without the finalizer.

* `try_statement_law`: the statement ends if and only if its parts do, one after the other, and from
  wherever it is, it goes on to such an end or stalls within a part.
* `Scene.Tries.run`, `Route.Passes.tries`: the two directions of the law.
-/

namespace EcmaMachine

variable {η : Type}

/-! ## The parts of the statement -/

/-- What was thrown, failures of the host, names that are not bound, and wrong types can be
caught. -/
def Signal.isCatchable : Signal → Bool
  | thrown _ | host _ | unbound _ | type _ => true
  | _ => false

theorem Signal.isSome_caught? (s : Store) (signal : Signal) :
    (signal.caught? s).isSome = signal.isCatchable := by
  cases signal with
  | host error =>
    obtain ⟨_, value⟩ := error
    cases value <;> rfl
  | _ => rfl

/-- A finalizer that fails ends the statement so; otherwise the outcome before it stands. -/
def Outcome.finalized (before : Outcome) : Outcome → Outcome
  | .failure e => .failure e
  | .value _ => before

/-- A try statement: its site and its parts. -/
structure Attempt where
  site : Site
  block : Node
  handler : Option Node
  finalizer : Option Node

namespace Attempt

/-- The frames that wait while the block, the handler and the finalizer run. -/
def trying (a : Attempt) (cell : Cell) (k : List Frame) : List Frame :=
  .tryBlock a.site cell a.handler a.finalizer :: .exit a.site none :: k

def handling (a : Attempt) (cell : Cell) (k : List Frame) : List Frame :=
  .tryHandler a.site cell a.finalizer :: .exit a.site none :: k

def finishing (a : Attempt) (before : Outcome) (cell : Cell) (k : List Frame) : List Frame :=
  .finalizer before :: .guard cell :: .exit a.site none :: k

/-- The scope that holds what was caught is that of the handler. -/
def catching (a : Attempt) (scope : ScopeId) : Site := { a.site with scope }

/-- The site is one of the parts. -/
inductive Has (a : Attempt) : Site → Prop
  | block : a.Has (a.site.part (.slot .block) a.block)
  | handler {node : Node} (scope : ScopeId) (present : a.handler = some node) :
    a.Has ((a.catching scope).part (.slot .handler) node)
  | finalizer {node : Node} (present : a.finalizer = some node) :
    a.Has (a.site.part (.slot .finalizer) node)

end Attempt

namespace Scene

/-- What the handler makes of the outcome of the block. It runs in a scope that holds what was
caught. -/
inductive Handles (S : Setup η) (a : Attempt) (cell : Cell) (k : List Frame) (c : Scene η) :
    Outcome → Outcome → Scene η → Prop
  | caught {handler : Node} {e : Exception} {v : Value} {store : Store} {o : Outcome} {c' : Scene η}
    (present : a.handler = some handler) (catchable : e.signal.isCatchable = true)
    (value : e.caught? c.store = some (v, store))
    (visits : (c.withStore (store.catchScope a.site.scope v).2).Traverses S (a.handling cell k)
      (a.catching (store.catchScope a.site.scope v).1) .handler handler o c') :
    Handles S a cell k c (.failure e) o c'
  | passed {o : Outcome}
    (uncaught : ∀ e, o = .failure e → a.handler.isSome = true → e.signal.isCatchable = false) :
    Handles S a cell k c o o c

/-- How the statement ends after block and handler. -/
inductive Finishes (S : Setup η) (a : Attempt) (k : List Frame) (c : Scene η) :
    Outcome → Outcome → Scene η → Prop
  | bare {o : Outcome} (absent : a.finalizer = none) : Finishes S a k c o o c
  | finalizer {node : Node} {before o : Outcome} {c' : Scene η} (present : a.finalizer = some node)
    (visits : c.newCell.Traverses S (a.finishing before c.cell k) a.site .finalizer node o c') :
    Finishes S a k c before (before.finalized o) (c'.guarded c.cell (before.finalized o))

/-- A try statement: its parts, one after the other. -/
inductive Tries (S : Setup η) (a : Attempt) (k : List Frame) (c : Scene η) : Outcome → Scene η → Prop
  | intro {o₁ o₂ o : Outcome} {c₁ c₂ c' : Scene η}
    (visits : (c.tell a.site none .enter).newCell.Traverses S (a.trying c.cell k) a.site .block a.block
      o₁ c₁)
    (handles : c₁.Handles S a c.cell k o₁ o₂ c₂)
    (finishes : (c₂.spend c.cell).Finishes S a k o₂ o c') :
    Tries S a k c o (c'.tell a.site none (.exit o))

/-! ## Steps between the parts -/

/-- Where the finalizer comes next, if there is one. -/
def finalize (c : Scene η) (a : Attempt) (k : List Frame) (o : Outcome) : Point η :=
  match a.finalizer with
  | none => c.hand (.exit a.site none :: k) o
  | some node =>
    (c.ledger, (c.newCell.state .idle (a.finishing o c.cell k)).visit a.site .finalizer node)

section Steps

variable (host : Host η) {a : Attempt} {cell : Cell} {k : List Frame} {c : Scene η} {o : Outcome}

theorem finishTry_state (unspent : c.world.isSpent cell = false) (control : Control) :
    (c.ledger, (c.state control (.exit a.site none :: k)).finishTry a.site cell a.finalizer o) =
      (c.spend cell).finalize a k o := by
  simp only [State.finishTry, finalize, state, unspent]
  cases a.finalizer with
  | none => cases o <;> rfl
  | some node => exact congrArg _ ((c.spend cell).newCell.visit_state control ..)

theorem step_handling (unspent : c.world.isSpent cell = false) :
    c.ledger.step host (c.hand (a.handling cell k) o).2 = some ((c.spend cell).finalize a k o) := by
  cases o with
  | value v => exact congrArg some (finishTry_state unspent (.ret v .undefined))
  | failure e => exact congrArg some (finishTry_state unspent (.fail e))

theorem step_trying_caught {handler : Node} {e : Exception} {v : Value} {store : Store}
    (present : a.handler = some handler) (value : e.caught? c.store = some (v, store)) :
    c.ledger.step host (c.hand (a.trying cell k) (.failure e)).2 =
      some (c.ledger, ((c.withStore (store.catchScope a.site.scope v).2).state (.fail e)
        (a.handling cell k)).visit (a.catching (store.catchScope a.site.scope v).1) .handler
          handler) := by
  change some (c.ledger, (c.state (.fail e) (.exit a.site none :: k)).handle a.site cell a.handler
    a.finalizer e) = _
  have value' : e.caught? (c.state (.fail e) (.exit a.site none :: k)).store = some (v, store) := value
  simp only [State.handle, present, value']
  rfl

theorem step_trying_passed (unspent : c.world.isSpent cell = false)
    (uncaught : ∀ e, o = .failure e → a.handler.isSome = true → e.signal.isCatchable = false) :
    c.ledger.step host (c.hand (a.trying cell k) o).2 = some ((c.spend cell).finalize a k o) := by
  cases o with
  | value v => exact congrArg some (finishTry_state unspent (.ret v .undefined))
  | failure e =>
    rw [← finishTry_state unspent (.fail e)]
    change some (c.ledger, (c.state (.fail e) (.exit a.site none :: k)).handle a.site cell a.handler
      a.finalizer e) = _
    cases present : a.handler with
    | none => rfl
    | some node =>
      have none : e.caught? (c.state (.fail e) (.exit a.site none :: k)).store = none := by
        rw [← Option.isNone_iff_eq_none, ← Option.isSome_eq_false_iff]
        exact (e.signal.isSome_caught? _).trans (uncaught e rfl (by rw [present]; rfl))
      simp only [State.handle, none]

theorem step_finishing (a : Attempt) (before o : Outcome) (cell : Cell) (k : List Frame) :
    c.ledger.step host (c.hand (a.finishing before cell k) o).2 =
      some (c.hand (.guard cell :: .exit a.site none :: k) (before.finalized o)) := by
  cases o with
  | value v => cases before <;> rfl
  | failure e => rfl

theorem step_tryStatement (shape : a.site.node.shape = .tryStatement a.block a.handler a.finalizer)
    (admitted : (c.world.tell a.site none .enter).1 = none) :
    c.ledger.step host (c.state (.eval a.site) k) =
      some (c.ledger, ((c.tell a.site none .enter).newCell.state (.eval a.site)
        (a.trying c.cell k)).visit a.site .block a.block) := by
  rw [step_eval, state, State.enter_of_none _ admitted]
  simp only [State.start, shape, State.pushCell, World.newCell, State.push, World.tell_spent,
    Attempt.trying, cell, newCell, tell, state]

end Steps

/-! ## The statement runs as the law says -/

section

variable {S : Setup η} {a : Attempt} {cell : Cell} {k : List Frame} {c c' c₁ : Scene η}
  {o o' o₁ : Outcome}

/-- The cell of the statement is unspent as long as its block runs. -/
theorem Traverses.unspent_cell
    (h : (c.tell a.site none .enter).newCell.Traverses S (a.trying c.cell k) a.site .block a.block o c') :
    c'.world.isSpent c.cell = false := by
  have told : (c.tell a.site none .enter).world.spent.size = c.cell := by
    simp only [tell, World.tell_spent, Scene.cell]
  have unspent := h.saves.fresh (f := .tryBlock a.site c.cell a.handler a.finalizer)
    List.mem_cons_self (told ▸ rfl)
  rwa [told] at unspent

theorem Handles.unspent (h : c.Handles S a cell k o o' c') (unspent : c.world.isSpent cell = false) :
    c'.world.isSpent cell = false := by
  cases h with
  | caught _ _ _ visits => exact visits.saves cell (Frame.mem_cells List.mem_cons_self rfl) unspent
  | passed => exact unspent

theorem Handles.placed (h : c.Handles S a cell k o o' c') (placed : o.IsPlaced) : o'.IsPlaced := by
  cases h with
  | caught _ _ _ visits => exact visits.placed
  | passed => exact placed

theorem Finishes.placed (h : c.Finishes S a k o o' c') (placed : o.IsPlaced) : o'.IsPlaced := by
  cases h with
  | bare => exact placed
  | @finalizer _ _ o _ _ visits =>
    cases o with
    | value => exact placed
    | failure => exact visits.placed

theorem Handles.run (h : c.Handles S a cell k o o' c') (unspent : c.world.isSpent cell = false) :
    Thread S k (c.hand (a.trying cell k) o) ((c'.spend cell).finalize a k o') := by
  have above : k <:+ .exit a.site none :: k := List.suffix_cons ..
  have unspent' := h.unspent unspent
  cases h with
  | caught present _ value visits =>
    refine .handed above (step_trying_caught S.host present value) ?_
    exact (visits.run (List.suffix_append [_, _] k) _).trans
      (.handed above (step_handling S.host unspent') (.here _))
  | passed uncaught =>
    exact .handed above (step_trying_passed S.host unspent uncaught) (.here _)

theorem Finishes.run (h : c.Finishes S a k o o' c') :
    Thread S k (c.finalize a k o) (c'.hand (.exit a.site none :: k) o') := by
  have above : k <:+ .exit a.site none :: k := List.suffix_cons ..
  cases h with
  | bare absent =>
    rw [finalize, absent]
    exact .here _
  | @finalizer node _ o c' present visits =>
    rw [finalize, present]
    have guard := visits.saves.fresh (List.mem_cons_of_mem _ List.mem_cons_self) rfl
    exact (visits.run (List.suffix_append [_, _, _] k) .idle).trans
      (.handed (above.trans (List.suffix_cons ..)) (step_finishing S.host ..)
        (.handed above (step_guard S.host guard ..) (.here _)))

section

variable (shape : a.site.node.shape = .tryStatement a.block a.handler a.finalizer)
  (admitted : (c.world.tell a.site none .enter).1 = none)
include shape admitted

theorem Tries.run (h : c.Tries S a k o c') : c.Completes S k a.site o c' := by
  let r : Route S k (c.put (.eval a.site) k) := ⟨_, .here _, Control.noConfusion⟩
  have begins := r.passes_start.enter (step_tryStatement S.host shape admitted)
  obtain @⟨o₁, o₂, o, c₁, c₂, c', visits, handles, finishes⟩ := h
  have placed := finishes.placed (handles.placed visits.placed)
  have ended := (visits.run (List.suffix_append [_, _] k) (.eval a.site)).trans
    ((handles.run visits.unspent_cell).trans finishes.run)
  have last := c'.step_exit S.host a.site k o
  rw [placed a.site.node] at last
  exact (begins.thread.trans ended).trans (.handed (List.suffix_refl k) last (.here _))

end

end

end Scene

/-! ## The statement goes on to such an end -/

namespace Route

variable {S : Setup η} {a : Attempt} {cell : Cell} {k : List Frame} {c : Scene η} {o : Outcome}
  {start : Point η} {r : Route S k start}

theorem Passes.handle (h : r.Passes (c.hand (a.trying cell k) o))
    (unspent : c.world.isSpent cell = false) :
    (∃ o' c', c.Handles S a cell k o o' c' ∧ r.Passes ((c'.spend cell).finalize a k o')) ∨
      r.Stalls k a.Has := by
  have above : k <:+ .exit a.site none :: k := List.suffix_cons ..
  by_cases caught : ∃ node e, a.handler = some node ∧ o = .failure e ∧ e.signal.isCatchable = true
  · obtain ⟨node, e, present, rfl, catchable⟩ := caught
    have some := (e.signal.isSome_caught? c.store).trans catchable
    obtain ⟨⟨v, store⟩, value⟩ := Option.isSome_iff_exists.1 some
    have first := h.handed above (Scene.step_trying_caught S.host present value)
    rcases visit (c := c.withStore (store.catchScope a.site.scope v).2) first
      (List.suffix_append [_, _] k) with ⟨o', c', visits, there⟩ | stalls
    · have handles := Scene.Handles.caught present catchable value visits
      exact .inl ⟨o', c', handles,
        there.handed above (Scene.step_handling S.host (handles.unspent unspent))⟩
    · refine .inr (stalls.below [_, _] ?_)
      rintro _ rfl
      exact .handler _ present
  · have uncaught : ∀ e, o = .failure e → a.handler.isSome = true → e.signal.isCatchable = false := by
      intro e failed present
      obtain ⟨node, present⟩ := Option.isSome_iff_exists.1 present
      exact Bool.eq_false_iff.2 fun catchable => caught ⟨node, e, present, failed, catchable⟩
    exact .inl ⟨o, c, .passed uncaught,
      h.handed above (Scene.step_trying_passed S.host unspent uncaught)⟩

theorem Passes.finish (h : r.Passes (c.finalize a k o)) :
    (∃ o' c', c.Finishes S a k o o' c' ∧ r.Passes (c'.hand (.exit a.site none :: k) o')) ∨
      r.Stalls k a.Has := by
  have above : k <:+ .exit a.site none :: k := List.suffix_cons ..
  cases present : a.finalizer with
  | none =>
    rw [Scene.finalize, present] at h
    exact .inl ⟨o, c, .bare present, h⟩
  | some node =>
    rw [Scene.finalize, present] at h
    rcases visit (c := c.newCell) h (List.suffix_append [_, _, _] k) with ⟨o', c', visits, there⟩ | stalls
    · have guard := visits.saves.fresh (List.mem_cons_of_mem _ List.mem_cons_self) rfl
      have next := there.handed (above.trans (List.suffix_cons ..)) (Scene.step_finishing S.host ..)
      exact .inl ⟨_, _, .finalizer present visits, next.handed above (Scene.step_guard S.host guard ..)⟩
    · refine .inr (stalls.below [_, _, _] ?_)
      rintro _ rfl
      exact .finalizer present

/-- From wherever the statement is, it goes on to an end as the law says, or stalls within a part. -/
theorem tries (r : Route S k (c.put (.eval a.site) k))
    (shape : a.site.node.shape = .tryStatement a.block a.handler a.finalizer)
    (admitted : (c.world.tell a.site none .enter).1 = none) :
    (∃ o c', c.Tries S a k o c' ∧ Thread S k r.goal (c'.hand k o)) ∨
      ¬ r.goal.2.Hands k ∧ r.Stalls k a.Has := by
  have stuck : r.Stalls k a.Has → ¬ r.goal.2.Hands k ∧ r.Stalls k a.Has :=
    fun stalls => ⟨stalls.not_hands (List.suffix_refl k), stalls⟩
  have begins := r.passes_start.enter (Scene.step_tryStatement S.host shape admitted)
  rcases Passes.visit (c := (c.tell a.site none .enter).newCell) begins
    (List.suffix_append [_, _] k) with ⟨o₁, c₁, visits, there⟩ | stalls
  · rcases there.handle visits.unspent_cell with ⟨o₂, c₂, handles, there⟩ | stalls
    · rcases there.finish with ⟨o, c', finishes, there⟩ | stalls
      · have last := c'.step_exit S.host a.site k o
        rw [finishes.placed (handles.placed visits.placed) a.site.node] at last
        exact .inl ⟨_, _, .intro visits handles finishes,
          (there.handed (List.suffix_refl k) last).since (Scene.hands_hand ..)⟩
      · exact .inr (stuck stalls)
    · exact .inr (stuck stalls)
  · refine .inr (stuck (stalls.below [_, _] ?_))
    rintro _ rfl
    exact .block

end Route

/-! ## The handler -/

/-- What was caught is bound to the pattern in a new scope below the given one, and the body comes
next in that scope. -/
def State.BindsCaught (s : State η) (scope : ScopeId) (param body : Node) (v : Value) : Prop :=
  ∃ site : Site, s.control = .bind (site.part .target param) v ∧
    s.stack.head? = some (.catchBody site body) ∧
    s.store.scope site.scope = { (default : Scope) with values := .ofEntries [], parent := some scope }

/-- A catch clause begins with the pattern, which gets what the scope around it holds. -/
theorem Scene.step_catchClause (host : Host η) {site : Site} {param body : Node}
    (shape : site.node.shape = .catchClause (some param) body) {c : Scene η} {v : Value}
    (caught : c.store.caught? site.scope = some v)
    (admitted : (c.world.tell site none .enter).1 = none) (k : List Frame) :
    ∃ s, c.ledger.step host (c.state (.eval site) k) = some (c.ledger, s) ∧
      s.BindsCaught site.scope param body v := by
  let made := c.store.childScope site.scope []
  have fresh : made.2.scope made.1 =
      { (default : Scope) with values := .ofEntries [], parent := some site.scope } := by
    simp [made, Store.childScope, Store.newScope, Store.scope]
  let inner : Site := { site with scope := made.1 }
  let entered := c.tell site none .enter
  have store : (c.world.tell site none .enter).2.store = c.store := World.tell_store ..
  refine ⟨(entered.newCell.withStore made.2).state (.bind (inner.part .target param) v)
    (.catchBody inner body :: .guard entered.cell :: .exit site none :: k), ?_, inner, rfl, rfl, fresh⟩
  rw [step_eval, state, State.enter_of_none _ admitted]
  simp only [State.start, shape, State.store, State.push, store, caught, Option.getD_some]
  rfl

theorem Store.caught?_catchScope (s : Store) (parent : ScopeId) (v : Value) :
    (s.catchScope parent v).2.caught? (s.catchScope parent v).1 = some v := by
  simp [caught?, chain, chain.walk, catchScope, newScope, scope]

/-- The law of the try statement, in which calls may be answered later while others run. Where it is
let in, the statement ends with an outcome if and only if its parts do, one after the other and each
once: the block; the handler, if there is one and the block has failed with something that can be
caught; and the finalizer, if there is one, whatever came before. It ends as the finalizer fails, and
otherwise exactly as handler or block did, above whatever frames. With host functions that answer at
once, so does the machine. From wherever the statement is, it goes on to such an end, unless one of
its parts has none. A handler with a pattern begins by binding what was caught to it. -/
theorem try_statement_law (S : Setup η) (c : Scene η) (a : Attempt) (k : List Frame)
    (shape : a.site.node.shape = .tryStatement a.block a.handler a.finalizer)
    (admitted : (c.world.tell a.site none .enter).1 = none) :
    (∀ o c', c.Completes S k a.site o c' ↔ c.Tries S a k o c') ∧
    (S.host.Prompt True → S = .still S.host → c.agenda = [] →
      ∀ o c', c.Ends S.host k a.site o c' ↔ c.Tries S a k o c') ∧
    (∀ r : Route S k (c.put (.eval a.site) k),
      (∃ o c', c.Tries S a k o c' ∧ Thread S k r.goal (c'.hand k o)) ∨
      ¬ r.goal.2.Hands k ∧ r.Stalls k a.Has) ∧
    ∀ (handler param body : Node), a.handler = some handler →
      handler.shape = .catchClause (some param) body →
      ∀ (store : Store) (v : Value) (c₁ : Scene η),
        let scope := (store.catchScope a.site.scope v).1
        let inner := (a.catching scope).part (.slot .handler) handler
        c₁.store = (store.catchScope a.site.scope v).2 → (c₁.world.tell inner none .enter).1 = none →
        ∀ k, ∃ s, c₁.ledger.step S.host (c₁.state (.eval inner) k) = some (c₁.ledger, s) ∧
          s.BindsCaught scope param body v := by
  have law : ∀ o c', c.Completes S k a.site o c' ↔ c.Tries S a k o c' := by
    refine fun o c' => ⟨fun completes => ?_, fun tries => tries.run shape admitted⟩
    have hands := c'.hands_hand k o
    rcases Route.tries ⟨_, completes, hands.active⟩ shape admitted with ⟨o₁, c₁, tries, later⟩ | ⟨busy, -⟩
    · obtain ⟨rfl, rfl⟩ := Scene.hand_inj (later.of_hands hands)
      exact tries
    · exact absurd hands busy
  refine ⟨law, fun prompt still quiet o c' => ?_, fun r => r.tries shape admitted, ?_⟩
  · rw [← law, still]
    exact (Scene.completes_iff_ends prompt quiet).symm
  · intro handler param body _ clause store v c₁ scope inner holds entered k
    have caught : c₁.store.caught? inner.scope = some v := by
      rw [holds]
      exact store.caught?_catchScope a.site.scope v
    exact Scene.step_catchClause S.host clause caught entered k

namespace Sample

/-- The block throws, the handler gives what it has caught, and the finalizer calls the host. -/
theorem rescue_follows_law :
    let c : Scene Unit := ⟨.empty, [], world []⟩
    ∃ a : Attempt, a.site = rescue .plain ∧
      a.site.node.shape = .tryStatement a.block a.handler a.finalizer ∧
      (c.world.tell a.site none .enter).1 = none ∧ ∃ o c', c.Tries (.still host) a [] o c' := by
  intro c
  have prompt : host.Prompt True := fun _ _ _ _ _ _ => trivial
  have halts : ∃ i l' s', Ledger.empty.after host i ⟨.eval (rescue .plain), [], [], world []⟩ =
      some (l', s') ∧ s'.Hands [] := exists_hands (i := 70) (by rfl)
  have start : Thread.Stands [] [] [] (c.state (.eval (rescue .plain)) []) :=
    c.stands_eval (rescue .plain) ⟨.nil, List.forall_mem_nil _⟩
  obtain ⟨r, hands⟩ :
      ∃ r : Route (.still host) [] (c.put (.eval (rescue .plain)) []), r.goal.2.Hands [] :=
    Thread.exists_route start rfl (fun _ => rfl) prompt halts
  obtain ⟨block, handler, finalizer, shape⟩ : ∃ block handler finalizer,
      (rescue .plain).node.shape = .tryStatement block handler finalizer := ⟨_, _, _, rfl⟩
  let a : Attempt := ⟨rescue .plain, block, handler, finalizer⟩
  rcases (try_statement_law (.still host) c a [] shape rfl).2.2.1 r with
    ⟨o, c', tries, -⟩ | ⟨busy, -⟩
  · exact ⟨a, rfl, shape, rfl, o, c', tries⟩
  · exact absurd hands busy

end Sample

end EcmaMachine
