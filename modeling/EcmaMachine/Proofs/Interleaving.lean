import Mathlib.Data.List.Nodup
import EcmaMachine.Proofs.Names
import EcmaMachine.Proofs.Properties
import EcmaMachine.Proofs.Steps

/-!
Updates that wait for their value. An assignment evaluates its right side first, so a call there
may be held for as long as it takes; what was in the target is read only when the value is there,
and nothing comes between the reading and the storing. So of many updates of one target that are
held at once none is lost, whatever the order in which they go on.
-/

namespace EcmaMachine

variable {η : Type}

/-! ## Operators of assignments -/

namespace AssignOp

def apply (s : Store) (operator : AssignOp) (a b : Value) : Value :=
  match operator.applied? with
  | none => b
  | some op =>
    match s.binary op a b with
    | .ok (v, _) => v
    | .error _ => .undefined

variable {s s' : Store} {a b : Value}

theorem binary_applied {operator : AssignOp} {op : BinaryOp} (h : operator.applied? = some op) :
    s.binary op a b = .ok (operator.apply s a b, s) := by
  have total : ∃ v, s.binary op a b = .ok (v, s) := by
    cases operator <;> cases h <;> exact ⟨_, rfl⟩
  obtain ⟨v, found⟩ := total
  simp only [apply, h, found]

theorem apply_of_extends (closed : s.Closed) (h : s.Extends s') (livesA : a.LivesIn s)
    (livesB : b.LivesIn s) (operator : AssignOp) : operator.apply s' a b = operator.apply s a b := by
  have text : ∀ {v}, v.LivesIn s → s'.text v = s.text v := Store.text_of_extends closed h
  have number : ∀ {v}, v.LivesIn s → s'.toNumber v = s.toNumber v :=
    Store.toNumber_of_extends closed h
  cases operator <;>
    simp only [apply, applied?, Store.binary, Store.add, Store.word, Store.toInt32,
      Store.shiftCount, text livesA, text livesB, number livesA, number livesB]

theorem apply_livesIn (livesB : b.LivesIn s) (operator : AssignOp) :
    (operator.apply s a b).LivesIn s := by
  cases operator with
  | assign => exact livesB
  | add =>
    simp only [apply, applied?, Store.binary, Store.add]
    split <;> trivial
  | _ => trivial

end AssignOp

/-! ## Targets -/

/-- What an assignment may stand before: a name, or a property of the object under a name. -/
inductive Target
  | name (x : String)
  | member (object key : String)

/-- The value at the target, seen from the scope. -/
def Store.Holds (s : Store) (scope : ScopeId) : Target → Value → Prop
  | .name x, v => s.find? scope x = some v
  | .member object key, v =>
    ∃ id, s.find? scope object = some (.object id) ∧ id < s.objects.size ∧
      (s.get? id key).getD .undefined = v

theorem Store.Grows.holds {s s' : Store} (h : s.Grows s') {scope : ScopeId} {target : Target} {v : Value}
    (held : s.Holds scope target v) : s'.Holds scope target v := by
  cases target with
  | name x => exact (h.names scope x).trans held
  | member object key =>
    obtain ⟨id, found, known, value⟩ := held
    refine ⟨id, (h.names scope object).trans found, ?_, ?_⟩
    · rw [h.objects]
      exact known
    · rw [Store.get?_of_objects h.objects]
      exact value

/-! ## Assignments -/

inductive Node.Denotes : Node → Target → Prop
  | name {n : Node} {x : String} (shape : n.shape = .identifier x) : Denotes n (.name x)
  | member {n object property : Node} {x key : String}
    (shape : n.shape = .memberExpression object property false)
    (named : object.shape = .identifier x) (keyed : property.shape = .identifier key) :
    Denotes n (.member x key)

structure World.Assigned (ids : List Nat) (scope : ScopeId) (target : Target) (v : Value)
    (w w' : World η) : Prop extends w.Keeps ids w' where
  store : w.store.Extends w'.store
  holds : w'.store.Holds scope target v

namespace World

variable {ids : List Nat} {scope : ScopeId} {target : Target} {v : Value} {w w' w'' : World η}

theorem Assigned.follows (h : w.Assigned ids scope target v w') (h' : w'.Follows ids w'') :
    w.Assigned ids scope target v w'' where
  toKeeps := h.toKeeps.trans h'.toKeeps
  store := h.store.trans h'.store.toExtends
  holds := h'.store.holds h.holds

end World

theorem State.combined_eq {store : Store} {a v : Value} {operator : AssignOp}
    {old : Unit → Except Signal (Value × Store)} (read : old () = .ok (a, store)) :
    combined store operator old v = .ok (operator.apply store a v, store) := by
  cases applied : operator.applied? with
  | none => simp only [combined, AssignOp.apply, applied]
  | some op =>
    simp only [combined, applied, Bind.bind, Except.bind, read, AssignOp.binary_applied applied,
      Except.mapError]

section Assignments

variable {host : Host η} {Q : Ledger × World η → Prop} {l : Ledger} {n : Nat} {ids : List Nat}
  {k : List Frame} {agenda : Agenda} {w₀ w : World η} {site : Site} {left : Node}
  {operator : AssignOp} {a b v receiver : Value}

theorem settles_assign_name {x : String} (shape : left.shape = .identifier x)
    (found : w₀.store.find? site.scope x = some a)
    (value : ∀ store, w₀.store.Extends store → operator.apply store a v = b)
    (h : w₀.Follows ids w) (watched : site.config.observers ⊆ ids)
    (later : ∀ w', w₀.Assigned ids site.scope (.name x) b w' →
      l.Settles host Q n ⟨.ret b .undefined, k, agenda, w'⟩) :
    l.Settles host Q (n + 3) ⟨.ret v receiver, .assignment site operator left :: k, agenda, w⟩ := by
  refine .next rfl ?_
  simp only [State.resume, State.visitTarget]
  refine settles_enter h watched fun w₁ opened => ?_
  simp only [shape]
  refine settles_enter opened ?_ fun w₂ entered => ?_
  · exact watched
  have found₂ := (entered.store.names site.scope x).trans found
  obtain ⟨owner, resolved⟩ : ∃ owner, w₂.store.resolve? site.scope x = some owner := by
    rw [← Option.isSome_iff_exists, ← Store.isSome_find?_iff, found₂]
    rfl
  simp only [State.assignName, State.store, found₂]
  rw [State.combined_eq rfl, value _ entered.store.toExtends]
  simp only [State.assign, State.store, State.withStore, resolved]
  have assigned : w₀.Assigned ids site.scope (.name x) b
      { w₂ with store := w₂.store.declare owner x b } :=
    { entered.toKeeps.withStore _ with
      store := entered.store.toExtends.trans ⟨rfl, Nat.le_refl _, fun _ _ => rfl⟩
      holds := Store.find?_declare_self resolved b }
  exact settles_exit (.refl assigned.admits) fun w₃ left => settles_exit left fun w₄ left =>
    later w₄ (assigned.follows left)

/-- A plain name for a key is not evaluated, but it has its events. -/
theorem settles_key {property : Node} {key : String} {access : Access} {id : ObjectId}
    (keyed : property.shape = .identifier key) (h : w₀.Follows ids w)
    (watched : site.config.observers ⊆ ids)
    (later : ∀ w', w₀.Follows ids w' → l.Settles host Q n
      ⟨.ret (.string key) .undefined, .memberKey (.object id) access :: k, agenda, w'⟩) :
    l.Settles host Q (n + 4)
      ⟨.ret (.object id) receiver, .memberObject site property false access :: k, agenda, w⟩ := by
  have named : property.identifierName? = some key := by simp only [Node.identifierName?, keyed]
  refine .next rfl ?_
  simp only [State.resume, State.push, State.visitKey, Bool.false_eq_true, if_false, named]
  refine settles_enter h watched fun w₁ opened => ?_
  simp only [State.store, Store.getProperty]
  refine settles_enter opened ?_ fun w₂ entered => ?_
  · exact watched
  exact settles_exit entered fun w₃ left => .next rfl (settles_exit left later)

theorem settles_assign_member {object property : Node} {x key : String}
    (shape : left.shape = .memberExpression object property false)
    (named : object.shape = .identifier x) (keyed : property.shape = .identifier key)
    (held : w₀.store.Holds site.scope (.member x key) a)
    (value : ∀ store, w₀.store.Extends store → operator.apply store a v = b)
    (h : w₀.Follows ids w) (watched : site.config.observers ⊆ ids)
    (later : ∀ w', w₀.Assigned ids site.scope (.member x key) b w' →
      l.Settles host Q n ⟨.ret b .undefined, k, agenda, w'⟩) :
    l.Settles host Q (n + 11) ⟨.ret v receiver, .assignment site operator left :: k, agenda, w⟩ := by
  have located := held
  obtain ⟨id, found, -⟩ := located
  refine .next rfl ?_
  simp only [State.resume, State.visitTarget]
  refine settles_enter h watched fun w₁ opened => ?_
  simp only [shape, State.visitMember, State.visit]
  -- The object is read first, then the events of the key are shown.
  refine settles_enter opened.newCell watched fun w₂ entered => ?_
  refine settles_name named found entered watched fun w₃ read => ?_
  refine settles_exit read fun w₄ left => settles_key keyed left watched fun w₅ shown => ?_
  obtain ⟨_, found₅, known, current⟩ := shown.store.holds held
  cases found₅.symm.trans ((shown.store.names _ _).trans found)
  have assigned : w₀.Assigned ids site.scope (.member x key) b
      { w₅ with store := w₅.store.setOwn id key b } :=
    { shown.toKeeps.withStore _ with
      store := shown.store.toExtends.trans ⟨rfl, Nat.le_refl _, fun _ _ => rfl⟩
      holds := by
        have scopes : (w₅.store.setOwn id key b).scopes = w₅.store.scopes := rfl
        refine ⟨id, (Store.find?_of_scopes scopes _ _).trans found₅,
          by simpa [Store.setOwn, Store.modifyObject] using known, ?_⟩
        rw [Store.get?_setOwn known]
        rfl }
  -- The old value is read and the new one is stored in a single step.
  refine .next (by
    simp only [State.advance, State.resume, State.useMember, State.assignMember, State.store,
      Store.text]
    rw [State.combined_eq rfl, current, value _ shown.store.toExtends]) (.next rfl ?_)
  exact settles_exit (.refl assigned.admits) fun w₆ left => later w₆ (assigned.follows left)

/-- Once the value is there, the target is read and written before anything else can happen. -/
theorem settles_assignment {target : Target} (denotes : left.Denotes target)
    (held : w₀.store.Holds site.scope target a)
    (value : ∀ store, w₀.store.Extends store → operator.apply store a v = b)
    (h : w₀.Follows ids w) (watched : site.config.observers ⊆ ids)
    (later : ∀ m w', n ≤ m → w₀.Assigned ids site.scope target b w' →
      l.Settles host Q m ⟨.ret b .undefined, k, agenda, w'⟩) :
    l.Settles host Q (n + 11) ⟨.ret v receiver, .assignment site operator left :: k, agenda, w⟩ := by
  cases denotes with
  | name shape =>
    exact settles_assign_name (n := n + 8) shape held value h watched fun w' =>
      later (n + 8) w' (Nat.le_add_right n 8)
  | member shape named keyed =>
    exact settles_assign_member shape named keyed held value h watched fun w' =>
      later n w' (Nat.le_refl n)

end Assignments

/-! ## Updates that wait -/

/-- The program is one assignment, with the call of a function on the right. -/
def Node.Updates (n : Node) (target : Target) (operator : AssignOp) (function : String) : Prop :=
  ∃ statement expression left call callee, n.shape = .program [statement] ∧
    statement.shape = .expressionStatement expression ∧
    expression.shape = .assignmentExpression operator left call ∧ left.Denotes target ∧
    call.shape = .callExpression callee [] ∧ callee.shape = .identifier function

def Frame.Updating (ids : List Nat) (scope : ScopeId) (target : Target) (operator : AssignOp)
    (k stack : List Frame) : Prop :=
  ∃ (site inner call : Site) (statement left : Node) (c₁ c₂ c₃ : Cell),
    stack = .guard c₁ :: .exit call none :: .exit inner (some .right) ::
      .assignment inner operator left :: .guard c₂ :: .exit inner none ::
      (site.around statement c₃ ++ k) ∧
    inner.scope = scope ∧ inner.config.observers ⊆ ids ∧ left.Denotes target

section Updates

variable {host : Host η} {Q : Ledger × World η → Prop} {l : Ledger} {n : Nat} {ids : List Nat}
  {k stack : List Frame} {agenda : Agenda} {w₀ w : World η} {site : Site}
  {target : Target} {operator : AssignOp} {a b v receiver : Value}

/-- The function is called before the target is looked at. -/
theorem settles_update {function : String} {f : FunctionId} (h : w₀.Follows ids w)
    (updates : site.node.Updates target operator function)
    (found : w₀.store.find? site.scope function = some (.function f))
    (watched : site.config.observers ⊆ ids)
    (later : ∀ stack w', Frame.Updating ids site.scope target operator k stack →
      w₀.Follows ids w' →
      l.Settles host Q n ⟨.apply f .undefined [] site.config, stack, agenda, w'⟩) :
    l.Settles host Q (n + 11) ⟨.eval site, k, agenda, w⟩ := by
  obtain ⟨statement, expression, left, call, callee, shape, inside, assignment, denotes, calls,
    named⟩ := updates
  refine settles_program shape inside h watched fun c₃ w₁ begun => ?_
  refine settles_eval begun watched fun w₂ opened => ?_
  simp only [State.start, Site.part, Spot.part, assignment, State.visit]
  refine settles_enter opened.newCell ?_ fun w₃ entered => ?_
  · exact watched
  let inner := (site.part (.item 0) statement).part (.slot .expression) expression
  have names : (inner.part (.slot .right) call).CallsNames w₀.store f [] :=
    ⟨callee, [], function, calls, named, found, .nil⟩
  refine settles_call (n := n) names entered watched fun c₁ w₄ called => ?_
  exact later _ w₄ ⟨site, _, _, statement, left, c₁, _, c₃, rfl, rfl, watched, denotes⟩ called

/-- When the value comes, the target gets it and the program ends. -/
theorem settles_updating {scope : ScopeId}
    (updating : Frame.Updating ids scope target operator k stack)
    (held : w.store.Holds scope target a)
    (value : ∀ store, w.store.Extends store → operator.apply store a v = b) (admits : w.Admits ids)
    (later : ∀ m w', n ≤ m → w.Assigned ids scope target b w' →
      l.Settles host Q m ⟨.ret b .undefined, k, agenda, w'⟩) :
    l.Settles host Q (n + 23) ⟨.ret v receiver, stack, agenda, w⟩ := by
  obtain ⟨site, inner, call, statement, left, c₁, c₂, c₃, rfl, rfl, watched, denotes⟩ := updating
  refine .next rfl (settles_exit (.refl admits) fun w₁ left => settles_exit left fun w₂ left => ?_)
  refine settles_assignment (n := n + 9) denotes held value left watched ?_
  intro m w₃ rest assigned
  obtain ⟨m, rfl⟩ : ∃ m', m = m' + 9 := ⟨m - 9, by omega⟩
  refine .next rfl (settles_exit (.refl assigned.admits) fun w₄ ended => ?_)
  exact settles_around ended fun w₅ last => later m w₅ (by omega) (assigned.follows last)

end Updates

/-! ## Many updates of one target -/

/-- Calls of the word are held and get no answer for now. -/
def Host.Parks (host : Host η) (word : String) : Prop :=
  ∀ this args ticket store state,
    (host.call word this args ticket store state).reply = .hold [] ∧
    (host.call word this args ticket store state).store = store

/-- The name stands for a host function with this word. -/
def Store.NamesHost (s : Store) (scope : ScopeId) (name word : String) : Prop :=
  ∃ f title properties, s.find? scope name = some (.function f) ∧
    s.function? f = some ⟨.host title word, properties⟩

theorem Store.Grows.namesHost {s s' : Store} (h : s.Grows s') {scope : ScopeId}
    {name word : String} (named : s.NamesHost scope name word) : s'.NamesHost scope name word := by
  obtain ⟨f, title, properties, found, function⟩ := named
  refine ⟨f, title, properties, (h.names scope name).trans found, ?_⟩
  simpa only [function?, h.functions] using function

/-- An update to evaluate, and who waits for its outcome. -/
structure Update where
  operator : AssignOp
  node : Node
  kept : Option TreeId
  config : Config
  tag : Nat

namespace Update

/-- What the target holds once the updates have got their values, one after the other. -/
def final (s : Store) (a : Value) (steps : List (Update × Value)) : Value :=
  steps.foldl (fun a step => step.1.operator.apply s a step.2) a

/-- What the updates come to: each gives what the target holds after its own step. -/
def outcomes (s : Store) : Value → List (Update × Value) → List (Recipient × Outcome)
  | _, [] => []
  | a, (update, v) :: rest =>
    let b := update.operator.apply s a v
    (.caller update.tag, .value b) :: outcomes s b rest

end Update

namespace Realm

/-- The call that the update has come to is held, and nobody has answered it. -/
def Waits (r : Realm η) (ids : List Nat) (scope : ScopeId) (target : Target) (update : Update)
    (ticket : Nat) (cell : Cell) : Prop :=
  r.world.isSpent cell = false ∧ ∃ stack id,
    r.world.held[ticket]? = some ⟨stack, true, true⟩ ∧
    Frame.Updating ids scope target update.operator [.program cell, .deliver id] stack ∧
    r.ledger.recipients[id]? = some (.caller update.tag)

structure Starts (ids : List Nat) (scope : ScopeId) (target : Target) (update : Update)
    (r r' : Realm η) : Prop where
  waits : r'.Waits ids scope target update r.world.held.size r.world.spent.size
  others : ∀ {other ticket cell}, r.Waits ids scope target other ticket cell →
    r'.Waits ids scope target other ticket cell
  held : r'.world.held.size = r.world.held.size + 1
  cells : r.world.spent.size < r'.world.spent.size
  deliveries : r'.ledger.deliveries = r.ledger.deliveries
  store : r.world.store.Grows r'.world.store
  admits : r'.world.Admits ids

structure Completes (ids : List Nat) (scope : ScopeId) (target : Target) (update : Update)
    (ticket : Nat) (cell : Cell) (b : Value) (r r' : Realm η) : Prop where
  others : ∀ {other ticket' cell'}, ticket' ≠ ticket → cell' ≠ cell →
    r.Waits ids scope target other ticket' cell' → r'.Waits ids scope target other ticket' cell'
  deliveries : ∃ store,
    r'.ledger.deliveries = r.ledger.deliveries.push ⟨.caller update.tag, .value b, store⟩
  store : r.world.store.Extends r'.world.store
  holds : r'.world.store.Holds scope target b
  admits : r'.world.Admits ids

section Steps

variable {host : Host η} {fuel : Nat} {ids : List Nat} {scope : ScopeId} {target : Target}
  {function word : String} {update : Update} {r : Realm η}

theorem evalNode_starts (parks : host.Parks word)
    (named : r.world.store.NamesHost scope function word)
    (updates : update.node.Updates target update.operator function) (admits : r.world.Admits ids)
    (watched : update.config.observers ⊆ ids) (enough : 12 ≤ fuel) :
    r.Starts ids scope target update
      (r.evalNode host fuel update.node update.kept scope update.config (.caller update.tag)) := by
  obtain ⟨f, title, properties, found, isHost⟩ := named
  obtain ⟨rest, rfl⟩ := Nat.exists_eq_add_of_le' enough
  let cell := r.world.spent.size
  let id := r.ledger.recipients.size
  change Ledger.Settles host (fun x => r.Starts ids scope target update ⟨x.2, x.1⟩) _ (rest + 12)
    ⟨.eval ⟨.root _ update.node, scope, update.config⟩, [.program cell, .deliver id], [],
      r.world.newCell.2⟩
  have celled : r.world.newCell.2.Follows ids r.world.newCell.2 := .refl admits
  refine settles_update celled updates found watched fun stack w₁ updating follows => ?_
  have isHost₁ : w₁.store.function? f = some ⟨.host title word, properties⟩ := by
    rw [Store.function?, follows.store.functions]
    exact isHost
  obtain ⟨parked, sameStore⟩ := parks .undefined [] w₁.held.size w₁.store w₁.host
  -- The call is held, so the machine comes to rest with the frames put aside.
  let step := host.call word .undefined [] w₁.held.size w₁.store w₁.host
  let w₂ : World η := { w₁ with
    store := step.store, host := step.host, log := w₁.log ++ step.log,
    held := w₁.held.push ⟨stack, true, true⟩ }
  have held : (⟨.apply f .undefined [] update.config, stack, [], w₁⟩ : State η).advance host =
      .next ⟨.idle, [], [], w₂⟩ := by
    simp only [State.advance, State.applyFunction, State.store, isHost₁, State.applyHost]
    rw [parked]
    rfl
  refine .next held ?_
  rw [Ledger.Settles, Ledger.settle_of_rest rfl]
  exact {
    waits := by
      refine ⟨follows.fresh, stack, id, ?_, updating, by simp [id]⟩
      simp [w₂, follows.held, World.newCell]
    others := by
      rintro other ticket c ⟨unspent, stack', id', held, updating', recipient⟩
      refine ⟨((World.Spares.newCell r.world).trans follows.toSpares).unspent unspent, stack', id',
        ?_, updating', ?_⟩
      · have lt := (Array.getElem?_eq_some_iff.1 held).1
        simp [w₂, follows.held, World.newCell, Array.getElem?_push, Nat.ne_of_lt lt, held]
      · have lt := (Array.getElem?_eq_some_iff.1 recipient).1
        simp [Array.getElem?_push, Nat.ne_of_lt lt, recipient]
    held := by simp [w₂, follows.held, World.newCell]
    cells := Nat.lt_of_lt_of_le (by simp [World.newCell]) follows.more
    deliveries := rfl
    store := by
      have grows := follows.store
      rwa [← sameStore] at grows
    admits := follows.admits }

theorem answer?_completes {ticket : Nat} {cell : Cell} {a b v : Value}
    (waits : r.Waits ids scope target update ticket cell)
    (holds : r.world.store.Holds scope target a)
    (value : ∀ store, r.world.store.Extends store → update.operator.apply store a v = b)
    (admits : r.world.Admits ids) (enough : 26 ≤ fuel) :
    ∃ r', r.answer? host fuel ticket (.value v) = some r' ∧
      r.Completes ids scope target update ticket cell b r' := by
  obtain ⟨unspent, stack, id, held, updating, recipient⟩ := waits
  obtain ⟨rest, rfl⟩ := Nat.exists_eq_add_of_le' enough
  have accepts : (⟨.idle, [], [], r.world⟩ : State η).accepts ticket (.value v) = true := by
    simp [State.accepts, held]
  refine ⟨_, if_pos accepts, ?_⟩
  change r.ledger.Settles host (fun x => r.Completes ids scope target update ticket cell b ⟨x.2, x.1⟩)
    (rest + 26) ⟨.idle, [], [(ticket, .value v)], r.world⟩
  let w₁ : World η := { r.world with
    held := r.world.held.modify ticket fun h => { h with valueOpen := false } }
  have answered : (⟨.idle, [], [(ticket, .value v)], r.world⟩ : State η).advance host =
      .next ⟨.ret v .undefined, stack, [], w₁⟩ := by
    simp only [State.advance, State.answer, accepts, if_true, held]
    rfl
  have admits₁ : w₁.Admits ids := admits
  refine .next answered ?_
  refine settles_updating (n := rest + 2) updating holds value admits₁ fun m w₂ enough assigned => ?_
  obtain ⟨m, rfl⟩ : ∃ m', m = m' + 2 := ⟨m - 2, by omega⟩
  refine settles_deliver recipient (assigned.unspent unspent) ?_
  exact {
    others := by
      rintro other ticket' cell' apart apart' ⟨unspent', stack', id', held', updating', recipient'⟩
      refine ⟨?_, stack', id', ?_, updating', recipient'⟩
      · exact (World.isSpent_spend_of_ne w₂ apart').trans (assigned.unspent unspent')
      · change (w₂.spend cell).held[ticket']? = _
        have same : (w₂.spend cell).held = w₁.held := assigned.held
        simp only [same, w₁, Array.getElem?_modify, if_neg apart.symm, held']
    deliveries := ⟨_, rfl⟩
    store := assigned.store
    holds := assigned.holds
    admits := assigned.admits }

end Steps

/-- Starts the updates, each after the one before has come to rest. -/
def startAll (host : Host η) (fuel : Nat) (scope : ScopeId) (r : Realm η) (updates : List Update) :
    Realm η :=
  updates.foldl (fun r update => r.evalNode host fuel update.node update.kept scope update.config
    (.caller update.tag)) r

/-- Answers held calls, in the order of the list; `none` if one of them cannot be answered. -/
def answerAll? (host : Host η) (fuel : Nat) (r : Realm η) (answers : List (Nat × Value)) :
    Option (Realm η) :=
  answers.foldlM (fun r answer => r.answer? host fuel answer.1 (.value answer.2)) r

section Runs

variable {host : Host η} {fuel : Nat} {ids : List Nat} {scope : ScopeId} {target : Target}
  {function word : String}

structure StartsAll (ids : List Nat) (scope : ScopeId) (target : Target) (updates : List Update)
    (cells : List Cell) (r r' : Realm η) : Prop where
  waits : ∀ i update cell, updates[i]? = some update → cells[i]? = some cell →
    r'.Waits ids scope target update (r.world.held.size + i) cell
  others : ∀ {other ticket cell}, r.Waits ids scope target other ticket cell →
    r'.Waits ids scope target other ticket cell
  length : cells.length = updates.length
  nodup : cells.Nodup
  fresh : ∀ cell ∈ cells, r.world.spent.size ≤ cell
  held : r'.world.held.size = r.world.held.size + updates.length
  deliveries : r'.ledger.deliveries = r.ledger.deliveries
  store : r.world.store.Grows r'.world.store
  admits : r'.world.Admits ids

theorem startAll_startsAll (parks : host.Parks word) (updates : List Update) (r : Realm η)
    (named : r.world.store.NamesHost scope function word)
    (shapes : ∀ update ∈ updates, update.node.Updates target update.operator function)
    (admits : r.world.Admits ids) (watched : ∀ update ∈ updates, update.config.observers ⊆ ids)
    (enough : 12 ≤ fuel) :
    ∃ cells, r.StartsAll ids scope target updates cells (r.startAll host fuel scope updates) := by
  induction updates generalizing r with
  | nil =>
    exact ⟨[], {
      waits := fun i update cell found => by simp at found
      others := id
      length := rfl
      nodup := .nil
      fresh := by simp
      held := rfl
      deliveries := rfl
      store := .refl _
      admits := admits }⟩
  | cons update rest ih =>
    have first : r.Starts ids scope target update
        (r.evalNode host fuel update.node update.kept scope update.config (.caller update.tag)) :=
      evalNode_starts parks named (shapes update List.mem_cons_self) admits
        (watched update List.mem_cons_self) enough
    generalize started : r.evalNode host fuel update.node update.kept scope update.config
      (.caller update.tag) = r₁ at first
    obtain ⟨cells, all⟩ := ih r₁ (first.store.namesHost named)
      (fun update mem => shapes update (List.mem_cons_of_mem _ mem)) first.admits
      (fun update mem => watched update (List.mem_cons_of_mem _ mem))
    have result : r.startAll host fuel scope (update :: rest) =
        r₁.startAll host fuel scope rest := by
      simp only [startAll, List.foldl_cons, started]
    have cells₁ := first.cells
    have apart : ∀ cell ∈ cells, r.world.spent.size < cell := fun cell mem =>
      Nat.lt_of_lt_of_le cells₁ (all.fresh cell mem)
    rw [result]
    refine ⟨r.world.spent.size :: cells, {
      waits := ?_
      others := fun waits => all.others (first.others waits)
      length := by simp [all.length]
      nodup := List.nodup_cons.2 ⟨fun mem => Nat.lt_irrefl _ (apart _ mem), all.nodup⟩
      fresh := ?_
      held := by rw [all.held, first.held, List.length_cons]; omega
      deliveries := all.deliveries.trans first.deliveries
      store := first.store.trans all.store
      admits := all.admits }⟩
    · rintro (_ | i) other cell found found'
      · cases found
        cases found'
        exact all.others first.waits
      · have waits := all.waits i other cell found found'
        rwa [first.held, Nat.add_assoc, Nat.add_comm 1 i] at waits
    · rintro cell (_ | ⟨_, mem⟩)
      · exact Nat.le_refl _
      · exact Nat.le_of_lt (apart cell mem)

def outcomes (r : Realm η) : List (Recipient × Outcome) :=
  r.ledger.deliveries.toList.map fun d => (d.recipient, d.outcome)

theorem answerAll?_outcomes {s : Store} (closed : s.Closed) {updates : List Update}
    {cells : List Cell} (length : cells.length = updates.length) (nodup : cells.Nodup) (first : Nat)
    (answers : List (Fin updates.length × Value)) {r : Realm η} {a : Value}
    (waits : ∀ p ∈ answers, ∀ cell, cells[p.1.val]? = some cell →
      r.Waits ids scope target (updates.get p.1) (first + p.1) cell)
    (distinct : (answers.map (·.1)).Nodup) (store : s.Extends r.world.store)
    (holds : r.world.store.Holds scope target a) (livesA : a.LivesIn s)
    (lives : ∀ p ∈ answers, p.2.LivesIn s) (admits : r.world.Admits ids) (enough : 26 ≤ fuel) :
    ∃ r', r.answerAll? host fuel (answers.map fun p => (first + p.1, p.2)) = some r' ∧
      r'.world.store.Holds scope target
        (Update.final s a (answers.map fun p => (updates.get p.1, p.2))) ∧
      r'.outcomes = r.outcomes ++
        Update.outcomes s a (answers.map fun p => (updates.get p.1, p.2)) := by
  induction answers generalizing r a with
  | nil => exact ⟨r, rfl, holds, by simp [Update.outcomes]⟩
  | cons answer rest ih =>
    obtain ⟨i, v⟩ := answer
    obtain ⟨apart, distinct⟩ := List.nodup_cons.1 distinct
    have known : i.val < cells.length := Nat.lt_of_lt_of_eq i.isLt length.symm
    let update := updates.get i
    let b := update.operator.apply s a v
    have livesV : v.LivesIn s := lives (i, v) List.mem_cons_self
    obtain ⟨r₁, answered, completes⟩ : ∃ r₁, r.answer? host fuel (first + i) (.value v) = some r₁ ∧
        r.Completes ids scope target update (first + i) (cells.get ⟨i, known⟩) b r₁ :=
      answer?_completes (waits (i, v) List.mem_cons_self _ (List.getElem?_eq_getElem known)) holds
        (fun t more => AssignOp.apply_of_extends closed (store.trans more) livesA livesV _) admits
        enough
    have later : ∀ p ∈ rest, ∀ cell, cells[p.1.val]? = some cell →
        r₁.Waits ids scope target (updates.get p.1) (first + p.1) cell := by
      intro p mem cell found
      have ne : p.1.val ≠ i.val := fun eq =>
        apart (List.mem_map.2 ⟨p, mem, Fin.ext eq⟩)
      refine completes.others (by omega) ?_ (waits p (List.mem_cons_of_mem _ mem) cell found)
      rintro rfl
      obtain ⟨known', eq⟩ := List.getElem?_eq_some_iff.1 found
      exact ne ((List.Nodup.getElem_inj_iff nodup).1 eq)
    obtain ⟨r', answers, final, outcomes⟩ := ih later distinct (store.trans completes.store)
      completes.holds (AssignOp.apply_livesIn livesV _)
      (fun p mem => lives p (List.mem_cons_of_mem _ mem)) completes.admits
    obtain ⟨_, deliveries⟩ := completes.deliveries
    refine ⟨r', ?_, final, ?_⟩
    · simp only [answerAll?, List.map_cons, List.foldlM_cons, answered]
      exact answers
    · rw [outcomes, Realm.outcomes, deliveries]
      simp [Realm.outcomes, Update.outcomes, b, update]

end Runs

end Realm

/-- Of many updates of one target that are held at once, none is lost: whatever the order in which
they get their values, the target goes through all of them, and each gives what the target holds
after its own step. -/
theorem interleaved_updates_all_count {host : Host η} {fuel : Nat} (r : Realm η) {scope : ScopeId}
    {target : Target} {a : Value} {function word : String} (updates : List Update)
    (answers : List (Fin updates.length × Value)) (parks : host.Parks word)
    (named : r.world.store.NamesHost scope function word)
    (holds : r.world.store.Holds scope target a)
    (shapes : ∀ update ∈ updates, update.node.Updates target update.operator function)
    (admits : ∀ update ∈ updates, r.world.Admits update.config.observers)
    (distinct : (answers.map (·.1)).Nodup) (closed : r.world.store.Closed)
    (lives : a.LivesIn r.world.store) (values : ∀ p ∈ answers, p.2.LivesIn r.world.store)
    (enough : 26 ≤ fuel) :
    let started := r.startAll host fuel scope updates
    let steps := answers.map fun p => (updates.get p.1, p.2)
    started.outcomes = r.outcomes ∧
      started.world.held.size = r.world.held.size + updates.length ∧
      started.world.store.Holds scope target a ∧
      ∃ r', started.answerAll? host fuel (answers.map fun p => (r.world.held.size + p.1, p.2)) =
          some r' ∧
        r'.world.store.Holds scope target (Update.final r.world.store a steps) ∧
        r'.outcomes = r.outcomes ++ Update.outcomes r.world.store a steps := by
  intro started steps
  let ids := updates.flatMap fun update => update.config.observers
  have admits' : r.world.Admits ids := by
    intro id mem o found
    obtain ⟨update, mem, watches⟩ := List.mem_flatMap.1 mem
    exact admits update mem id watches o found
  have watched : ∀ update ∈ updates, update.config.observers ⊆ ids := fun update mem id watches =>
    List.mem_flatMap.2 ⟨update, mem, watches⟩
  obtain ⟨cells, all⟩ : ∃ cells, r.StartsAll ids scope target updates cells started :=
    Realm.startAll_startsAll parks updates r named shapes admits' watched (by omega)
  have waits : ∀ p ∈ answers, ∀ cell, cells[p.1.val]? = some cell →
      started.Waits ids scope target (updates.get p.1) (r.world.held.size + p.1) cell :=
    fun p _ cell found => all.waits p.1 _ cell (List.getElem?_eq_getElem p.1.isLt) found
  have same : started.outcomes = r.outcomes := by simp only [Realm.outcomes, all.deliveries]
  have held := all.store.holds holds
  obtain ⟨r', answered, final, outcomes⟩ := Realm.answerAll?_outcomes closed all.length all.nodup
    r.world.held.size answers waits distinct all.store.toExtends held lives values all.admits enough
  exact ⟨same, all.held, held, r', answered, final, same ▸ outcomes⟩

namespace Sample

def parking : Host Unit := ⟨fun _ _ _ _ store kept => ⟨.hold [], store, [], kept⟩⟩

/-- `park` is held whenever it is called, and `x` is a text. -/
def parkingLot : Realm Unit :=
  let (park, store) := Store.empty.newFunction (.host "park" "park")
  let (_, store) := store.rootScope [("park", .function park), ("x", .string "-")]
  { Realm.empty () with world := { World.start () with store } }

/-- `x = park()`, or another assignment of the kind -/
def parkingUpdate (operator : AssignOp) (tag : Nat) : Update :=
  let name : Node := .mk (.identifier "x") none
  let expression := .mk (.assignmentExpression operator name (call "park")) none
  ⟨operator, .mk (.program [.mk (.expressionStatement expression) none]) none, none, .plain, tag⟩

def parkingUpdates : List Update :=
  [parkingUpdate .add 0, parkingUpdate .assign 1, parkingUpdate .add 2]

/-- The second update gets its value first, the first one last. -/
theorem parkingUpdates_all_count :
    ∃ r, (parkingLot.startAll parking 26 0 parkingUpdates).answerAll? parking 26
        [(1, .string "b"), (2, .string "c"), (0, .string "a")] = some r ∧
      r.world.store.Holds 0 (.name "x") (.string "bca") ∧
      r.outcomes = [(.caller 1, .value (.string "b")), (.caller 2, .value (.string "bc")),
        (.caller 0, .value (.string "bca"))] := by
  have shapes : ∀ update ∈ parkingUpdates,
      update.node.Updates (.name "x") update.operator "park" := by
    intro update mem
    simp only [parkingUpdates, List.mem_cons, List.not_mem_nil, or_false] at mem
    rcases mem with rfl | rfl | rfl <;>
      exact ⟨_, _, _, _, _, rfl, rfl, rfl, .name rfl, rfl, rfl⟩
  have admits : ∀ update ∈ parkingUpdates, parkingLot.world.Admits update.config.observers := by
    intro update mem
    simp only [parkingUpdates, List.mem_cons, List.not_mem_nil, or_false] at mem
    rcases mem with rfl | rfl | rfl <;> exact fun _ none => absurd none List.not_mem_nil
  have named : parkingLot.world.store.NamesHost 0 "park" "park" := ⟨0, _, _, rfl, rfl⟩
  have closed : parkingLot.world.store.Closed :=
    ⟨fun id lt => absurd lt (Nat.not_lt_zero id), fun id lt => absurd lt (Nat.not_lt_zero id)⟩
  have parks : parking.Parks "park" := fun _ _ _ _ _ => ⟨rfl, rfl⟩
  have holds : parkingLot.world.store.Holds 0 (.name "x") (.string "-") := rfl
  let answers : List (Fin parkingUpdates.length × Value) :=
    [(⟨1, by decide⟩, .string "b"), (⟨2, by decide⟩, .string "c"), (⟨0, by decide⟩, .string "a")]
  obtain ⟨-, -, -, r, answered, final, outcomes⟩ := interleaved_updates_all_count parkingLot
    parkingUpdates answers parks named holds shapes admits (by decide) closed trivial
    (by simp [answers, Value.LivesIn]) (Nat.le_refl 26)
  exact ⟨r, answered, final, outcomes⟩

end Sample

end EcmaMachine
