import EcmaMachine.Proofs.ParseCache
import EcmaMachine.Proofs.Steps
import EcmaMachine.Proofs.Wire.Relay
import EcmaMachine.Realm.Remote

/-!
The side that a request comes from. It has given away two functions that answer the request, and
the reply calls one of them by the name that it had in the request, with the value that came along.
-/

namespace EcmaMachine

variable {η : Type} {name : String}

theorem getElem?_push_of_some {α : Type} {xs : Array α} {i : Nat} {x : α} (h : xs[i]? = some x)
    (y : α) : (xs.push y)[i]? = some x := by
  obtain ⟨lt, -⟩ := Array.getElem?_eq_some_iff.1 h
  rw [Array.getElem?_push, if_neg (Nat.ne_of_lt lt), h]

/-! ## Texts that call a function -/

/-- The names of function and argument, if the tree is nothing but a call by names. -/
def Node.call? (n : Node) : Option (String × String) :=
  match n.shape with
  | .program [statement] =>
    match statement.shape with
    | .expressionStatement expression =>
      match expression.shape with
      | .callExpression callee [argument] =>
        callee.identifierName?.bind fun f => argument.identifierName?.map fun x => (f, x)
      | _ => none
    | _ => none
  | _ => none

theorem Node.shape_of_identifierName? {n : Node} (h : n.identifierName? = some name) :
    n.shape = .identifier name := by
  simp only [identifierName?] at h
  split at h
  · next shape =>
    cases h
    exact shape
  · cases h

theorem Node.shapes_of_call? {n : Node} {f x : String} (h : n.call? = some (f, x)) :
    ∃ statement expression callee argument, n.shape = .program [statement] ∧
      statement.shape = .expressionStatement expression ∧
      expression.shape = .callExpression callee [argument] ∧ callee.shape = .identifier f ∧
      argument.shape = .identifier x := by
  simp only [call?] at h
  split at h
  · next statement program =>
    split at h
    · next expression stated =>
      split at h
      · next callee argument called =>
        simp only [Option.bind_eq_some_iff, Option.map_eq_some_iff, Prod.mk.injEq] at h
        obtain ⟨_, function, _, name, rfl, rfl⟩ := h
        exact ⟨statement, expression, callee, argument, program, stated, called,
          shape_of_identifierName? function, shape_of_identifierName? name⟩
      · cases h
    · cases h
  · cases h

/-- The text parses to a call by these names. -/
def Calls (text f x : String) : Prop := ∃ tree, parse text = .ok tree ∧ tree.call? = some (f, x)

theorem calls_of_decide {text f x : String}
    (h : (parse text).toOption.bind Node.call? = some (f, x)) : Calls text f x := by
  obtain ⟨tree, parsed, call⟩ := Option.bind_eq_some_iff.1 h
  cases result : parse text with
  | error e => simp [result, Except.toOption] at parsed
  | ok tree' =>
    simp only [result, Except.toOption, Option.some.injEq] at parsed
    exact ⟨tree', result, parsed ▸ call⟩

theorem calls_value : Calls "c(result)" "c" "result" := calls_of_decide (by decide +kernel)

theorem calls_failure : Calls "cerr(error)" "cerr" "error" := calls_of_decide (by decide +kernel)

theorem Source.resolve_text {cache : Option ParseCache} (sound : ∀ c ∈ cache, c.Sound)
    {text : String} {tree : Node} (parsed : parse text = .ok tree) :
    ∃ number cache', (Source.text text).resolve cache = (.ok ⟨tree, number⟩, cache') ∧
      ∀ c ∈ cache', c.Sound := by
  cases cache with
  | none => exact ⟨none, none, by simp only [resolve, parsed]; rfl, by simp⟩
  | some c =>
    obtain ⟨number, c', found, kept⟩ := (sound c rfl).lookup parsed
    exact ⟨some number, some c', by simp only [resolve, found]; rfl, by simpa using kept⟩

/-! ## Scopes that come back -/

theorem Store.Grows.carries {s s' : Store} (h : s.Grows s') : s.Carries s' where
  moreObjects := Nat.le_of_eq (by rw [h.objects])
  objects id _ := by rw [object, h.objects, object]
  moreArrays := h.more
  arrays := h.same

theorem Store.find?_childScope (s : Store) (parent : ScopeId) {values : List (String × Value)}
    (distinct : (values.map (·.1)).Nodup) {v : Value} (mem : (name, v) ∈ values) :
    (s.childScope parent values).2.find? s.scopes.size name = some v := by
  have own : (s.childScope parent values).2.ownValue? s.scopes.size name = some v := by
    simp only [ownValue?, childScope, newScope, scope, Array.getD_eq_getD_getElem?,
      Array.getElem?_push_size, Option.getD_some, Dict.get?, Dict.entries_ofEntries distinct]
    exact Dict.lookup_of_mem distinct mem
  simp only [find?, chain, chain.walk, List.findSome?_cons, own]

/-- A name of a saved scope has the value that is read off its field. -/
theorem SavedScopes.find?_restore (s : Store) (r : Registry) (base : ScopeId)
    {fields : List (String × Json)} (sorted : Json.Sorted fields) {j : Json}
    (mem : (name, j) ∈ fields) :
    let restored := restore s r base ⟨fields, []⟩
    ∃ t, s.Adds t ∧ (Wire.decodeValue r t j).2.Carries restored.2 ∧
      restored.2.find? restored.1 name = some (Wire.decodeValue r t j).1 := by
  obtain ⟨e, memE, key, t, from₁, value, to₁⟩ :=
    exists_of_forall₂ (Wire.decodeFields_each r s fields) mem
  have distinct : ((Wire.decodeFields r s fields).1.map (·.1)).Nodup := by
    rw [← Wire.keys_decodeFields]
    exact sorted.distinct
  have same : e = (name, (Wire.decodeValue r t j).1) := Prod.ext key.symm value
  exact ⟨t, from₁, { to₁.toCarries with }, Store.find?_childScope _ base distinct (same ▸ memE)⟩

/-! ## The call of an answer -/

def Outcome.ofAnswer (throws : Bool) (v : Value) : Outcome :=
  if throws then .failure (.plain (.thrown v)) else .value v

/-- Nothing changes where the answer was given before. -/
theorem World.markAnswered_of_isAnswered {w : World η} {cell : Cell}
    (answered : w.isAnswered cell = true) : w.markAnswered cell = w := by
  have same : w.answered.setIfInBounds cell true = w.answered := by
    ext i _ lt
    · simp
    · rw [Array.getElem_setIfInBounds]
      split
      · next eq =>
        subst eq
        simpa [isAnswered, Array.getD, lt] using answered.symm
      · rfl
  rw [markAnswered, same]

namespace Ledger

variable {host : Host η} {Q : Ledger × World η → Prop} {l : Ledger} {fuel : Nat} {w : World η}
  {site : Site} {cell : Cell}

theorem context?_setRegistry {id : Nat} {c : Context} (found : l.context? id = some c)
    (registry : Registry) :
    (l.setRegistry id registry).context? id = some { c with registry } := by
  simp only [context?, setRegistry, Array.getElem?_modify, if_true] at found ⊢
  rw [found]
  rfl

theorem context?_setCache {id : Nat} {c : Context} (found : l.context? id = some c)
    (cache : Option ParseCache) : (l.setCache id cache).context? id = some { c with cache } := by
  simp only [context?, setCache, Array.getElem?_modify, if_true] at found ⊢
  rw [found]
  rfl

def replySteps : Nat := 25

/-- A call of an answer function ends, and then the program does. -/
theorem settles_answered {own : Nat} {back : Recipient} {c c' : Cell} {statement : Node}
    {inner : Site} (found : l.recipients[own]? = some back) (unspent : w.isSpent cell = false)
    (admits : w.Admits []) (later : ∀ w', w.store.Grows w'.store → w'.answered = w.answered →
      Q (l.receive w' back (.value .undefined))) :
    l.Settles host Q (fuel + 11) ⟨.ret .undefined .undefined, .guard c :: .exit inner none ::
      (site.around statement c' ++ [.program cell, .deliver own]), [], w⟩ := by
  refine .next rfl (settles_exit (.refl admits) fun w₁ left => settles_around left ?_)
  intro w₂ ended
  exact settles_deliver found (ended.unspent unspent)
    (later (w₂.spend cell) ended.store ended.answered)

def answering (l : Ledger) (w : World η) (cell : Cell) (d : Delivery) : Ledger :=
  { l with deliveries := if w.isAnswered cell then l.deliveries else l.deliveries.push d }

theorem step_answer {f : FunctionId} {recipient tag : Nat} {throws : Bool} {properties : Dict Value}
    {this v : Value} {config : Config} {k : List Frame} {agenda : Agenda}
    (answers : w.store.function? f = some ⟨.answer recipient cell throws, properties⟩)
    (known : l.recipients[recipient]? = some (.caller tag)) :
    l.step host ⟨.apply f this [v] config, k, agenda, w⟩ =
      some (l.answering w cell ⟨.caller tag, .ofAnswer throws v, w.store⟩,
        ⟨.ret .undefined .undefined, k, agenda, w.markAnswered cell⟩) := by
  simp only [step, State.advance, State.applyFunction, State.store, answers, State.give,
    State.become, answering]
  by_cases answered : w.isAnswered cell = true
  · simp only [answered, if_true, World.markAnswered_of_isAnswered]
  · simp only [answered, Bool.false_eq_true, if_false, take, known]
    rfl

/-- The run of a text that calls an answer function. Whatever the run itself gives goes to
`back`. -/
theorem settles_reply {own recipient : Nat} {back : Recipient} {tag : Nat} {name arg : String}
    {f : FunctionId} {throws : Bool} {properties : Dict Value} {v : Value}
    (call : site.node.call? = some (name, arg)) (unwatched : site.config.observers = [])
    (function : w.store.find? site.scope name = some (.function f))
    (argument : w.store.find? site.scope arg = some v)
    (answers : w.store.function? f = some ⟨.answer recipient cell throws, properties⟩)
    (known : l.recipients[recipient]? = some (.caller tag)) (found : l.recipients[own]? = some back)
    (later : ∀ store w', w.store.Grows store → w.store.Grows w'.store →
      w'.answered = w.answered.setIfInBounds cell true →
      Q ((l.answering w cell ⟨.caller tag, .ofAnswer throws v, store⟩).receive w' back
        (.value .undefined))) : l.Settles host Q (fuel + replySteps) (.program site own w) := by
  obtain ⟨statement, expression, callee, argument', program, stated, called, callee', arg'⟩ :=
    Node.shapes_of_call? call
  have watched : site.config.observers ⊆ [] := unwatched ▸ List.Subset.refl _
  have admits : ∀ w : World η, w.Admits [] := fun _ _ none => absurd none List.not_mem_nil
  have celled : w.newCell.2.Follows [] w.newCell.2 := .refl (admits w)
  -- The names are the same all along, and the answer is not given before the function is called.
  refine settles_program (n := fuel + 23) program stated celled watched fun c' w₁ entered => ?_
  let inner := (site.part (.item 0) statement).part (.slot .expression) expression
  have names : inner.CallsNames w.newCell.2.store f [v] :=
    ⟨callee, [argument'], name, called, callee', function, .cons ⟨arg, arg', argument⟩ .nil⟩
  refine settles_call (n := fuel + 12) names entered watched fun c w₂ follows => ?_
  have answers₂ : w₂.store.function? f = some ⟨.answer recipient cell throws, properties⟩ := by
    rw [Store.function?, follows.store.functions]
    exact answers
  refine .step (step_answer answers₂ known) ?_
  have kept : w₂.answered = w.answered := follows.answered
  have same : w₂.isAnswered cell = w.isAnswered cell := by
    rw [World.isAnswered, kept, World.isAnswered]
  have unspent : (w₂.markAnswered cell).isSpent w.spent.size = false := follows.fresh
  refine settles_answered (l := l.answering ..) found unspent (admits _) fun w' grows given => ?_
  simp only [answering, same] at later ⊢
  exact later w₂.store w' follows.store (follows.store.trans grows) (given.trans (by rw [← kept]; rfl))

end Ledger

/-! ## Replies -/

namespace Realm

variable {host : Host η} {r : Realm η} {context : Nat} {c : Context}

def deliveriesFor (r : Realm η) (tag : Nat) : List Delivery :=
  r.ledger.deliveries.toList.filter (Delivery.isFor tag)

theorem deliver_eq (found : r.ledger.context? context = some c) (fuel : Nat) (message : Message) :
    r.deliver host fuel context message =
      let restored := message.scopes.restore r.world.store c.registry c.scope
      evaluate host fuel ⟨{ r.world with store := restored.2 }, r.ledger⟩ context
        (.ofMessage message.source) (unattended c c.onError) (.scope restored.1) none := by
  simp only [deliver, found]
  rfl

def beginning (l : Ledger) (w : World η) (context : Nat) (c : Context) (found : Resolved)
    (cache : Option ParseCache) (scope : ScopeId) (recipient : Recipient) : Ledger × State η :=
  begun ⟨w, l.setCache context cache⟩ found.tree (found.number.map (TreeId.cached context)) scope
    c.config recipient

theorem evaluate_of_resolve {l : Ledger} {source : Source} {resolved : Resolved}
    {cache : Option ParseCache} (found : l.context? context = some c)
    (resolves : source.resolve c.cache = (.ok resolved, cache)) (w : World η) (fuel : Nat)
    (recipient : Recipient) (scope : ScopeId) :
    evaluate host fuel ⟨w, l⟩ context source recipient (.scope scope) none =
      let start := beginning l w context c resolved cache scope recipient
      ⟨(start.1.settle host fuel start.2).2, (start.1.settle host fuel start.2).1⟩ := by
  simp only [evaluate, found, resolves]
  rfl

/-- Whoever is there for what nobody waits for is no caller. -/
theorem receive_unattended (c : Context) (handler : ErrorHandler) (l : Ledger) (w : World η)
    (v : Value) : ∃ rest : Array Delivery, (∀ d ∈ rest, ∀ tag, d.isFor tag = false) ∧
      l.receive w (unattended c handler) (.value v) =
        ({ l with deliveries := l.deliveries ++ rest }, w) := by
  unfold unattended
  split
  · refine ⟨#[⟨.defaults, .value v, w.store⟩], ?_, rfl⟩
    rintro d mem tag
    obtain rfl := Array.mem_singleton.1 mem
    rfl
  · exact ⟨#[], by simp, by simp [Ledger.receive]⟩

/-- The ledger once a reply has been run: its caller was told, unless it had been told before. The
rest is for no caller. -/
def toldLedger (r : Realm η) (context : Nat) (c : Context) (cache : Option ParseCache) (cell : Cell)
    (d : Delivery) (rest : Array Delivery) : Ledger :=
  let l := ((r.ledger.setCache context cache).addRecipient (unattended c c.onError)).2.answering
    r.world cell d
  { l with deliveries := l.deliveries ++ rest }

theorem deliveriesFor_told (w : World η) (r : Realm η) (context : Nat) (c : Context)
    (cache : Option ParseCache) (cell : Cell) (d : Delivery) {rest : Array Delivery}
    (strange : ∀ d ∈ rest, ∀ tag, d.isFor tag = false) (tag : Nat) :
    deliveriesFor ⟨w, r.toldLedger context c cache cell d rest⟩ tag =
      if r.world.isAnswered cell then r.deliveriesFor tag
      else r.deliveriesFor tag ++ [d].filter (Delivery.isFor tag) := by
  have none : rest.toList.filter (Delivery.isFor tag) = [] := List.filter_eq_nil_iff.2
    fun d mem => by simp [strange d (Array.mem_toList_iff.1 mem) tag]
  simp only [deliveriesFor, toldLedger, Ledger.answering, Array.toList_append, List.filter_append,
    none, List.append_nil]
  split
  · rfl
  · simp only [Array.toList_push, List.filter_append]
    rfl

/-- The context is there, and nobody watches its scripts. -/
structure Ready (r : Realm η) (context : Nat) (c : Context) : Prop where
  found : r.ledger.context? context = some c
  unwatched : c.config.observers = []
  cache : ∀ kept ∈ c.cache, kept.Sound
  scope : c.scope < r.world.store.scopes.size

structure Tells (r r' : Realm η) (context : Nat) (c : Context) (tag : Nat) (cell : Cell)
    (d : Delivery) : Prop where
  ready : ∃ c', r'.Ready context c' ∧ c'.registry = c.registry
  answered : r'.world.answered = r.world.answered.setIfInBounds cell true
  functions : r'.world.store.functions = r.world.store.functions
  recipients : ∀ (id : Nat) x, r.ledger.recipients[id]? = some x → r'.ledger.recipients[id]? = some x
  own : r'.deliveriesFor tag =
    if r.world.isAnswered cell then r.deliveriesFor tag else r.deliveriesFor tag ++ [d]
  others : ∀ other ≠ tag, r'.deliveriesFor other = r.deliveriesFor other

end Realm

def Answers (s : Store) (registry : Registry) (fields : List (String × Json)) (name : String)
    (recipient : Nat) (cell : Cell) (throws : Bool) : Prop :=
  ∃ (token : Token) (f : FunctionId) (properties : Dict Value),
    (name, .object [("ref", .string token.text)]) ∈ fields ∧
    (token, .function f) ∈ registry.entries ∧
    s.function? f = some ⟨.answer recipient cell throws, properties⟩

/-- What is delivered is read off the JSON, and is thrown or not. -/
def Delivery.Reads (d : Delivery) (registry : Registry) (throws : Bool) (j : Json) : Prop :=
  ∃ t, d.outcome = .ofAnswer throws (Wire.decodeValue registry t j).1 ∧
    (Wire.decodeValue registry t j).2.Carries d.store

section Replies

variable {r : Realm η} {context : Nat} {c : Context} {text name arg : String}
  {fields : List (String × Json)} {j : Json} {recipient tag : Nat} {cell : Cell} {throws : Bool}
  (host : Host η) (ready : r.Ready context c) (sound : c.registry.Sound)
  (calls : Calls text name arg) (sorted : Json.Sorted fields)
  (answers : Answers r.world.store c.registry fields name recipient cell throws)
  (argument : (arg, j) ∈ fields) (known : r.ledger.recipients[recipient]? = some (.caller tag))
include ready sound calls sorted answers argument known

/-- The run of a reply that calls an answer function by name. -/
theorem Realm.deliver_run (fuel : Nat) :
    ∃ (cache : Option ParseCache) (d : Delivery) (rest : Array Delivery) (w : World η),
      (∀ kept ∈ cache, kept.Sound) ∧ (d.recipient = .caller tag ∧ d.Reads c.registry throws j) ∧
      (∀ d ∈ rest, ∀ tag, d.isFor tag = false) ∧
      w.answered = r.world.answered.setIfInBounds cell true ∧
      w.store.functions = r.world.store.functions ∧
      r.world.store.scopes.size ≤ w.store.scopes.size ∧
      r.deliver host (fuel + Ledger.replySteps) context ⟨.text text, ⟨fields, []⟩⟩ =
        ⟨w, r.toldLedger context c cache cell d rest⟩ := by
  obtain ⟨tree, parsed, call⟩ := calls
  obtain ⟨token, f, properties, named, registered, function⟩ := answers
  obtain ⟨number, cache, resolved, kept⟩ := Source.resolve_text ready.cache parsed
  let restored := SavedScopes.restore r.world.store c.registry c.scope ⟨fields, []⟩
  have adds := Wire.adds_decodeFields c.registry r.world.store fields
  have functions : restored.2.functions = r.world.store.functions := adds.functions
  have scopes : restored.2.scopes.size = r.world.store.scopes.size + 1 := by
    simp [restored, SavedScopes.restore, Store.childScope, Store.newScope, adds.scopes]
  -- The name of the function and that of its argument are found in the restored scope.
  obtain ⟨t₀, -, -, foundF⟩ :=
    SavedScopes.find?_restore r.world.store c.registry c.scope sorted named
  rw [Wire.decodeValue_ref sound registered] at foundF
  obtain ⟨t, -, carries, foundV⟩ :=
    SavedScopes.find?_restore r.world.store c.registry c.scope sorted argument
  let back := unattended c c.onError
  let l := ((r.ledger.setCache context cache).addRecipient back).2
  let w : World η := { r.world with store := restored.2 }
  let site : Site := ⟨.root ((number.map (TreeId.cached context)).getD
    (.single r.ledger.recipients.size)) tree, restored.1, c.config⟩
  have function' : w.store.function? f = some ⟨.answer recipient cell throws, properties⟩ := by
    rw [Store.function?, functions]
    exact function
  have call' : site.node.call? = some (name, arg) := call
  have foundF' : w.store.find? site.scope name = some (.function f) := foundF
  have foundV' : w.store.find? site.scope arg = some (Wire.decodeValue c.registry t j).1 := foundV
  have known' : l.recipients[recipient]? = some (.caller tag) := getElem?_push_of_some known back
  have own : l.recipients[r.ledger.recipients.size]? = some back := Array.getElem?_push_size
  have run : l.Settles host (fun x => ∃ store w', w.store.Grows store ∧ w.store.Grows w'.store ∧
      w'.answered = w.answered.setIfInBounds cell true ∧
      x = (l.answering w cell ⟨.caller tag, .ofAnswer throws (Wire.decodeValue c.registry t j).1,
        store⟩).receive w' back (.value .undefined))
      (fuel + Ledger.replySteps) (.program site r.ledger.recipients.size w) :=
    Ledger.settles_reply call' ready.unwatched foundF' foundV' function' known' own
      fun store w' toStore toWorld answered => ⟨store, w', toStore, toWorld, answered, rfl⟩
  obtain ⟨store, w', toStore, toWorld, answered, settled⟩ := run
  let d : Delivery := ⟨.caller tag, .ofAnswer throws (Wire.decodeValue c.registry t j).1, store⟩
  obtain ⟨rest, strange, received⟩ :=
    receive_unattended c c.onError (l.answering w cell d) w' .undefined
  refine ⟨cache, d, rest, w', kept, ⟨rfl, t, rfl, carries.trans toStore.carries⟩, strange,
    answered, toWorld.functions.trans functions, ?_, ?_⟩
  · have same : w'.store.scopes.size = restored.2.scopes.size := toWorld.scopes
    omega
  · rw [deliver_eq ready.found]
    refine (evaluate_of_resolve ready.found resolved w _ back restored.1).trans ?_
    exact congrArg (fun x : Ledger × World η => Realm.mk x.2 x.1) (settled.trans received)

/-- A reply that calls an answer function by name tells the caller what came along. -/
theorem Realm.deliver_tells (fuel : Nat) :
    ∃ d : Delivery, d.recipient = .caller tag ∧ d.Reads c.registry throws j ∧
      r.Tells (r.deliver host (fuel + Ledger.replySteps) context ⟨.text text, ⟨fields, []⟩⟩) context
        c tag cell d := by
  obtain ⟨cache, d, rest, w, kept, ⟨caller, reads⟩, strange, answered, functions, scopes, run⟩ :=
    deliver_run host ready sound calls sorted answers argument known fuel
  refine ⟨d, caller, reads, ?_⟩
  rw [run]
  constructor
  case ready =>
    refine ⟨{ c with cache }, ⟨?_, ready.unwatched, kept, ?_⟩, rfl⟩
    · exact Ledger.context?_setCache ready.found cache
    · exact Nat.lt_of_lt_of_le ready.scope scopes
  case answered => exact answered
  case functions => exact functions
  case recipients => exact fun id x known => getElem?_push_of_some known _
  case own =>
    rw [deliveriesFor_told w r context c cache cell d strange]
    simp [Delivery.isFor, caller]
  case others =>
    intro other ne
    rw [deliveriesFor_told w r context c cache cell d strange]
    simp [Delivery.isFor, caller, ne.symm]

end Replies

/-! ## Requests -/

theorem Dict.sorted_sortedEntries {α : Type} {d : Dict α} (distinct : d.keys.Nodup) :
    (d.sortedEntries.map (·.1)).Pairwise (· < ·) := by
  have le : d.sortedEntries.Pairwise fun a b => decide (a.1 ≤ b.1) = true :=
    List.pairwise_mergeSort
      (fun a b c ab bc => by simpa using String.le_trans (by simpa using ab) (by simpa using bc))
      (fun a b => by simpa using String.le_total a.1 b.1) _
  have nodup : (d.sortedEntries.map (·.1)).Nodup :=
    ((List.mergeSort_perm _ _).map _).nodup_iff.2 distinct
  rw [List.pairwise_map]
  refine (le.and (List.pairwise_map.1 nodup)).imp ?_
  rintro a b ⟨le, ne⟩
  by_contra notLt
  exact ne (String.le_antisymm (by simpa using le) notLt)

/-- A scope right below the base is saved alone. -/
theorem SavedScopes.save_child {s : Store} {base id : ScopeId} (parent : (s.scope id).parent = some base)
    (ne : id ≠ base) (r : Registry) (some : 0 < s.scopes.size) :
    save s r base id = (⟨(mapWith (saveField s) (s.ownValues id) r).1, []⟩,
      (mapWith (saveField s) (s.ownValues id) r).2) := by
  obtain ⟨n, size⟩ := Nat.exists_eq_succ_of_ne_zero (Nat.ne_of_gt some)
  have chain : (s.chain id).takeWhile (· != base) = [id] := by
    simp only [Store.chain, size, Store.chain.walk, parent]
    simp [ne]
  simp only [save, chain, mapWith]
  rfl

/-- What a request changes: it has made two functions that answer it, and their tokens are among
the fields of the message. -/
structure Realm.Asks (r r' : Realm η) (context : Nat) (c : Context) (tag : Nat)
    (fields : List (String × Json)) : Prop where
  ready : ∃ c', r'.Ready context c' ∧ c.registry.Within c'.registry ∧
    Answers r'.world.store c'.registry fields "c" r.ledger.recipients.size r.world.answered.size
      false ∧
    Answers r'.world.store c'.registry fields "cerr" r.ledger.recipients.size
      (r.world.answered.size + 1) true
  sorted : Json.Sorted fields
  known : r'.ledger.recipients = r.ledger.recipients.push (.caller tag)
  answered : r'.world.answered = (r.world.answered.push false).push false
  functions : ∀ (f : FunctionId) x, r.world.store.function? f = some x →
    r'.world.store.function? f = some x
  deliveries : r'.ledger.deliveries = r.ledger.deliveries

section Requests

variable {r : Realm η} {context : Nat} {c : Context}

def Realm.requestNames (r : Realm η) (bindings : List (String × Value)) : Dict Value :=
  (Dict.ofEntries bindings).setAll [("c", .function r.world.store.functions.size),
    ("cerr", .function (r.world.store.functions.size + 1))]

def Realm.requestStore (r : Realm η) (c : Context) (bindings : List (String × Value)) : Store :=
  { r.world.store with
    functions := (r.world.store.functions.push
      ⟨.answer r.ledger.recipients.size r.world.answered.size false, .empty⟩).push
      ⟨.answer r.ledger.recipients.size (r.world.answered.size + 1) true, .empty⟩
    scopes := r.world.store.scopes.push
      { (default : Scope) with values := r.requestNames bindings, parent := some c.scope } }

/-- The realm after a request, with the registry that its names were saved with. -/
def Realm.requested (r : Realm η) (context : Nat) (c : Context) (bindings : List (String × Value))
    (recipient : Recipient) (registry : Registry) : Realm η where
  world := { r.world with
    store := r.requestStore c bindings
    answered := (r.world.answered.push false).push false }
  ledger := (r.ledger.addRecipient recipient).2.setRegistry context registry

theorem Realm.request_eq (found : r.ledger.context? context = some c) (source : MessageSource)
    (bindings : List (String × Value)) (recipient : Recipient) :
    r.request context source bindings recipient =
      let saved := SavedScopes.save (r.requestStore c bindings) c.registry c.scope
        r.world.store.scopes.size
      (some ⟨source, saved.1⟩, r.requested context c bindings recipient saved.2) := by
  simp only [request, found, World.newAnswer, Store.newFunction, Store.childScope, Store.newScope,
    Store.declareAll, Store.modifyScope, State.modify_push, Array.size_push]
  rfl

/-- A request sends its own names and no scope around them. -/
theorem Realm.request_saved (found : r.ledger.context? context = some c)
    (inside : c.scope < r.world.store.scopes.size) (source : MessageSource)
    (bindings : List (String × Value)) (recipient : Recipient) :
    r.request context source bindings recipient =
      let saved := mapWith (SavedScopes.saveField (r.requestStore c bindings))
        (r.requestNames bindings).sortedEntries c.registry
      (some ⟨source, ⟨saved.1, []⟩⟩, r.requested context c bindings recipient saved.2) := by
  have scope : (r.requestStore c bindings).scope r.world.store.scopes.size =
      { (default : Scope) with values := r.requestNames bindings, parent := some c.scope } := by
    simp [requestStore, Store.scope]
  have parent : ((r.requestStore c bindings).scope r.world.store.scopes.size).parent =
      some c.scope := by rw [scope]
  rw [request_eq found, SavedScopes.save_child parent (Nat.ne_of_gt inside) c.registry
    (by simp [requestStore]), Store.ownValues, scope]

/-- A name of a request that stands for a function is sent as the function's token. -/
theorem Realm.answers_of_saved {s : Store} {names : List (String × Value)} {registry : Registry}
    {name : String} {f : FunctionId} {recipient : Nat} {cell : Cell} {throws : Bool}
    {properties : Dict Value} (mem : (name, .function f) ∈ names)
    (function : s.function? f = some ⟨.answer recipient cell throws, properties⟩) :
    let saved := mapWith (SavedScopes.saveField s) names registry
    Answers s saved.2 saved.1 name recipient cell throws := by
  obtain ⟨field, memF, key, r', json, later⟩ :=
    exists_of_forall₂ (SavedScopes.saved_each s names registry).2 mem
  have same : field = (name, .object [("ref", .string (r'.tokenFor (.function f)).1.text)]) :=
    Prod.ext key.symm json
  exact ⟨(r'.tokenFor (.function f)).1, f, properties, same ▸ memF,
    later.subset (r'.tokenFor_spec (.function f)).2, function⟩

theorem Realm.request_asks (ready : r.Ready context c) (source : MessageSource)
    (bindings : List (String × Value)) (tag : Nat) :
    ∃ fields r', r.request context source bindings (.caller tag) =
      (some ⟨source, ⟨fields, []⟩⟩, r') ∧ r.Asks r' context c tag fields := by
  let store := r.requestStore c bindings
  let names := r.requestNames bindings
  let saved := mapWith (SavedScopes.saveField store) names.sortedEntries c.registry
  have listed : ∀ key v, names.get? key = some v → (key, v) ∈ names.sortedEntries := fun key v h =>
    (List.mergeSort_perm _ _).mem_iff.2 (Dict.mem_of_lookup h)
  have each := SavedScopes.saved_each store names.sortedEntries c.registry
  have keys : names.sortedEntries.map (·.1) = saved.1.map (·.1) :=
    keys_of_forall₂ (each.2.imp fun _ _ h => h.1)
  have distinct : names.keys.Nodup := Dict.nodup_setAll (Dict.nodup_ofEntries bindings) _
  have resume : store.function? r.world.store.functions.size = some
      ⟨.answer r.ledger.recipients.size r.world.answered.size false, .empty⟩ := by
    simp only [store, requestStore, Store.function?, Array.getElem?_push, Array.size_push]
    simp
  have reject : store.function? (r.world.store.functions.size + 1) = some
      ⟨.answer r.ledger.recipients.size (r.world.answered.size + 1) true, .empty⟩ := by
    simp only [store, requestStore, Store.function?]
    rw [Array.getElem?_push, if_pos (by simp)]
  let made := r.requested context c bindings (.caller tag) saved.2
  refine ⟨saved.1, made, request_saved ready.found ready.scope source bindings (.caller tag), ?_⟩
  constructor
  case ready =>
    refine ⟨{ c with registry := saved.2 }, ?_, each.1, ?_, ?_⟩
    · refine ⟨Ledger.context?_setRegistry ready.found saved.2, ready.unwatched, ready.cache, ?_⟩
      have more : made.world.store.scopes.size = r.world.store.scopes.size + 1 := by
        simp [made, requested, requestStore]
      exact more ▸ Nat.lt_succ_of_lt ready.scope
    · exact answers_of_saved (listed "c" _ ((Dict.get?_set_of_ne (by decide) _ _).trans
        (Dict.get?_set _ _ _))) resume
    · exact answers_of_saved (listed "cerr" _ (Dict.get?_set _ _ _)) reject
  case sorted =>
    have sorted := Dict.sorted_sortedEntries distinct
    rw [keys] at sorted
    exact List.pairwise_map.1 sorted
  case known => rfl
  case answered => rfl
  case functions => exact fun f x known => getElem?_push_of_some (getElem?_push_of_some known _) _
  case deliveries => rfl

end Requests

end EcmaMachine
