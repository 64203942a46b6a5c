import EcmaMachine.Context
import EcmaMachine.Machine.Run

/-!
A realm: contexts over one machine, and all that the machine has delivered. Every evaluation runs
until the machine comes to rest; a host function that holds a call may leave it without an
outcome, which then comes with a later answer.
-/

namespace EcmaMachine

/-- Who an outcome goes to. A reply goes back to the other side with the scopes of its message. -/
inductive Recipient
  | caller (tag : Nat)
  | defaults
  | handler (onError : ErrorHandler)
  | reply (context : Nat) (scopes : SavedScopes) (tag : Nat)

/-- An outcome that has left the machine, with the store as it was then. -/
structure Delivery where
  recipient : Recipient
  outcome : Outcome
  store : Store

def Delivery.isFor (tag : Nat) (d : Delivery) : Bool :=
  match d.recipient with
  | .caller t => t == tag
  | _ => false

structure Ledger where
  contexts : Array Context
  recipients : Array Recipient
  deliveries : Array Delivery
  replies : Array (Nat × Message)

structure Realm (η : Type) where
  world : World η
  ledger : Ledger

namespace Ledger

def empty : Ledger := ⟨#[], #[], #[], #[]⟩

def context? (l : Ledger) (id : Nat) : Option Context := l.contexts[id]?

def addContext (l : Ledger) (c : Context) : Nat × Ledger :=
  (l.contexts.size, { l with contexts := l.contexts.push c })

def addRecipient (l : Ledger) (r : Recipient) : Nat × Ledger :=
  (l.recipients.size, { l with recipients := l.recipients.push r })

def setRegistry (l : Ledger) (id : Nat) (registry : Registry) : Ledger :=
  { l with contexts := l.contexts.modify id fun c => { c with registry } }

def setCache (l : Ledger) (id : Nat) (cache : Option ParseCache) : Ledger :=
  { l with contexts := l.contexts.modify id fun c => { c with cache } }

/-- The value that a failure is told with: what scripts would catch, or an error object with the
text of the failure. -/
def errorValue (s : Store) (e : Exception) : Value × Store :=
  match e.caught? s with
  | some found => found
  | none => s.newError "Error" (e.text s)

/-- The reply to a message: it calls one of the two functions that came with the message, in the
scopes that came with it. -/
def replyTo (s : Store) (registry : Registry) (scopes : SavedScopes) :
    Outcome → Message × Registry × Store
  | .value v =>
    let (j, registry) := Wire.encodeValue s registry v
    (⟨.text "c(result)", scopes.insert "result" j⟩, registry, s)
  | .failure e =>
    let (v, s) := errorValue s e
    let (j, registry) := Wire.encodeValue s registry v
    (⟨.text "cerr(error)", scopes.insert "error" j⟩, registry, s)

/-- Takes an outcome. Failures that nobody waits for may go to the log; a message is replied to
once. -/
def receive {η : Type} (l : Ledger) (w : World η) (recipient : Recipient) (outcome : Outcome) :
    Ledger × World η :=
  match recipient, outcome with
  | .handler _, .value _ => (l, w)
  | .handler .log, .failure e =>
    (l, { w with log := w.log.push ("ERROR evaluation failed exception=" ++ e.text w.store) })
  | .reply context scopes tag, _ =>
    match l.context? context with
    | none => (l, w)
    | some c =>
      let (message, registry, store) := replyTo w.store c.registry scopes outcome
      let l := l.setRegistry context registry
      let w := { w with store }
      if l.replies.any (·.1 == tag) then (l, w)
      else ({ l with replies := l.replies.push (tag, message) }, w)
  | _, _ => ({ l with deliveries := l.deliveries.push ⟨recipient, outcome, w.store⟩ }, w)

/-- Runs the machine until it comes to rest and takes what it delivers. -/
def settle {η : Type} (host : Host η) : (fuel : Nat) → Ledger → State η → Ledger × World η
  | 0, l, s => (l, s.world)
  | fuel + 1, l, s =>
    match s.advance host with
    | .next s => settle host fuel l s
    | .rest s => (l, s.world)
    | .delivered id outcome s =>
      match l.recipients[id]? with
      | none => settle host fuel l s
      | some recipient =>
        let (l, w) := l.receive s.world recipient outcome
        settle host fuel l { s with world := w }

end Ledger

namespace Realm

variable {η : Type}

def empty (host : η) : Realm η := ⟨.start host, .empty⟩

def addContext (r : Realm η) (c : Context) : Nat × Realm η :=
  let (id, ledger) := r.ledger.addContext c
  (id, { r with ledger })

/-- Runs the machine from the state that the world is put into. -/
def drive (host : Host η) (fuel : Nat) (r : Realm η) (begin : World η → State η) : Realm η :=
  let (ledger, world) := r.ledger.settle host fuel (begin r.world)
  ⟨world, ledger⟩

/-- Evaluates a tree; a `return` outside of all functions ends it with a value. A tree that no
cache keeps is known by the evaluation it was made for. -/
def evalNode (host : Host η) (fuel : Nat) (r : Realm η) (node : Node) (kept : Option TreeId)
    (scope : ScopeId) (config : Config) (recipient : Recipient) : Realm η :=
  let (id, ledger) := r.ledger.addRecipient recipient
  let site : Site := ⟨.root (kept.getD (.single id)) node, scope, config⟩
  drive host fuel { r with ledger } fun world =>
    (State.mk (.eval site) [.deliver id] [] world).pushCell .program

/-- Who gets an outcome that nobody waits for. -/
def unattended (c : Context) (onError : ErrorHandler) : Recipient :=
  if c.hasDefaults then .defaults else .handler onError

def bindScope (s : Store) (base : ScopeId) : Bindings → ScopeId × Store
  | .none => (base, s)
  | .values entries => s.childScope base entries
  | .scope id => (id, s)

/-- Evaluates a source in a context. A text that does not parse fails before anything runs. -/
def evaluate (host : Host η) (fuel : Nat) (r : Realm η) (context : Nat) (source : Source)
    (recipient : Recipient) (bindings : Bindings) (config : Option Config) : Realm η :=
  match r.ledger.context? context with
  | none => r
  | some c =>
    let (resolved, cache) := source.resolve c.cache
    let ledger := r.ledger.setCache context cache
    match resolved with
    | .error e =>
      let (ledger, world) := ledger.receive r.world recipient (.failure (.plain (.parse e)))
      ⟨world, ledger⟩
    | .ok found =>
      let (scope, store) := bindScope r.world.store c.scope bindings
      let r := ⟨{ r.world with store }, ledger⟩
      let kept := found.number.map (TreeId.cached context)
      evalNode host fuel r found.tree kept scope (config.getD c.config) recipient

/-- Evaluates a source on its own, in a scope that holds nothing but the bindings. -/
def evaluateOnce (host : Host η) (fuel : Nat) (r : Realm η) (source : Source)
    (recipient : Recipient) (bindings : Bindings) (config : Config) : Realm η :=
  match (source.resolve none).1 with
  | .error e =>
    let (ledger, world) := r.ledger.receive r.world recipient (.failure (.plain (.parse e)))
    ⟨world, ledger⟩
  | .ok found =>
    let (scope, store) := match bindings with
      | .none => r.world.store.rootScope []
      | .values entries => r.world.store.rootScope entries
      | .scope id => (id, r.world.store)
    evalNode host fuel { r with world := { r.world with store } } found.tree none scope config
      recipient

/-- Calls a function from outside. -/
def callFunction (host : Host η) (fuel : Nat) (r : Realm η) (config : Config) (f : FunctionId)
    (this : Value) (args : List Value) (recipient : Recipient) : Realm η :=
  let (id, ledger) := r.ledger.addRecipient recipient
  drive host fuel { r with ledger } fun world =>
    ⟨.apply f this args config, [.deliver id], [], world⟩

/-- The first outcome that has come for a caller. A run that rests without one has dropped its
continuations. -/
def awaited (r : Realm η) (tag : Nat) : Outcome :=
  match r.ledger.deliveries.toList.find? (Delivery.isFor tag) with
  | some d => d.outcome
  | none => .failure (.plain (.aborted "evaluation dropped its continuations"))

/-- The outcome for a caller, which then counts as taken. -/
def takeAwaited (r : Realm η) (tag : Nat) : Outcome × Realm η :=
  let deliveries := r.ledger.deliveries.filter (!Delivery.isFor tag ·)
  (r.awaited tag, { r with ledger := { r.ledger with deliveries } })

/-- Answers a held call from outside; `none` if it cannot be answered so any more. -/
def answer? (host : Host η) (fuel : Nat) (r : Realm η) (ticket : Nat) (outcome : Outcome) :
    Option (Realm η) :=
  if (State.mk .idle [] [] r.world).accepts ticket outcome then
    some (drive host fuel r fun world => ⟨.idle, [], [(ticket, outcome)], world⟩)
  else none

end Realm

end EcmaMachine
