import EcmaMachine.Realm.Basic

/-!
Evaluation on another side. A request takes along two functions, `c` and `cerr`; the reply, run
where the request came from, calls one of them.
-/

namespace EcmaMachine.Realm

variable {η : Type}

private def setStore (r : Realm η) (store : Store) : Realm η :=
  { r with world := { r.world with store } }

/-- Builds a request. Its outcome goes to the recipient, a value and a failure each at most
once. -/
def request (r : Realm η) (context : Nat) (source : MessageSource)
    (bindings : List (String × Value)) (recipient : Recipient) : Option Message × Realm η :=
  match r.ledger.context? context with
  | none => (none, r)
  | some c =>
    let (id, ledger) := r.ledger.addRecipient recipient
    let (done, world) := r.world.newAnswer
    let (failed, world) := world.newAnswer
    let (resume, store) := world.store.newFunction (.answer id done false)
    let (reject, store) := store.newFunction (.answer id failed true)
    let (scope, store) := store.childScope c.scope bindings
    let store := store.declareAll scope [("c", .function resume), ("cerr", .function reject)]
    let (scopes, registry) := SavedScopes.save store c.registry c.scope scope
    (some ⟨source, scopes⟩,
      setStore ⟨world, ledger.setRegistry context registry⟩ store)

/-- Evaluates a message and makes the reply, which is found under the tag. -/
def respond (host : Host η) (fuel : Nat) (r : Realm η) (context : Nat) (message : Message)
    (tag : Nat) : Realm η :=
  match r.ledger.context? context with
  | none => r
  | some c =>
    let (scope, store) := message.scopes.restore r.world.store c.registry c.scope
    evaluate host fuel (setStore r store) context (.ofMessage message.source)
      (.reply context message.scopes tag) (.scope scope) none

/-- Runs a reply where its request came from. -/
def deliver (host : Host η) (fuel : Nat) (r : Realm η) (context : Nat) (message : Message) :
    Realm η :=
  match r.ledger.context? context with
  | none => r
  | some c =>
    let (scope, store) := message.scopes.restore r.world.store c.registry c.scope
    evaluate host fuel (setStore r store) context (.ofMessage message.source)
      (unattended c c.onError) (.scope scope) none

end EcmaMachine.Realm
