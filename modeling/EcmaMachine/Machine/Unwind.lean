import EcmaMachine.Machine.Resume

/-!
What each frame does with a failure. Loops take up `break` and `continue`, function bodies take up
`return`, try statements take up what can be caught; all else goes through.
-/

namespace EcmaMachine.State

variable {η : Type}

/-- Lets a failure through if it is the first. -/
def failOnce (s : State η) (cell : Cell) (e : Exception) : State η :=
  if s.world.isSpent cell then s.rest
  else ({ s with world := s.world.spend cell }).fail e

/-- A failed block: runs the handler if there is one and the failure can be caught. -/
def handle (s : State η) (site : Site) (cell : Cell) (handler finalizer : Option Node)
    (e : Exception) : State η :=
  match handler, e.caught? s.store with
  | some node, some (caught, store) =>
    let (scope, store) := store.catchScope site.scope caught
    ((s.withStore store).push (.tryHandler site cell finalizer)).visit { site with scope } .handler
      node
  | _, _ => s.finishTry site cell finalizer (.failure e)

/-- Hands a failure to a frame; the frame is no longer on the stack. -/
def unwind (s : State η) (e : Exception) : Frame → State η
  | .exit site none =>
    let e := e.located site.node
    (s.leave site none (.failure e)).fail e
  | .exit site (some slot) => (s.leave site (some slot) (.failure e)).fail e
  | .guard cell => s.failOnce cell e
  | .body cell =>
    match e.signal with
    | .returned v => s.giveOnce cell v
    | .broken _ | .continued _ => s.fail ⟨.type (.straySignal (e.signal.text s.store)), e.place⟩
    | _ => s.fail e
  | .program cell =>
    match e.signal with
    | .returned v => s.giveOnce cell v
    | _ => s.fail e
  | .round site cell next =>
    match e.signal with
    | .broken none => s.give .undefined
    | .continued none => s.again site cell next
    | _ => s.fail e
  | .tryBlock site cell handler finalizer => s.handle site cell handler finalizer e
  | .tryHandler site cell finalizer => s.finishTry site cell finalizer (.failure e)
  | .deliver _ => s.rest
  | _ => s.fail e

end EcmaMachine.State
