import EcmaMachine.Machine.Unwind

/-!
Steps and runs. `advance` is one step and looks at nothing but the control and the topmost frame;
`run` repeats it until an outcome leaves the machine or there is nothing left to do.
-/

namespace EcmaMachine

/-- How a host function answers. `hold` leaves the call open: its answers, if any are given here,
are tried in order, and others may be given later under the number of the call. -/
inductive Reply
  | value (v : Value)
  | failure (e : Exception)
  | call (f : FunctionId) (this : Value) (args : List Value)
  | hold (answers : List Outcome)

structure HostStep (η : Type) where
  reply : Reply
  store : Store
  log : List String
  host : η

/-- The functions of the host, by their words. They see the number that the call gets if it is
held. -/
structure Host (η : Type) where
  call : (word : String) → (this : Value) → (args : List Value) → (ticket : Nat) → Store → η →
    HostStep η

namespace State

variable {η : Type}

def applyClosure (s : State η) (closure : Closure) (this : Value) (args : List Value)
    (config : Config) : State η :=
  let own := if closure.isArrow then [] else [("this", this)]
  let (scope, store) := s.store.childScope closure.scope own
  let s := (s.withStore store).pushCell .guard
  let site : Site := ⟨closure.spot, scope, config⟩
  s.nextParam site closure (site.items closure.params) args

def applyHost (s : State η) (host : Host η) (word : String) (this : Value) (args : List Value) :
    State η :=
  let ticket := s.world.held.size
  let step := host.call word this args ticket s.store s.world.host
  let world := { s.world with
    store := step.store, host := step.host, log := s.world.log ++ step.log }
  let s := { s with world }
  match step.reply with
  | .value v => s.give v
  | .failure e => s.fail e
  | .call f this args => s.become (.apply f this args .plain)
  | .hold answers =>
    { control := .idle
      stack := []
      agenda := answers.map (ticket, ·) ++ s.agenda
      world := { world with held := world.held.push ⟨s.stack, true, true⟩ } }

/-- Whether a held call can still be answered so. -/
def accepts (s : State η) (ticket : Nat) : Outcome → Bool
  | .value _ => s.world.held[ticket]?.any (·.valueOpen)
  | .failure _ => s.world.held[ticket]?.any (·.failureOpen)

/-- Answers a held call: the frames that waited for it go on. Nothing happens if the call was
answered so before. -/
def answer (s : State η) (ticket : Nat) (outcome : Outcome) : State η :=
  if s.accepts ticket outcome then
    let used : Held → Held := fun h =>
      match outcome with
      | .value _ => { h with valueOpen := false }
      | .failure _ => { h with failureOpen := false }
    let stack := (s.world.held[ticket]?.map (·.stack)).getD []
    ({ s with stack, world := { s.world with held := s.world.held.modify ticket used } }).finish
      outcome
  else s

end State

/-- What a step comes to: an outcome may leave the machine on the way. -/
inductive Progress (η : Type)
  | next (s : State η)
  | delivered (recipient : Nat) (outcome : Outcome) (s : State η)
  | rest (s : State η)

namespace State

variable {η : Type}

/-- Calls a function. An answer function delivers its argument, once, and gives undefined. -/
def applyFunction (s : State η) (host : Host η) (f : FunctionId) (this : Value)
    (args : List Value) (config : Config) : Progress η :=
  match s.store.function? f with
  | none => .next (s.give .undefined)
  | some ⟨.closure c, _⟩ => .next (s.applyClosure c this args config)
  | some ⟨.host _ word, _⟩ => .next (s.applyHost host word this args)
  | some ⟨.answer recipient cell throws, _⟩ =>
    let s := s.give .undefined
    if s.world.isAnswered cell then .next s
    else
      let v := args.head?.getD .undefined
      let outcome := if throws then .failure (.plain (.thrown v)) else .value v
      .delivered recipient outcome { s with world := s.world.markAnswered cell }

def advance (host : Host η) (s : State η) : Progress η :=
  match s.control with
  | .eval site => .next (s.enter site none fun s => s.start site)
  | .bind target v => .next (s.bind target v)
  | .apply f this args config => s.applyFunction host f this args config
  | .ret v receiver =>
    match s.stack with
    | [] => .next s.rest
    | .deliver recipient :: stack => .delivered recipient (.value v) ({ s with stack }).rest
    | frame :: stack => .next (({ s with stack }).resume v receiver frame)
  | .fail e =>
    match s.stack with
    | [] => .next s.rest
    | .deliver recipient :: stack => .delivered recipient (.failure e) ({ s with stack }).rest
    | frame :: stack => .next (({ s with stack }).unwind e frame)
  | .idle =>
    match s.agenda with
    | [] => .rest s
    | (ticket, outcome) :: agenda => .next (({ s with agenda }).answer ticket outcome)

/-- Steps until an outcome leaves the machine, it comes to rest, or the fuel is spent. -/
def run (host : Host η) : Nat → State η → Progress η
  | 0, s => .next s
  | fuel + 1, s =>
    match s.advance host with
    | .next s => s.run host fuel
    | .delivered recipient outcome s => .delivered recipient outcome s
    | .rest s => .rest s

end State

end EcmaMachine
