import EcmaMachine.Machine.Observer

/-!
The state of the machine: what it does now, the frames that wait for the outcome, and the world
that both change. A frame stands for one place in the script that has something to do once a
part of it has ended. Nothing but the topmost frame is ever looked at.

Host functions may answer late, or both with a value and with a failure. Where two paths lead to
one place, a cell decides: what comes first spends it, what comes later is dropped.
-/

namespace EcmaMachine

/-- How to run: who watches, and whether reading a name gives it a reference. -/
structure Config where
  observers : List Nat
  references : Bool

def Config.plain : Config := ⟨[], false⟩

/-- A node with what it runs in. -/
structure Site extends Spot where
  scope : ScopeId
  config : Config

namespace Site

def part (site : Site) (step : Descent) (child : Node) : Site :=
  { site with toSpot := site.toSpot.part step child }

def items (site : Site) (children : List Node) : List Site :=
  children.mapIdx fun i child => site.part (.item i) child

end Site

abbrev Cell := Nat

/-- What to do with a member once its object and key are known. -/
inductive Access
  | read
  | callee
  | assign (operator : AssignOp) (value : Value)
  | update (operator : UpdateOp) (before : Bool)
  | delete

/-- What a for loop binds each item to. -/
inductive LoopTarget
  | assign (name : String)
  | declare (pattern : Node)

/-- The rounds of a loop that are still to come. -/
inductive Rounds
  | tested (test body : Node)
  | each (target : LoopTarget) (body : Node) (items : List Value)

inductive Frame
  /-- The end of a node or a slot. -/
  | exit (site : Site) (slot : Option Slot)
  /-- Lets one failure through. -/
  | guard (cell : Cell)
  /-- Lets one value through. -/
  | once (cell : Cell)
  /-- A list of parts, `done` holding the values so far in reverse. -/
  | items (rest : List (Option Site)) (done : List Value)
  /-- Takes the last value of a list. -/
  | last
  /-- Gives this value in place of any. -/
  | instead (v : Value)
  /-- Binds the value to a pattern. -/
  | bindTo (target : Site)
  /-- Binds the remaining properties of a pattern. -/
  | bindRest (properties : List Site) (source : Value)
  /-- Binds the remaining parameters and runs the function. -/
  | bindParams (site : Site) (closure : Closure) (params : List Site) (args : List Value)
  /-- The end of a function body: a `return` gives the value of the call. -/
  | body (cell : Cell)
  /-- The end of a program: a `return` gives its value. -/
  | program (cell : Cell)
  /-- Declares the value under a name. -/
  | declare (scope : ScopeId) (name : String)
  | branch (site : Site) (consequent : Node) (alternate : Option Node)
  | whileTest (site : Site) (test body : Node)
  | forIn (site : Site) (target : LoopTarget) (body : Node)
  | forOf (site : Site) (target : LoopTarget) (right body : Node)
  /-- The loop variable is bound; the body comes next. -/
  | roundBody (site : Site) (cell : Cell) (body : Node) (outer : Site) (next : Rounds)
  /-- One round of a loop; `cell` starts the next one at most once. -/
  | round (site : Site) (cell : Cell) (next : Rounds)
  | returns
  | throws
  | tryBlock (site : Site) (cell : Cell) (handler finalizer : Option Node)
  | tryHandler (site : Site) (cell : Cell) (finalizer : Option Node)
  /-- The finalizer; afterwards the statement ends as it would have without. -/
  | finalizer (outcome : Outcome)
  | catchBody (site : Site) (body : Node)
  | superclass (site : Site) (name : String) (body : Node)
  | classBody (site : Site) (name : String) (superclass : Option FunctionId)
  /-- Makes the list of values an array. -/
  | relist
  | objectRest (object : ObjectId) (rest : List Site)
  | propertyKey (site : Site) (object : ObjectId) (value : Node)
  | propertyValue (object : ObjectId) (key : String)
  | memberObject (site : Site) (property : Node) (computed : Bool) (access : Access)
  | memberKey (target : Value) (access : Access)
  | callee (site : Site) (callee : Node) (arguments : List Node)
  | call (site : Site) (callee : Node) (function receiver : Value)
  | newCallee (site : Site) (callee : Node) (arguments : List Node)
  | newCall (site : Site) (constructor : FunctionId)
  /-- A constructor call: its own instance counts unless it gives something else. -/
  | construct (made : ObjectId)
  | assignment (site : Site) (operator : AssignOp) (left : Node)
  | unary (operator : UnaryOp)
  | binaryLeft (site : Site) (operator : BinaryOp) (right : Node)
  | binaryRight (operator : BinaryOp) (left : Value)
  | logical (site : Site) (operator : LogicalOp) (right : Node)
  | template (strands : List String)
  /-- The outside. -/
  | deliver (recipient : Nat)

/-- What the machine does now. A value that comes from a member keeps the object as `receiver`
for the call around it. -/
inductive Control
  | eval (site : Site)
  | bind (target : Site) (v : Value)
  | ret (v : Value) (receiver : Value)
  | fail (e : Exception)
  | apply (f : FunctionId) (this : Value) (args : List Value) (config : Config)
  | idle

/-- A host call that was not answered at once. Each way to answer it is open until it is used. -/
structure Held where
  stack : List Frame
  valueOpen : Bool
  failureOpen : Bool

/-- All that a run changes; `host` is whatever the host functions keep. -/
structure World (η : Type) where
  store : Store
  observers : Array Observer
  spent : Array Bool
  answered : Array Bool
  held : Array Held
  trace : Array String
  log : Array String
  host : η

namespace World

variable {η : Type}

def start (host : η) : World η := ⟨.empty, #[], #[], #[], #[], #[], #[], host⟩

def newCell (w : World η) : Cell × World η :=
  (w.spent.size, { w with spent := w.spent.push false })

def isSpent (w : World η) (cell : Cell) : Bool := w.spent.getD cell true

def spend (w : World η) (cell : Cell) : World η :=
  { w with spent := w.spent.setIfInBounds cell true }

/-- The cells of the answer functions are kept apart from those of the frames. -/
def newAnswer (w : World η) : Cell × World η :=
  (w.answered.size, { w with answered := w.answered.push false })

def isAnswered (w : World η) (cell : Cell) : Bool := w.answered.getD cell true

def markAnswered (w : World η) (cell : Cell) : World η :=
  { w with answered := w.answered.setIfInBounds cell true }

def addObserver (w : World η) (o : Observer) : Nat × World η :=
  (w.observers.size, { w with observers := w.observers.push o })

/-- Shows an event to the observers in turn. The first to refuse it ends the round. -/
def notify (w : World η) (e : Event) : List Nat → Option String × World η
  | [] => (none, w)
  | id :: rest =>
    match w.observers[id]? with
    | none => w.notify e rest
    | some o =>
      let verdict := o.see w.store e
      let w := { w with
        observers := w.observers.setIfInBounds id { o with notes := verdict.notes }
        trace := w.trace ++ verdict.trace
        log := w.log ++ verdict.log }
      match verdict.refusal with
      | some reason => (some reason, w)
      | none => w.notify e rest

end World

/-- The agenda holds answers to host calls, each with the call's number; they are given one after
the other, each when the machine has come to rest. -/
structure State (η : Type) where
  control : Control
  stack : List Frame
  agenda : List (Nat × Outcome)
  world : World η

namespace State

variable {η : Type}

@[inline] def push (s : State η) (f : Frame) : State η := { s with stack := f :: s.stack }

@[inline] def become (s : State η) (control : Control) : State η := { s with control }

@[inline] def give (s : State η) (v : Value) : State η := s.become (.ret v .undefined)

def fail (s : State η) (e : Exception) : State η := s.become (.fail e)

def signal (s : State η) (signal : Signal) : State η := s.fail (.plain signal)

def rest (s : State η) : State η := s.become .idle

@[inline] def withStore (s : State η) (store : Store) : State η :=
  { s with world := { s.world with store } }

@[inline] def store (s : State η) : Store := s.world.store

/-- Ends in the outcome. -/
def finish (s : State η) : Outcome → State η
  | .value v => s.give v
  | .failure e => s.fail e

/-- A frame with a fresh cell. -/
def pushCell (s : State η) (frame : Cell → Frame) : State η :=
  let (cell, world) := s.world.newCell
  { s with world, stack := frame cell :: s.stack }

/-- Shows the end of a node or slot to its observers. -/
def leave (s : State η) (site : Site) (slot : Option Slot) (outcome : Outcome) : State η :=
  let event := ⟨site.node, slot, site.scope, .exit outcome⟩
  { s with world := (s.world.notify event site.config.observers).2 }

/-- Enters a node or slot and goes on with the work inside, unless an observer refuses. -/
def enter (s : State η) (site : Site) (slot : Option Slot) (work : State η → State η) :
    State η :=
  let (refusal, world) := s.world.notify ⟨site.node, slot, site.scope, .enter⟩ site.config.observers
  let s := { s with world }
  match refusal with
  | none => work (s.push (.exit site slot))
  | some reason =>
    let e := Exception.leaving (.aborted reason) site.node
    (s.leave site slot (.failure e)).fail e

def eval (s : State η) (site : Site) : State η := s.become (.eval site)

/-- Evaluates a part of a node under the events of its slot. -/
def visit (s : State η) (site : Site) (slot : Slot) (child : Node) : State η :=
  s.enter site (some slot) fun s => s.eval (site.part (.slot slot) child)

/-- Goes on with a list of parts; what is left out gives undefined. At the end the values are put
into an array. -/
def nextItem (s : State η) : List (Option Site) → List Value → State η
  | [], done =>
    let (v, store) := s.store.newList done.reverse
    (s.withStore store).give v
  | none :: rest, done => s.nextItem rest (.undefined :: done)
  | some child :: rest, done => (s.push (.items rest done)).eval child

/-- Evaluates a list of parts from left to right under the events of one slot. -/
def visitItems (s : State η) (site : Site) (slot : Slot) (children : List (Option Node)) :
    State η :=
  let items := children.mapIdx fun i child => child.map (site.part (.item i))
  s.enter site (some slot) fun s => (s.pushCell .guard).nextItem items []

def visitAll (s : State η) (site : Site) (slot : Slot) (children : List Node) : State η :=
  s.visitItems site slot (children.map some)

/-- The values that `visitAll` has collected. -/
def listed (s : State η) : Value → List Value
  | .array id => (s.store.elements id).toList
  | _ => []

end State

end EcmaMachine
