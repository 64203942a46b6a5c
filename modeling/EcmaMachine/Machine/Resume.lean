import EcmaMachine.Machine.Evaluate

/-!
What each frame does with a value.
-/

namespace EcmaMachine.State

variable {η : Type}

/-- Goes on with the value if nothing has come this way before. -/
def giveOnce (s : State η) (cell : Cell) (v : Value) : State η :=
  if s.world.isSpent cell then s.rest
  else ({ s with world := s.world.spend cell }).give v

/-- Runs the body of a loop; the round frame starts the next round. -/
def loopBody (s : State η) (site : Site) (cell : Cell) (body : Node) (outer : Site)
    (next : Rounds) : State η :=
  (s.push (.round outer cell next)).visit site .body body

/-- Begins the next round of a loop, if there is one. A declared variable lives in a scope of its
own for each round. -/
def nextRound (s : State η) (site : Site) : Rounds → State η
  | .tested test body => s.testWhile site test body
  | .each _ _ [] => s.give .undefined
  | .each target body (item :: items) =>
    let (cell, world) := s.world.newCell
    let s := { s with world }
    let next := Rounds.each target body items
    match target with
    | .assign name =>
      match s.store.assign? site.scope name item with
      | some store => (s.withStore store).loopBody site cell body site next
      | none => s.fail (.leaving (.unbound name) site.node)
    | .declare pattern =>
      let (scope, store) := s.store.childScope site.scope []
      let inner := { site with scope }
      ((s.withStore store).push (.roundBody inner cell body site next)).become
        (.bind (inner.part .target pattern) item)

/-- Begins the next round at most once per round. -/
def again (s : State η) (site : Site) (cell : Cell) (next : Rounds) : State η :=
  if s.world.isSpent cell then s.rest
  else ({ s with world := s.world.spend cell }).nextRound site next

/-- Ends a try statement, once: through its finalizer if it has one. -/
def finishTry (s : State η) (site : Site) (cell : Cell) (finalizer : Option Node)
    (outcome : Outcome) : State η :=
  if s.world.isSpent cell then s.rest
  else
    let s := { s with world := s.world.spend cell }
    match finalizer with
    | none => s.finish outcome
    | some node => ((s.pushCell .guard).push (.finalizer outcome)).visit site .finalizer node

/-- Ends with the result of an operation on the store. -/
def settle (s : State η) : Except TypeFault (Value × Store) → State η
  | .ok (v, store) => (s.withStore store).give v
  | .error fault => s.signal (.type fault)

/-- The value that an assignment stores, with the operator applied to what was there before. -/
def combined (store : Store) (operator : AssignOp) (old : Unit → Except Signal (Value × Store))
    (v : Value) : Except Signal (Value × Store) :=
  match operator.applied? with
  | none => .ok (v, store)
  | some op => do
    let (before, store) ← old ()
    (store.binary op before v).mapError .type

def assignName (s : State η) (scope : ScopeId) (operator : AssignOp) (name : String)
    (v : Value) : State η :=
  let old := fun _ =>
    match s.store.find? scope name with
    | some before => Except.ok (before, s.store)
    | none => .error (.unbound name)
  match combined s.store operator old v with
  | .error signal => s.signal signal
  | .ok (v, store) => (s.withStore store).assign scope name v v

def assignMember (s : State η) (target : Value) (key : String) (operator : AssignOp)
    (v : Value) : State η :=
  let old := fun _ => (s.store.getProperty target key).mapError .type
  match combined s.store operator old v with
  | .error signal => s.signal signal
  | .ok (v, store) => s.settle ((store.setProperty target key v).map fun store => (v, store))

def updateMember (s : State η) (target : Value) (key : String) (operator : UpdateOp)
    (before : Bool) : State η :=
  s.settle do
    let (old, store) ← s.store.getProperty target key
    let (new, result) := operator.step (store.toNumber old) before
    let store ← store.setProperty target key (.number new)
    .ok (.number result, store)

/-- Does with a member what it was evaluated for. -/
def useMember (s : State η) (target : Value) (key : String) : Access → State η
  | .read => s.settle (s.store.getProperty target key)
  | .callee =>
    match s.store.getProperty target key with
    | .ok (v, store) => (s.withStore store).become (.ret v target)
    | .error fault => s.signal (.type fault)
  | .assign operator v => s.assignMember target key operator v
  | .update operator before => s.updateMember target key operator before
  | .delete =>
    s.settle ((s.store.deleteProperty target key).map fun store => (.bool true, store))

/-- Evaluates the key of a member. A plain name is not evaluated, but it has its events; they
show what is stored under it. -/
def visitKey (s : State η) (site : Site) (target : Value) (property : Node) (computed : Bool) :
    State η :=
  if computed then s.visit site .property property
  else
    match property.identifierName? with
    | none => s.fail (.leaving (.unsupported property.type .memberKey) property)
    | some name =>
      let (current, store) := match s.store.getProperty target name with
        | .ok found => found
        | .error _ => (.undefined, s.store)
      let key := site.part (.slot .property) property
      (s.withStore store).enter site (some .property) fun s =>
        (s.push (.instead (.string name))).enter key none fun s => s.give current

def visitTarget (s : State η) (site : Site) (operator : AssignOp) (left : Node) (v : Value) :
    State η :=
  s.enter site (some .left) fun s =>
    match left.shape with
    | .identifier name =>
      s.enter (site.part (.slot .left) left) none fun s => s.assignName site.scope operator name v
    | .memberExpression object property computed =>
      s.visitMember site object property computed (.assign operator v)
    | _ => s.fail (.leaving (.unsupported left.type (.assignmentTarget left.type)) left)

/-- Strands and values in turn. -/
def fillTemplate (store : Store) : List String → List Value → String
  | [], _ => ""
  | strand :: strands, [] => strand ++ fillTemplate store strands []
  | strand :: strands, v :: vs => strand ++ store.text v ++ fillTemplate store strands vs

/-- Whether the left operand decides the result. -/
def decides (operator : LogicalOp) (left : Value) : Bool :=
  match operator with
  | .and => !left.isTruthy
  | .or => left.isTruthy
  | .nullish => !left.isNullish

/-- Runs the body of a function whose parameters are bound. -/
def runBody (s : State η) (site : Site) (closure : Closure) : State η :=
  let body := site.part (.slot .body) closure.body
  if closure.isExpression then s.eval body
  else (s.pushCell .body).eval body

/-- Binds the parameters from left to right; a missing argument is undefined. -/
def nextParam (s : State η) (site : Site) (closure : Closure) :
    List Site → List Value → State η
  | [], _ => s.runBody site closure
  | param :: params, args =>
    (s.push (.bindParams site closure params args.tail)).become
      (.bind param (args.head?.getD .undefined))

/-- Hands a value to a frame; the frame is no longer on the stack. -/
def resume (s : State η) (v receiver : Value) : Frame → State η
  | .exit site slot => (s.leave site slot (.value v)).become (.ret v receiver)
  | .guard _ => s.become (.ret v receiver)
  | .once cell => s.giveOnce cell v
  | .items rest done => s.nextItem rest (v :: done)
  | .last => s.give ((s.listed v).getLast?.getD .undefined)
  | .instead w => s.give w
  | .bindTo target => s.become (.bind target v)
  | .bindRest properties source => s.bindProperties source properties
  | .bindParams site closure params args => s.nextParam site closure params args
  | .body cell => s.giveOnce cell .undefined
  | .program cell => s.giveOnce cell v
  | .declare scope name => (s.withStore (s.store.declare scope name v)).give v
  | .branch site consequent alternate =>
    if v.isTruthy then s.visit site .consequent consequent
    else
      match alternate with
      | some node => s.visit site .alternate node
      | none => s.give .undefined
  | .whileTest site test body =>
    if v.isTruthy then
      let (cell, world) := s.world.newCell
      ({ s with world }).loopBody site cell body site (.tested test body)
    else s.give .undefined
  | .forIn site target body =>
    (s.pushCell .once).nextRound site
      (.each target body ((s.store.enumerableKeys v).map .string))
  | .forOf site target right body =>
    match v with
    | .array id =>
      (s.pushCell .once).nextRound site (.each target body (s.store.elements id).toList)
    | _ => s.fail (.leaving (.unsupported .forOfStatement .forOfCollection) right)
  | .roundBody site cell body outer next => s.loopBody site cell body outer next
  | .round site cell next => s.again site cell next
  | .returns => s.signal (.returned v)
  | .throws => s.signal (.thrown v)
  | .tryBlock site cell _ finalizer => s.finishTry site cell finalizer (.value v)
  | .tryHandler site cell finalizer => s.finishTry site cell finalizer (.value v)
  | .finalizer outcome => s.finish outcome
  | .catchBody site body => s.visit site .body body
  | .superclass site name body =>
    match v with
    | .function f => s.visitClassBody site name (some f) body
    | _ => s.signal (.type (.superclass (s.store.text v)))
  | .classBody site name superclass =>
    match s.store.createClass site.toSpot site.scope name superclass (s.listed v) with
    | .ok (cls, store) => (s.withStore (store.declare site.scope name cls)).give cls
    | .error signal => s.signal signal
  | .relist =>
    let (list, store) := s.store.newList (s.listed v)
    (s.withStore store).give list
  | .objectRest object rest => s.nextProperty object rest
  | .propertyKey site object value =>
    (s.push (.propertyValue object (s.store.text v))).visit site .value value
  | .propertyValue object key => (s.withStore (s.store.setOwn object key v)).give v
  | .memberObject site property computed access =>
    (s.push (.memberKey v access)).visitKey site v property computed
  | .memberKey target access => s.useMember target (s.store.text v) access
  | .callee site callee arguments =>
    (s.push (.call site callee v receiver)).visitAll site .arguments arguments
  | .call site callee function this =>
    match function with
    | .function f => s.become (.apply f this (s.listed v) site.config)
    | _ => s.signal (.type (.notFunction callee.calleeName))
  | .newCallee site callee arguments =>
    let refuse := s.signal (.type (.notConstructor callee.calleeName))
    match v with
    | .function f =>
      if (s.store.function? f).any (·.callable.isArrow) then refuse
      else (s.push (.newCall site f)).visitAll site .arguments arguments
    | _ => refuse
  | .newCall site f =>
    let (p, store) := s.store.prototypeOf f
    let (made, store) := store.newObject .empty (some p)
    ((s.withStore store).push (.construct made)).become
      (.apply f (.object made) (s.listed v) site.config)
  | .construct made => s.give (if v.isHandle then v else .object made)
  | .assignment site operator left => s.visitTarget site operator left v
  | .unary operator => s.give (s.store.unary operator v)
  | .binaryLeft site operator right => (s.push (.binaryRight operator v)).visit site .right right
  | .binaryRight operator left => s.settle (s.store.binary operator left v)
  | .logical site operator right =>
    if decides operator v then s.give v else s.visit site .right right
  | .template strands => s.give (.string (fillTemplate s.store strands (s.listed v)))
  | .deliver _ => s.rest

end EcmaMachine.State
