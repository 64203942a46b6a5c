import EcmaMachine.Machine.State
import EcmaMachine.Store.Function
import EcmaMachine.Store.Operator
import EcmaMachine.Tree.Key

/-!
The first step of each kind of node: what is pushed, and what is evaluated first. What happens
with the outcome is said in `Machine.Resume` and `Machine.Unwind`.
-/

namespace EcmaMachine

/-- Names with a meaning even where no scope binds them. -/
def globalConstant? (name : String) : Option Value :=
  match name with
  | "undefined" => some .undefined
  | "NaN" => some (.number Number.nan)
  | "Infinity" => some (.number Number.infinity)
  | _ => none

/-- What stands to the left in the head of a for loop. -/
def loopTarget (left : Node) : Except Signal LoopTarget :=
  match left.shape with
  | .identifier name => .ok (.assign name)
  | .variableDeclaration [declarator] _ =>
    match declarator.shape with
    | .variableDeclarator id none => .ok (.declare id)
    | _ => .error (.unsupported declarator.type .loopInitializer)
  | .variableDeclaration _ _ => .error (.unsupported left.type .loopVariables)
  | _ => .error (.unsupported left.type (.loopTarget left.type))

namespace State

variable {η : Type}

/-- Runs statements in a scope, its functions first; gives the last value. -/
def evalBody (s : State η) (site : Site) (body : List Node) : State η :=
  match s.store.hoist site.scope (site.toSpot.items body) with
  | (some e, store) => (s.withStore store).fail e
  | (none, store) => ((s.withStore store).push .last).visitAll site .body body

/-- Reads a name, and gives it a reference if the config says so. -/
def readName (s : State η) (site : Site) (name : String) : State η :=
  match s.store.find? site.scope name with
  | some v =>
    if site.config.references then
      match s.store.reference? site.scope name with
      | some (_, store) => (s.withStore store).give v
      | none => s.signal (.unbound name)
    else s.give v
  | none =>
    match globalConstant? name with
    | some v => s.give v
    | none => s.signal (.unbound name)

def giveLiteral (s : State η) (value : Option LiteralValue) (isRegex : Bool) : State η :=
  if isRegex then s.signal (.unsupported .literal .regex)
  else
    match value with
    | none => s.give .null
    | some (.bool b) => s.give (.bool b)
    | some (.number x) => s.give (.number x)
    | some (.string t) => s.give (.string t)
    | some (.unsupported json) => s.signal (.unsupported .literal (.literalValue json))

/-- Gives the function that a node defines. -/
def giveFunction (s : State η) (site : Site) : State η :=
  match s.store.createFunction site.toSpot site.scope with
  | .ok (f, store) => (s.withStore store).give (.function f)
  | .error signal => s.signal signal

/-- A declared function was made when its block began; a declaration elsewhere makes one now. -/
def giveDeclared (s : State η) (site : Site) (id : Option Node) : State η :=
  let hoisted := do
    let name ← id.bind Node.identifierName?
    match ← s.store.ownValue? site.scope name with
    | .function f =>
      match (← s.store.function? f).callable with
      | .closure c => if c.spot.isSame site.toSpot then some f else none
      | _ => none
    | _ => none
  match hoisted with
  | some f => s.give (.function f)
  | none => s.giveFunction site

/-- Starts to evaluate a member: its object, its key, then what `access` says. -/
def visitMember (s : State η) (site : Site) (object property : Node) (computed : Bool)
    (access : Access) : State η :=
  ((s.pushCell .guard).push (.memberObject site property computed access)).visit site .object
    object

/-- Evaluates what is called. A member is evaluated in parts, so that its object is at hand as the
receiver. -/
def visitCallee (s : State η) (site : Site) (callee : Node) : State η :=
  match callee.shape with
  | .memberExpression object property computed =>
    s.enter site (some .callee) fun s =>
      let member := site.part (.slot .callee) callee
      s.enter member none fun s => s.visitMember member object property computed .callee
  | _ => s.visit site .callee callee

/-- Binds the next property of an object pattern. -/
def bindProperties (s : State η) (source : Value) : List Site → State η
  | [] => s.give source
  | property :: rest =>
    match property.node.shape with
    | .property key target _ computed _ _ =>
      match key.staticKey?, computed with
      | some name, false =>
        match s.store.getProperty source name with
        | .error fault => s.fail (.leaving (.type fault) property.node)
        | .ok (item, store) =>
          ((s.withStore store).push (.bindRest rest source)).become
            (.bind (property.part .target target) item)
      | _, _ => s.fail (.leaving (.unsupported key.type (.patternKey key.type)) key)
    | _ => s.fail (.leaving (.unsupported property.node.type .patternProperty) property.node)

/-- Declares the names of a pattern. A default is evaluated only in place of undefined. -/
def bind (s : State η) (target : Site) (v : Value) : State η :=
  match target.node.shape with
  | .identifier name => (s.withStore (s.store.declare target.scope name v)).give v
  | .assignmentPattern left right =>
    match v with
    | .undefined =>
      ((s.pushCell .guard).push (.bindTo (target.part .target left))).eval
        (target.part (.slot .right) right)
    | _ => s.become (.bind (target.part .target left) v)
  | .objectPattern properties =>
    if v.isNullish then s.fail (.leaving (.type (.destructure (s.store.text v))) target.node)
    else (s.pushCell .guard).bindProperties v (target.items properties)
  | _ => s.fail (.leaving (.unsupported target.node.type .bindingTarget) target.node)

/-- Goes on with the properties of an object literal. -/
def nextProperty (s : State η) (object : ObjectId) : List Site → State η
  | [] => s.give (.object object)
  | entry :: rest =>
    (s.push (.objectRest object rest)).enter entry none fun s =>
      match entry.node.shape with
      | .property key value .init computed _ _ =>
        let s := s.pushCell .guard
        if computed then (s.push (.propertyKey entry object value)).visit entry .key key
        else
          match key.staticKey? with
          | some name => (s.push (.propertyValue object name)).visit entry .value value
          | none => s.fail (.leaving (.unsupported key.type .propertyKey) key)
      | .property .. => s.signal (.unsupported .property .accessor)
      | _ => s.signal (.unsupported entry.node.type .spread)

/-- Assigns to a name and gives the result, or fails if nothing binds the name. -/
def assign (s : State η) (scope : ScopeId) (name : String) (v result : Value) : State η :=
  match s.store.resolve? scope name with
  | some owner => (s.withStore (s.store.declare owner name v)).give result
  | none => s.signal (.unbound name)

/-- Evaluates the target of `++` or `--`. -/
def visitUpdate (s : State η) (site : Site) (operator : UpdateOp) (argument : Node)
    (before : Bool) : State η :=
  s.enter site (some .argument) fun s =>
    match argument.shape with
    | .identifier name =>
      s.enter (site.part (.slot .argument) argument) none fun s =>
        match s.store.find? site.scope name with
        | none => s.signal (.unbound name)
        | some old =>
          let (new, result) := operator.step (s.store.toNumber old) before
          s.assign site.scope name (.number new) (.number result)
    | .memberExpression object property computed =>
      s.visitMember site object property computed (.update operator before)
    | _ => s.fail (.leaving (.unsupported argument.type .updateTarget) argument)

def visitUnary (s : State η) (site : Site) (operator : UnaryOp) (argument : Node) : State η :=
  let unboundName := argument.identifierName?.any fun name =>
    (s.store.find? site.scope name).isNone && (globalConstant? name).isNone
  if operator == .typeOf && unboundName then s.give (.string "undefined")
  else
    match operator, argument.shape with
    | .delete, .memberExpression object property computed =>
      s.enter site (some .argument) fun s => s.visitMember site object property computed .delete
    | _, _ => (s.push (.unary operator)).visit site .argument argument

def visitFor (s : State η) (site : Site) (left right : Node) (frame : LoopTarget → Frame) :
    State η :=
  match loopTarget left with
  | .error signal => s.fail (.leaving signal left)
  | .ok target => ((s.pushCell .guard).push (frame target)).visit site .right right

/-- Tests whether there is one more round of a `while`. -/
def testWhile (s : State η) (site : Site) (test body : Node) : State η :=
  (s.push (.whileTest site test body)).visit site .test test

def visitClassBody (s : State η) (site : Site) (name : String) (superclass : Option FunctionId)
    (body : Node) : State η :=
  (s.push (.classBody site name superclass)).visit site .body body

def strandText (quasi : Node) : String :=
  match quasi.shape with
  | .templateElement strand _ => strand.cooked.getD strand.raw
  | _ => ""

/-- Refuses a node for what it asks of the machine. -/
def refuse (s : State η) (site : Site) (limitation : Limitation) : State η :=
  s.signal (.unsupported site.node.type limitation)

/-- Begins to evaluate a node, its own events already open. -/
def start (s : State η) (site : Site) : State η :=
  match site.node.shape with
  | .program body => s.evalBody site body
  | .blockStatement body =>
    let (scope, store) := s.store.childScope site.scope []
    (s.withStore store).evalBody { site with scope } body
  | .expressionStatement expression => s.visit site .expression expression
  | .emptyStatement => s.give .undefined
  | .debuggerStatement => s.give .undefined
  | .variableDeclaration declarations _ =>
    (s.push (.instead .undefined)).visitAll site .declarations declarations
  | .variableDeclarator id init =>
    let s := (s.pushCell .guard).push (.instead .undefined)
    match init with
    | some init => (s.push (.bindTo (site.part .target id))).visit site .init init
    | none => s.become (.bind (site.part .target id) .undefined)
  | .ifStatement test consequent alternate =>
    ((s.pushCell .guard).push (.branch site consequent alternate)).visit site .test test
  | .whileStatement test body =>
    ((s.pushCell .guard).pushCell .once).testWhile site test body
  | .forStatement .. => s.refuse site .threeClauseFor
  | .forInStatement left right body => s.visitFor site left right (.forIn site · body)
  | .forOfStatement left right body => s.visitFor site left right (.forOf site · right body)
  | .functionDeclaration id .. => s.giveDeclared site id
  | .returnStatement none => s.signal (.returned .undefined)
  | .returnStatement (some argument) =>
    ((s.pushCell .guard).push .returns).visit site .argument argument
  | .throwStatement argument => ((s.pushCell .guard).push .throws).visit site .argument argument
  | .tryStatement block handler finalizer =>
    (s.pushCell (.tryBlock site · handler finalizer)).visit site .block block
  | .catchClause param body =>
    let caught := (s.store.caught? site.scope).getD .undefined
    let (scope, store) := s.store.childScope site.scope []
    let s := s.withStore store
    let site := { site with scope }
    match param with
    | none => s.visit site .body body
    | some param =>
      ((s.pushCell .guard).push (.catchBody site body)).become
        (.bind (site.part .target param) caught)
  | .breakStatement (some _) => s.refuse site .labeledBreak
  | .breakStatement none => s.signal (.broken none)
  | .continueStatement (some _) => s.refuse site .labeledContinue
  | .continueStatement none => s.signal (.continued none)
  | .classDeclaration id superClass body =>
    match id.bind Node.identifierName? with
    | none => s.refuse site .anonymousClass
    | some name =>
      let s := s.pushCell .guard
      match superClass with
      | none => s.visitClassBody site name none body
      | some super => (s.push (.superclass site name body)).visit site .superClass super
  | .classBody body => (s.push .relist).visitAll site .body body
  | .methodDefinition _ value .constructor _ _ => s.visit site .value value
  | .methodDefinition .. => s.refuse site .classMember
  | .identifier name => s.readName site name
  | .literal value _ regex => s.giveLiteral value regex.isSome
  | .thisExpression => s.give ((s.store.find? site.scope "this").getD .undefined)
  | .arrayExpression elements => s.visitItems site .elements elements
  | .objectExpression properties =>
    let (object, store) := s.store.newObject .empty none
    (s.withStore store).enter site (some .properties) fun s =>
      (s.pushCell .guard).nextProperty object (site.items properties)
  | .property .. => s.refuse site .strayProperty
  | .functionExpression .. => s.giveFunction site
  | .arrowFunctionExpression .. => s.giveFunction site
  | .memberExpression object property computed =>
    s.visitMember site object property computed .read
  | .callExpression callee arguments =>
    ((s.pushCell .guard).push (.callee site callee arguments)).visitCallee site callee
  | .newExpression callee arguments =>
    ((s.pushCell .guard).push (.newCallee site callee arguments)).visit site .callee callee
  | .assignmentExpression operator left right =>
    ((s.pushCell .guard).push (.assignment site operator left)).visit site .right right
  | .updateExpression operator argument before => s.visitUpdate site operator argument before
  | .unaryExpression operator argument _ => s.visitUnary site operator argument
  | .binaryExpression operator left right =>
    ((s.pushCell .guard).push (.binaryLeft site operator right)).visit site .left left
  | .logicalExpression operator left right =>
    ((s.pushCell .guard).push (.logical site operator right)).visit site .left left
  | .conditionalExpression test consequent alternate =>
    ((s.pushCell .guard).push (.branch site consequent (some alternate))).visit site .test test
  | .sequenceExpression expressions =>
    (s.push .last).visitAll site .expressions expressions
  | .templateLiteral quasis expressions =>
    (s.push (.template (quasis.map strandText))).visitAll site .expressions expressions
  | .templateElement strand _ => s.give (.string (strand.cooked.getD strand.raw))
  | .objectPattern _ => s.refuse site .strayPattern
  | .assignmentPattern left right =>
    match left.identifierName? with
    | some name => (s.push (.declare site.scope name)).visit site .right right
    | none => s.fail (.leaving (.unsupported left.type (.defaultTarget left.type)) left)

end State

end EcmaMachine
