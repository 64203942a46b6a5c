import EcmaMachine.Grammar.Script
import EcmaMachine.Tree.Escape

/-!
From matched rules to the tree. `build` folds a match: each rule assembles its node from its own
span and from what its inner rules were built into. Only three things can be wrong with a text
that the grammar matches: a `try` with nothing behind it, an assignment to what cannot be
assigned to, and a number that does not fit.
-/

namespace EcmaMachine

/-- What is wrong with a script text. -/
inductive SyntaxFault
  | expected (rules : List Grammar.Rule)
  | missingHandler
  | invalidTarget (type : NodeType)
  | invalidNumber (text : String)
  | malformed (rule : Grammar.Rule)
  | notSingle
  | notFunction (type : NodeType)
  deriving DecidableEq

/-- A list as a phrase with `or` before its last item. -/
private def orPhrase : List String → String
  | [] => ""
  | [a] => a
  | [a, b] => a ++ " or " ++ b
  | items => ", ".intercalate items.dropLast ++ ", or " ++ items.getLastD ""

def SyntaxFault.description : SyntaxFault → String
  | .expected rules => "expected " ++ orPhrase (rules.map Grammar.Rule.name)
  | .missingHandler => "Missing catch or finally after try"
  | .invalidTarget type => "Invalid assignment target: " ++ type.name
  | .invalidNumber text => "Invalid number '" ++ text ++ "'"
  | .malformed rule => "Malformed " ++ rule.name
  | .notSingle => "Expected a single function"
  | .notFunction type => "Expected a function, found " ++ type.name

structure SyntaxError where
  fault : SyntaxFault
  pos : Position
  deriving DecidableEq

def SyntaxError.message (e : SyntaxError) : String :=
  "SyntaxError: " ++ e.fault.description ++ " (" ++ toString e.pos.line ++ ":" ++
    toString e.pos.column ++ ")"

namespace Grammar

/-- What a matched rule was built into. -/
inductive Built
  | node (n : Node)
  | nodes (ns : List Node)
  | key (n : Node) (computed : Bool)
  | token

/-- A matched rule with what it was built into; an error inside it comes out only when the
result is asked for. -/
structure Part where
  pair : Pair Rule
  built : Except SyntaxError Built

namespace Part

def rule (p : Part) : Rule := p.pair.rule

def span (p : Part) : Span := p.pair.span

def text (p : Part) : String := String.ofList p.pair.text

def fail {α : Type} (p : Part) (fault : SyntaxFault) : Except SyntaxError α :=
  .error ⟨fault, p.pair.start.pos⟩

def node (p : Part) : Except SyntaxError Node := do
  match ← p.built with
  | .node n => .ok n
  | _ => p.fail (.malformed p.rule)

def nodes (p : Part) : Except SyntaxError (List Node) := do
  match ← p.built with
  | .nodes ns => .ok ns
  | _ => p.fail (.malformed p.rule)

def key (p : Part) : Except SyntaxError (Node × Bool) := do
  match ← p.built with
  | .key n computed => .ok (n, computed)
  | _ => p.fail (.malformed p.rule)

/-- Words and the end of the text carry nothing into the tree. -/
def isSilent (p : Part) : Bool :=
  match p.rule with
  | .wordBreak | .wordCatch | .wordClass | .wordContinue | .wordDebugger | .wordElse
  | .wordExtends | .wordFinally | .wordFor | .wordFunction | .wordIf | .wordIn | .wordNew
  | .wordOf | .wordReturn | .wordThrow | .wordTry | .wordWhile | .finish => true
  | _ => false

/-- Only names and members can be assigned to; the fault is placed at `at`. -/
def assignable (place : Part) (target : Node) : Except SyntaxError Node :=
  match target.shape with
  | .identifier _ => .ok target
  | .memberExpression _ _ _ => .ok target
  | _ => place.fail (.invalidTarget target.type)

end Part

/-- Takes a leading part of the given rule, if it is there. -/
def takeRule (r : Rule) : List Part → Option Part × List Part
  | [] => (none, [])
  | p :: rest => if p.rule == r then (some p, rest) else (none, p :: rest)

def nodesOf (parts : List Part) : Except SyntaxError (List Node) :=
  parts.mapM Part.node

/-- From the start of `first` to the end of `last`. -/
def spanning (first last : Node) (fallback : Span) : Span :=
  match first.loc, last.loc with
  | some a, some b => ⟨a.start, b.stop⟩
  | none, some b => b
  | _, none => fallback

def nameNode (p : Part) : Node := .mk (.identifier p.text) (some p.span)

def literalNode (whole : Part) (value : Option LiteralValue) : Built :=
  .node (.mk (.literal value (some whole.text) none) (some whole.span))

def variableKindOf (p : Part) : Except SyntaxError VariableKind :=
  match VariableKind.ofSymbol? p.text with
  | some kind => .ok kind
  | none => p.fail (.malformed .variableKind)

def paramsOf : Option Part → Except SyntaxError (List Node)
  | some p => p.nodes
  | none => .ok []

/-- Parameters, if there are any, and the body. -/
def functionParts (whole : Part) (parts : List Part) :
    Except SyntaxError (List Node × Node) := do
  let (parameters, rest) := takeRule .parameters parts
  let params ← paramsOf parameters
  match rest with
  | [body] => .ok (params, ← body.node)
  | _ => whole.fail (.malformed whole.rule)

/-- The number a literal stands for: hexadecimal digits of at most 64 bits, or a decimal. -/
def literalNumber? (text : List Char) : Option Float :=
  match text with
  | '0' :: 'x' :: ds => hex ds
  | '0' :: 'X' :: ds => hex ds
  | ds => Number.unsignedDecimal? ds
where
  hex (ds : List Char) : Option Float :=
    (Number.hexDigits? ds).bind fun n =>
      if n < 0x10000000000000000 then some (Float.ofNat n) else none

def withDefault (target : Node) (span : Span) : List Part → Except SyntaxError Node
  | [] => .ok target
  | p :: _ => do .ok (.mk (.assignmentPattern target (← p.node)) (some span))

def operationShape (operator : Part) (left right : Node) : Except SyntaxError (Shape Node) :=
  match LogicalOp.ofSymbol? operator.text with
  | some o => .ok (.logicalExpression o left right)
  | none =>
    match BinaryOp.ofSymbol? operator.text with
    | some o => .ok (.binaryExpression o left right)
    | none => operator.fail (.malformed operator.rule)

/-- Operators of equal strength, from the left. -/
def chain (left : Node) : List Part → Except SyntaxError Node
  | operator :: operand :: rest => do
    let right ← operand.node
    let shape ← operationShape operator left right
    chain (.mk shape (some (spanning left right operator.span))) rest
  | [operator] => operator.fail (.malformed operator.rule)
  | [] => .ok left

def unaryShape (operator : Part) (argument : Node) : Except SyntaxError (Shape Node) :=
  match UpdateOp.ofSymbol? operator.text with
  | some o => do .ok (.updateExpression o (← operator.assignable argument) true)
  | none =>
    match UnaryOp.ofSymbol? operator.text with
    | some o => .ok (.unaryExpression o argument true)
    | none => operator.fail (.malformed operator.rule)

/-- Operators before an operand, the innermost first. -/
def unaryChain (whole : Part) (argument : Node) : List Part → Except SyntaxError Node
  | [] => .ok argument
  | operator :: outer => do
    let shape ← unaryShape operator argument
    let stop := (argument.loc.getD whole.span).stop
    unaryChain whole (.mk shape (some ⟨operator.span.start, stop⟩)) outer

def suffixShape (expression : Node) (suffix : Part) : Except SyntaxError (Shape Node) :=
  match suffix.rule with
  | .callArguments => do .ok (.callExpression expression (← suffix.nodes))
  | .staticMember => do .ok (.memberExpression expression (← suffix.node) false)
  | .computedMember => do .ok (.memberExpression expression (← suffix.node) true)
  | _ => suffix.fail (.malformed suffix.rule)

/-- Calls and member accesses behind an expression. -/
def suffixChain (expression : Node) : List Part → Except SyntaxError Node
  | [] => .ok expression
  | suffix :: rest => do
    let shape ← suffixShape expression suffix
    let start := (expression.loc.getD suffix.span).start
    suffixChain (.mk shape (some ⟨start, suffix.span.stop⟩)) rest

def strandNode (chars : Option Part) (tail : Bool) : Node :=
  let raw := (chars.map fun p => p.pair.text).getD []
  .mk (.templateElement ⟨some (String.ofList (Escape.resolve raw)), String.ofList raw⟩ tail)
    (chars.map Part.span)

/-- Strands and expressions of a template in turn; there is a strand on either side of each
expression, empty where no text stands. -/
def templateParts (pending : Option Part) :
    List Part → Except SyntaxError (List Node × List Node)
  | [] => .ok ([strandNode pending true], [])
  | p :: rest => do
    if p.rule == .templateChars then templateParts (some p) rest
    else
      let expression ← p.node
      let (quasis, expressions) ← templateParts none rest
      .ok (strandNode pending false :: quasis, expression :: expressions)

private def isConstructorKey (key : Node) : Bool :=
  match key.shape with
  | .identifier name => name == "constructor"
  | .literal (some (.string name)) _ _ => name == "constructor"
  | _ => false

def methodFunction (params : List Node) (body : Node) (span : Span) : Node :=
  .mk (.functionExpression none params body false false) (some span)

/-! ## Rules -/

namespace Assemble

variable (whole : Part)

def malformed : Except SyntaxError Built := whole.fail (.malformed whole.rule)

/-- A node that spans all of its rule. -/
def node (shape : Shape Node) : Except SyntaxError Built :=
  .ok (.node (.mk shape (some whole.span)))

def listed (shape : List Node → Shape Node) (parts : List Part) : Except SyntaxError Built := do
  node whole (shape (← nodesOf parts))

def single (shape : Node → Shape Node) : List Part → Except SyntaxError Built
  | [e] => do node whole (shape (← e.node))
  | _ => malformed whole

/-- What is built into the same as its only part. -/
def pass : List Part → Except SyntaxError Built
  | [only] => do .ok (.node (← only.node))
  | _ => malformed whole

def variableDeclaration : List Part → Except SyntaxError Built
  | kind :: declarators => do
    let kind ← variableKindOf kind
    node whole (.variableDeclaration (← nodesOf declarators) kind)
  | _ => malformed whole

def variableDeclarator : List Part → Except SyntaxError Built
  | [id] => do node whole (.variableDeclarator (← id.node) none)
  | [id, init] => do
    let id ← id.node
    node whole (.variableDeclarator id (some (← init.node)))
  | _ => malformed whole

def ifStatement : List Part → Except SyntaxError Built
  | [test, consequent] => do
    let test ← test.node
    node whole (.ifStatement test (← consequent.node) none)
  | [test, consequent, alternate] => do
    let test ← test.node
    let consequent ← consequent.node
    node whole (.ifStatement test consequent (some (← alternate.node)))
  | _ => malformed whole

def whileStatement : List Part → Except SyntaxError Built
  | [test, body] => do
    let test ← test.node
    node whole (.whileStatement test (← body.node))
  | _ => malformed whole

/-- What stands to the left in the head of a loop. -/
def loopLeft (left : Part) : Except SyntaxError Node := do
  let target ← left.node
  if left.rule == .forDeclaration then .ok target else left.assignable target

def loop (shape : Node → Node → Node → Shape Node) : List Part → Except SyntaxError Built
  | [left, right, body] => do
    let left ← loopLeft left
    let right ← right.node
    node whole (shape left right (← body.node))
  | _ => malformed whole

def forDeclaration : List Part → Except SyntaxError Built
  | [kind, id] => do
    let kind ← variableKindOf kind
    let declarator := .mk (.variableDeclarator (← id.node) none) (some whole.span)
    node whole (.variableDeclaration [declarator] kind)
  | _ => malformed whole

def forStatement (parts : List Part) : Except SyntaxError Built := do
  let (init, rest) := takeRule .forInit parts
  let init ← init.mapM Part.node
  let (test, rest) := takeRule .forTest rest
  let test ← test.mapM Part.node
  let (update, rest) := takeRule .forUpdate rest
  let update ← update.mapM Part.node
  match rest with
  | [body] => do node whole (.forStatement init test update (← body.node))
  | _ => malformed whole

def returnStatement : List Part → Except SyntaxError Built
  | [] => node whole (.returnStatement none)
  | argument :: _ => do node whole (.returnStatement (some (← argument.node)))

/-- A jump, which may name a label. -/
def jump (shape : Option Node → Shape Node) (parts : List Part) : Except SyntaxError Built :=
  node whole (shape (parts.head?.map nameNode))

def tryStatement : List Part → Except SyntaxError Built
  | block :: rest => do
    let block ← block.node
    let (handler, rest) := takeRule .catchClause rest
    let handler ← handler.mapM Part.node
    let (finalizer, _) := takeRule .finallyClause rest
    let finalizer ← finalizer.mapM Part.node
    if handler.isNone && finalizer.isNone then whole.fail .missingHandler
    else node whole (.tryStatement block handler finalizer)
  | _ => malformed whole

def catchClause : List Part → Except SyntaxError Built
  | [body] => do node whole (.catchClause none (← body.node))
  | [param, body] => do
    let param ← param.node
    node whole (.catchClause (some param) (← body.node))
  | _ => malformed whole

def function (shape : Option Node → List Node → Node → Bool → Bool → Shape Node)
    (parts : List Part) : Except SyntaxError Built := do
  let (isAsync, rest) := takeRule .asyncMarker parts
  let (generator, rest) := takeRule .generatorMarker rest
  let (id, rest) := takeRule .identifier rest
  let (params, body) ← functionParts whole rest
  node whole (shape (id.map nameNode) params body generator.isSome isAsync.isSome)

def arrowFunction (parts : List Part) : Except SyntaxError Built := do
  let (isAsync, rest) := takeRule .asyncMarker parts
  match rest with
  | [head, body] => do
    let params ← head.nodes
    let expression := body.rule != .block
    node whole (.arrowFunctionExpression params (← body.node) expression isAsync.isSome)
  | _ => malformed whole

def arrowParameters : List Part → Except SyntaxError Built
  | [] => .ok (.nodes [])
  | head :: _ =>
    if head.rule == .identifier then .ok (.nodes [nameNode head])
    else do .ok (.nodes (← head.nodes))

def classDeclaration : List Part → Except SyntaxError Built
  | id :: rest => do
    let (heritage, rest) := takeRule .classHeritage rest
    let superClass ← heritage.mapM Part.node
    match rest with
    | [body] => do node whole (.classDeclaration (some (nameNode id)) superClass (← body.node))
    | _ => malformed whole
  | _ => malformed whole

def classMember (parts : List Part) : Except SyntaxError Built := do
  let (isStatic, rest) := takeRule .staticMarker parts
  match rest with
  | key :: rest => do
    let (key, computed) ← key.key
    let (params, body) ← functionParts whole rest
    let plain := isStatic.isNone && !computed
    let kind := if plain && isConstructorKey key then .constructor else .method
    let value := methodFunction params body whole.span
    node whole (.methodDefinition key value kind computed isStatic.isSome)
  | _ => malformed whole

def bindingElement : List Part → Except SyntaxError Built
  | target :: rest => do .ok (.node (← withDefault (← target.node) whole.span rest))
  | _ => malformed whole

def patternProperty : List Part → Except SyntaxError Built
  | first :: rest =>
    if first.rule == .propertyKey then do
      let (key, computed) ← first.key
      match rest with
      | [value] => do node whole (.property key (← value.node) .init computed false false)
      | _ => malformed whole
    else do
      let key := nameNode first
      node whole (.property key (← withDefault key whole.span rest) .init false true false)
  | _ => malformed whole

def expression (parts : List Part) : Except SyntaxError Built := do
  match ← nodesOf parts with
  | [single] => .ok (.node single)
  | expressions => node whole (.sequenceExpression expressions)

def assignment : List Part → Except SyntaxError Built
  | [only] => do .ok (.node (← only.node))
  | [left, operator, right] => do
    let left ← left.node
    let left ← operator.assignable left
    match AssignOp.ofSymbol? operator.text with
    | some o => do node whole (.assignmentExpression o left (← right.node))
    | none => operator.fail (.malformed operator.rule)
  | _ => malformed whole

def conditional : List Part → Except SyntaxError Built
  | [only] => do .ok (.node (← only.node))
  | [test, consequent, alternate] => do
    let test ← test.node
    let consequent ← consequent.node
    node whole (.conditionalExpression test consequent (← alternate.node))
  | _ => malformed whole

def operation : List Part → Except SyntaxError Built
  | first :: rest => do .ok (.node (← chain (← first.node) rest))
  | _ => malformed whole

def unary (parts : List Part) : Except SyntaxError Built :=
  match parts.reverse with
  | operand :: operators => do .ok (.node (← unaryChain whole (← operand.node) operators))
  | _ => malformed whole

def postfixed : List Part → Except SyntaxError Built
  | [only] => do .ok (.node (← only.node))
  | [argument, operator] => do
    let argument ← argument.node
    let argument ← operator.assignable argument
    match UpdateOp.ofSymbol? operator.text with
    | some o => node whole (.updateExpression o argument false)
    | none => operator.fail (.malformed operator.rule)
  | _ => malformed whole

def suffixed : List Part → Except SyntaxError Built
  | first :: suffixes => do .ok (.node (← suffixChain (← first.node) suffixes))
  | _ => malformed whole

def newExpression : List Part → Except SyntaxError Built
  | [callee] => do node whole (.newExpression (← callee.node) [])
  | [callee, arguments] => do
    let callee ← callee.node
    node whole (.newExpression callee (← arguments.nodes))
  | _ => malformed whole

def arrayLiteral (parts : List Part) : Except SyntaxError Built := do
  let elements ← parts.mapM fun p =>
    if p.rule == .arrayHole then .ok none else p.node.map some
  node whole (.arrayExpression elements)

def initProperty : List Part → Except SyntaxError Built
  | [key, value] => do
    let (key, computed) ← key.key
    node whole (.property key (← value.node) .init computed false false)
  | _ => malformed whole

def methodProperty : List Part → Except SyntaxError Built
  | key :: rest => do
    let (key, computed) ← key.key
    let (params, body) ← functionParts whole rest
    let value := methodFunction params body whole.span
    node whole (.property key value .init computed false true)
  | _ => malformed whole

def shorthandProperty : List Part → Except SyntaxError Built
  | [name] => node whole (.property (nameNode name) (nameNode name) .init false true false)
  | _ => malformed whole

def propertyKey : List Part → Except SyntaxError Built
  | [key] => do .ok (.key (← key.node) (key.rule == .computedKey))
  | _ => malformed whole

def numberLiteral : Except SyntaxError Built :=
  match literalNumber? whole.pair.text with
  | some x => .ok (literalNode whole (some (.number x)))
  | none => whole.fail (.invalidNumber whole.text)

def stringLiteral (parts : List Part) : Except SyntaxError Built :=
  let raw := (parts.head?.map fun p => p.pair.text).getD []
  .ok (literalNode whole (some (.string (String.ofList (Escape.resolve raw)))))

def templateLiteral (parts : List Part) : Except SyntaxError Built := do
  let (quasis, expressions) ← templateParts none parts
  node whole (.templateLiteral quasis expressions)

end Assemble

open Assemble in
/-- The node or part that a rule makes of the parts inside it, in the order in which they are
asked for. -/
def assemble (whole : Part) (parts : List Part) : Except SyntaxError Built :=
  match whole.rule with
  | .program => listed whole .program parts
  | .block => listed whole .blockStatement parts
  | .emptyStatement => node whole .emptyStatement
  | .debuggerStatement => node whole .debuggerStatement
  | .expressionStatement => single whole .expressionStatement parts
  | .variableDeclaration => variableDeclaration whole parts
  | .variableDeclarator => variableDeclarator whole parts
  | .ifStatement => ifStatement whole parts
  | .whileStatement => whileStatement whole parts
  | .forInStatement => loop whole .forInStatement parts
  | .forOfStatement => loop whole .forOfStatement parts
  | .forDeclaration => forDeclaration whole parts
  | .forStatement => forStatement whole parts
  | .returnStatement => returnStatement whole parts
  | .throwStatement => single whole .throwStatement parts
  | .breakStatement => jump whole .breakStatement parts
  | .continueStatement => jump whole .continueStatement parts
  | .tryStatement => tryStatement whole parts
  | .catchClause => catchClause whole parts
  | .functionDeclaration => function whole .functionDeclaration parts
  | .functionExpression => function whole .functionExpression parts
  | .parameters | .callArguments => do .ok (.nodes (← nodesOf parts))
  | .arrowFunction => arrowFunction whole parts
  | .arrowParameters => arrowParameters parts
  | .classDeclaration => classDeclaration whole parts
  | .classBody => listed whole .classBody parts
  | .classMember => classMember whole parts
  | .bindingElement => bindingElement whole parts
  | .objectPattern => listed whole .objectPattern parts
  | .patternProperty => patternProperty whole parts
  | .expression => expression whole parts
  | .assignment => assignment whole parts
  | .conditional => conditional whole parts
  | .logicalOr | .logicalAnd | .bitwiseOr | .bitwiseXor | .bitwiseAnd | .equality | .relational
  | .shift | .additive | .multiplicative | .exponent => operation whole parts
  | .unary => unary whole parts
  | .postfixed => postfixed whole parts
  | .memberChain | .newTarget => suffixed whole parts
  | .newExpression => newExpression whole parts
  | .staticMember | .computedMember | .parenthesized | .computedKey | .finallyClause
  | .classHeritage | .forInit | .forTest | .forUpdate | .templateSubstitution => pass whole parts
  | .thisExpression => node whole .thisExpression
  | .arrayLiteral => arrayLiteral whole parts
  | .objectLiteral => listed whole .objectExpression parts
  | .initProperty => initProperty whole parts
  | .methodProperty => methodProperty whole parts
  | .shorthandProperty => shorthandProperty whole parts
  | .propertyKey => propertyKey whole parts
  | .nullLiteral => .ok (literalNode whole none)
  | .booleanLiteral => .ok (literalNode whole (some (.bool (whole.text == "true"))))
  | .numberLiteral => numberLiteral whole
  | .stringLiteral => stringLiteral whole parts
  | .templateLiteral => templateLiteral whole parts
  | .identifier | .propertyName => .ok (.node (nameNode whole))
  | _ => .ok .token

mutual

/-- Builds a match from the inside out. -/
def build : Pair Rule → Except SyntaxError Built
  | .mk rule start stop inner =>
    let whole : Part := ⟨.mk rule start stop inner, .ok .token⟩
    assemble whole ((buildInner inner).filter fun p => !p.isSilent)

def buildInner : List (Pair Rule) → List Part
  | [] => []
  | p :: rest => ⟨p, build p⟩ :: buildInner rest

end

end Grammar

end EcmaMachine
