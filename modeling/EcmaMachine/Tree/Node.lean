import EcmaMachine.Json.Basic
import EcmaMachine.Tree.Operator

/-!
Script trees in the ESTree form. A node is a `Shape` of child nodes with an optional place in
the source text. `Shape` is open in the type of its children, so that it describes a node one
level at a time; `Shape.children` lists them.
-/

namespace EcmaMachine

/-- Lines count from 1 and columns from 0. -/
structure Position where
  line : Nat
  column : Nat
  deriving DecidableEq

structure Span where
  start : Position
  stop : Position
  deriving DecidableEq

/-- What a literal holds; `unsupported` is anything else that foreign trees carry. -/
inductive LiteralValue
  | bool (b : Bool)
  | number (x : Float)
  | string (s : String)
  | unsupported (json : Json)

structure Regex where
  pattern : String
  flags : String
  deriving DecidableEq

/-- The text of a template strand, with escapes resolved and as written. -/
structure Strand where
  cooked : Option String
  raw : String
  deriving DecidableEq

inductive NodeType
  | program | blockStatement | expressionStatement | emptyStatement | debuggerStatement
  | variableDeclaration | variableDeclarator | ifStatement | whileStatement | forStatement
  | forInStatement | forOfStatement | functionDeclaration | returnStatement | throwStatement
  | tryStatement | catchClause | breakStatement | continueStatement | classDeclaration | classBody
  | methodDefinition | identifier | literal | thisExpression | arrayExpression | objectExpression
  | property | functionExpression | arrowFunctionExpression | memberExpression | callExpression
  | newExpression | assignmentExpression | updateExpression | unaryExpression | binaryExpression
  | logicalExpression | conditionalExpression | sequenceExpression | templateLiteral
  | templateElement | objectPattern | assignmentPattern
  deriving DecidableEq

namespace NodeType

def name : NodeType → String
  | .program => "Program"
  | .blockStatement => "BlockStatement"
  | .expressionStatement => "ExpressionStatement"
  | .emptyStatement => "EmptyStatement"
  | .debuggerStatement => "DebuggerStatement"
  | .variableDeclaration => "VariableDeclaration"
  | .variableDeclarator => "VariableDeclarator"
  | .ifStatement => "IfStatement"
  | .whileStatement => "WhileStatement"
  | .forStatement => "ForStatement"
  | .forInStatement => "ForInStatement"
  | .forOfStatement => "ForOfStatement"
  | .functionDeclaration => "FunctionDeclaration"
  | .returnStatement => "ReturnStatement"
  | .throwStatement => "ThrowStatement"
  | .tryStatement => "TryStatement"
  | .catchClause => "CatchClause"
  | .breakStatement => "BreakStatement"
  | .continueStatement => "ContinueStatement"
  | .classDeclaration => "ClassDeclaration"
  | .classBody => "ClassBody"
  | .methodDefinition => "MethodDefinition"
  | .identifier => "Identifier"
  | .literal => "Literal"
  | .thisExpression => "ThisExpression"
  | .arrayExpression => "ArrayExpression"
  | .objectExpression => "ObjectExpression"
  | .property => "Property"
  | .functionExpression => "FunctionExpression"
  | .arrowFunctionExpression => "ArrowFunctionExpression"
  | .memberExpression => "MemberExpression"
  | .callExpression => "CallExpression"
  | .newExpression => "NewExpression"
  | .assignmentExpression => "AssignmentExpression"
  | .updateExpression => "UpdateExpression"
  | .unaryExpression => "UnaryExpression"
  | .binaryExpression => "BinaryExpression"
  | .logicalExpression => "LogicalExpression"
  | .conditionalExpression => "ConditionalExpression"
  | .sequenceExpression => "SequenceExpression"
  | .templateLiteral => "TemplateLiteral"
  | .templateElement => "TemplateElement"
  | .objectPattern => "ObjectPattern"
  | .assignmentPattern => "AssignmentPattern"

def all : List NodeType :=
  [.program, .blockStatement, .expressionStatement, .emptyStatement, .debuggerStatement,
    .variableDeclaration, .variableDeclarator, .ifStatement, .whileStatement, .forStatement,
    .forInStatement, .forOfStatement, .functionDeclaration, .returnStatement, .throwStatement,
    .tryStatement, .catchClause, .breakStatement, .continueStatement, .classDeclaration,
    .classBody, .methodDefinition, .identifier, .literal, .thisExpression, .arrayExpression,
    .objectExpression, .property, .functionExpression, .arrowFunctionExpression,
    .memberExpression, .callExpression, .newExpression, .assignmentExpression,
    .updateExpression, .unaryExpression, .binaryExpression, .logicalExpression,
    .conditionalExpression, .sequenceExpression, .templateLiteral, .templateElement,
    .objectPattern, .assignmentPattern]

def ofName? (s : String) : Option NodeType := all.find? (·.name == s)

end NodeType

/-- One level of a tree over children of type `ν`. -/
inductive Shape (ν : Type)
  | program (body : List ν)
  | blockStatement (body : List ν)
  | expressionStatement (expression : ν)
  | emptyStatement
  | debuggerStatement
  | variableDeclaration (declarations : List ν) (kind : VariableKind)
  | variableDeclarator (id : ν) (init : Option ν)
  | ifStatement (test consequent : ν) (alternate : Option ν)
  | whileStatement (test body : ν)
  | forStatement (init test update : Option ν) (body : ν)
  | forInStatement (left right body : ν)
  | forOfStatement (left right body : ν)
  | functionDeclaration (id : Option ν) (params : List ν) (body : ν) (generator isAsync : Bool)
  | returnStatement (argument : Option ν)
  | throwStatement (argument : ν)
  | tryStatement (block : ν) (handler finalizer : Option ν)
  | catchClause (param : Option ν) (body : ν)
  | breakStatement (label : Option ν)
  | continueStatement (label : Option ν)
  | classDeclaration (id superClass : Option ν) (body : ν)
  | classBody (body : List ν)
  | methodDefinition (key value : ν) (kind : MethodKind) (computed isStatic : Bool)
  | identifier (name : String)
  | literal (value : Option LiteralValue) (raw : Option String) (regex : Option Regex)
  | thisExpression
  | arrayExpression (elements : List (Option ν))
  | objectExpression (properties : List ν)
  | property (key value : ν) (kind : PropertyKind) (computed shorthand method : Bool)
  | functionExpression (id : Option ν) (params : List ν) (body : ν) (generator isAsync : Bool)
  | arrowFunctionExpression (params : List ν) (body : ν) (expression isAsync : Bool)
  | memberExpression (object property : ν) (computed : Bool)
  | callExpression (callee : ν) (arguments : List ν)
  | newExpression (callee : ν) (arguments : List ν)
  | assignmentExpression (operator : AssignOp) (left right : ν)
  | updateExpression (operator : UpdateOp) (argument : ν) (before : Bool)
  | unaryExpression (operator : UnaryOp) (argument : ν) (before : Bool)
  | binaryExpression (operator : BinaryOp) (left right : ν)
  | logicalExpression (operator : LogicalOp) (left right : ν)
  | conditionalExpression (test consequent alternate : ν)
  | sequenceExpression (expressions : List ν)
  | templateLiteral (quasis expressions : List ν)
  | templateElement (value : Strand) (tail : Bool)
  | objectPattern (properties : List ν)
  | assignmentPattern (left right : ν)

namespace Shape

variable {ν μ : Type}

def type : Shape ν → NodeType
  | .program .. => .program
  | .blockStatement .. => .blockStatement
  | .expressionStatement .. => .expressionStatement
  | .emptyStatement => .emptyStatement
  | .debuggerStatement => .debuggerStatement
  | .variableDeclaration .. => .variableDeclaration
  | .variableDeclarator .. => .variableDeclarator
  | .ifStatement .. => .ifStatement
  | .whileStatement .. => .whileStatement
  | .forStatement .. => .forStatement
  | .forInStatement .. => .forInStatement
  | .forOfStatement .. => .forOfStatement
  | .functionDeclaration .. => .functionDeclaration
  | .returnStatement .. => .returnStatement
  | .throwStatement .. => .throwStatement
  | .tryStatement .. => .tryStatement
  | .catchClause .. => .catchClause
  | .breakStatement .. => .breakStatement
  | .continueStatement .. => .continueStatement
  | .classDeclaration .. => .classDeclaration
  | .classBody .. => .classBody
  | .methodDefinition .. => .methodDefinition
  | .identifier .. => .identifier
  | .literal .. => .literal
  | .thisExpression => .thisExpression
  | .arrayExpression .. => .arrayExpression
  | .objectExpression .. => .objectExpression
  | .property .. => .property
  | .functionExpression .. => .functionExpression
  | .arrowFunctionExpression .. => .arrowFunctionExpression
  | .memberExpression .. => .memberExpression
  | .callExpression .. => .callExpression
  | .newExpression .. => .newExpression
  | .assignmentExpression .. => .assignmentExpression
  | .updateExpression .. => .updateExpression
  | .unaryExpression .. => .unaryExpression
  | .binaryExpression .. => .binaryExpression
  | .logicalExpression .. => .logicalExpression
  | .conditionalExpression .. => .conditionalExpression
  | .sequenceExpression .. => .sequenceExpression
  | .templateLiteral .. => .templateLiteral
  | .templateElement .. => .templateElement
  | .objectPattern .. => .objectPattern
  | .assignmentPattern .. => .assignmentPattern

/-- The children, slot by slot in the order of the constructor's fields. -/
def children : Shape ν → List ν
  | .program body => body
  | .blockStatement body => body
  | .expressionStatement expression => [expression]
  | .emptyStatement => []
  | .debuggerStatement => []
  | .variableDeclaration declarations _ => declarations
  | .variableDeclarator id init => id :: init.toList
  | .ifStatement test consequent alternate => test :: consequent :: alternate.toList
  | .whileStatement test body => [test, body]
  | .forStatement init test update body => init.toList ++ test.toList ++ update.toList ++ [body]
  | .forInStatement left right body => [left, right, body]
  | .forOfStatement left right body => [left, right, body]
  | .functionDeclaration id params body _ _ => id.toList ++ params ++ [body]
  | .returnStatement argument => argument.toList
  | .throwStatement argument => [argument]
  | .tryStatement block handler finalizer => block :: (handler.toList ++ finalizer.toList)
  | .catchClause param body => param.toList ++ [body]
  | .breakStatement label => label.toList
  | .continueStatement label => label.toList
  | .classDeclaration id superClass body => id.toList ++ superClass.toList ++ [body]
  | .classBody body => body
  | .methodDefinition key value _ _ _ => [key, value]
  | .identifier _ => []
  | .literal _ _ _ => []
  | .thisExpression => []
  | .arrayExpression elements => elements.filterMap id
  | .objectExpression properties => properties
  | .property key value _ _ _ _ => [key, value]
  | .functionExpression id params body _ _ => id.toList ++ params ++ [body]
  | .arrowFunctionExpression params body _ _ => params ++ [body]
  | .memberExpression object key _ => [object, key]
  | .callExpression callee arguments => callee :: arguments
  | .newExpression callee arguments => callee :: arguments
  | .assignmentExpression _ left right => [left, right]
  | .updateExpression _ argument _ => [argument]
  | .unaryExpression _ argument _ => [argument]
  | .binaryExpression _ left right => [left, right]
  | .logicalExpression _ left right => [left, right]
  | .conditionalExpression test consequent alternate => [test, consequent, alternate]
  | .sequenceExpression expressions => expressions
  | .templateLiteral quasis expressions => quasis ++ expressions
  | .templateElement _ _ => []
  | .objectPattern properties => properties
  | .assignmentPattern left right => [left, right]

end Shape

inductive Node
  | mk (shape : Shape Node) (loc : Option Span)

namespace Node

def shape : Node → Shape Node
  | .mk shape _ => shape

def loc : Node → Option Span
  | .mk _ loc => loc

def type (n : Node) : NodeType := n.shape.type

def children (n : Node) : List Node := n.shape.children

/-- The name of an identifier; `none` for any other node. -/
def identifierName? (n : Node) : Option String :=
  match n.shape with
  | .identifier name => some name
  | _ => none

instance : Inhabited Node := ⟨.mk .emptyStatement none⟩

end Node

end EcmaMachine
