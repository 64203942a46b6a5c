import EcmaMachine.Tree.Node

/-!
Trees as JSON. `type` stands first, then the fields in their fixed order, `loc` last. A place, the
raw text and a regular expression are left out when absent; every other absent field is null.
-/

namespace EcmaMachine

def Position.encode (p : Position) : Json :=
  .object [("line", .int p.line), ("column", .int p.column)]

def Span.encode (s : Span) : Json :=
  .object [("start", s.start.encode), ("end", s.stop.encode)]

def LiteralValue.encode : LiteralValue → Json
  | .bool b => .bool b
  | .number x => .float x
  | .string s => .string s
  | .unsupported json => json

def Regex.encode (r : Regex) : Json :=
  .object [("pattern", .string r.pattern), ("flags", .string r.flags)]

def Strand.encode (s : Strand) : Json :=
  .object [("cooked", s.cooked.elim .null .string), ("raw", .string s.raw)]

namespace Node

mutual

def encode : Node → Json
  | .mk shape loc =>
    .object (("type", .string shape.type.name) ::
      (encodeShape shape ++ (loc.map fun span => ("loc", span.encode)).toList))

def encodeShape : Shape Node → List (String × Json)
  | .program body => [("body", .array (encodeList body))]
  | .blockStatement body => [("body", .array (encodeList body))]
  | .expressionStatement expression => [("expression", encode expression)]
  | .emptyStatement => []
  | .debuggerStatement => []
  | .variableDeclaration declarations kind =>
    [("declarations", .array (encodeList declarations)), ("kind", .string kind.symbol)]
  | .variableDeclarator id init => [("id", encode id), ("init", encodeOption init)]
  | .ifStatement test consequent alternate =>
    [("test", encode test), ("consequent", encode consequent),
      ("alternate", encodeOption alternate)]
  | .whileStatement test body => [("test", encode test), ("body", encode body)]
  | .forStatement init test update body =>
    [("init", encodeOption init), ("test", encodeOption test), ("update", encodeOption update),
      ("body", encode body)]
  | .forInStatement left right body =>
    [("left", encode left), ("right", encode right), ("body", encode body)]
  | .forOfStatement left right body =>
    [("left", encode left), ("right", encode right), ("body", encode body)]
  | .functionDeclaration id params body generator isAsync =>
    [("id", encodeOption id), ("params", .array (encodeList params)), ("body", encode body),
      ("generator", .bool generator), ("async", .bool isAsync)]
  | .returnStatement argument => [("argument", encodeOption argument)]
  | .throwStatement argument => [("argument", encode argument)]
  | .tryStatement block handler finalizer =>
    [("block", encode block), ("handler", encodeOption handler),
      ("finalizer", encodeOption finalizer)]
  | .catchClause param body => [("param", encodeOption param), ("body", encode body)]
  | .breakStatement label => [("label", encodeOption label)]
  | .continueStatement label => [("label", encodeOption label)]
  | .classDeclaration id superClass body =>
    [("id", encodeOption id), ("superClass", encodeOption superClass), ("body", encode body)]
  | .classBody body => [("body", .array (encodeList body))]
  | .methodDefinition key value kind computed isStatic =>
    [("key", encode key), ("value", encode value), ("kind", .string kind.symbol),
      ("computed", .bool computed), ("static", .bool isStatic)]
  | .identifier name => [("name", .string name)]
  | .literal value raw regex =>
    ("value", value.elim .null LiteralValue.encode) ::
      ((raw.map fun text => ("raw", .string text)).toList ++
        (regex.map fun r => ("regex", r.encode)).toList)
  | .thisExpression => []
  | .arrayExpression elements => [("elements", .array (encodeOptions elements))]
  | .objectExpression properties => [("properties", .array (encodeList properties))]
  | .property key value kind computed shorthand method =>
    [("key", encode key), ("value", encode value), ("kind", .string kind.symbol),
      ("computed", .bool computed), ("shorthand", .bool shorthand), ("method", .bool method)]
  | .functionExpression id params body generator isAsync =>
    [("id", encodeOption id), ("params", .array (encodeList params)), ("body", encode body),
      ("generator", .bool generator), ("async", .bool isAsync)]
  | .arrowFunctionExpression params body expression isAsync =>
    [("params", .array (encodeList params)), ("body", encode body),
      ("expression", .bool expression), ("async", .bool isAsync)]
  | .memberExpression object key computed =>
    [("object", encode object), ("property", encode key), ("computed", .bool computed)]
  | .callExpression callee arguments =>
    [("callee", encode callee), ("arguments", .array (encodeList arguments))]
  | .newExpression callee arguments =>
    [("callee", encode callee), ("arguments", .array (encodeList arguments))]
  | .assignmentExpression operator left right =>
    [("operator", .string operator.symbol), ("left", encode left), ("right", encode right)]
  | .updateExpression operator argument before =>
    [("operator", .string operator.symbol), ("argument", encode argument),
      ("prefix", .bool before)]
  | .unaryExpression operator argument before =>
    [("operator", .string operator.symbol), ("argument", encode argument),
      ("prefix", .bool before)]
  | .binaryExpression operator left right =>
    [("operator", .string operator.symbol), ("left", encode left), ("right", encode right)]
  | .logicalExpression operator left right =>
    [("operator", .string operator.symbol), ("left", encode left), ("right", encode right)]
  | .conditionalExpression test consequent alternate =>
    [("test", encode test), ("consequent", encode consequent), ("alternate", encode alternate)]
  | .sequenceExpression expressions => [("expressions", .array (encodeList expressions))]
  | .templateLiteral quasis expressions =>
    [("quasis", .array (encodeList quasis)), ("expressions", .array (encodeList expressions))]
  | .templateElement value tail => [("value", value.encode), ("tail", .bool tail)]
  | .objectPattern properties => [("properties", .array (encodeList properties))]
  | .assignmentPattern left right => [("left", encode left), ("right", encode right)]

def encodeOption : Option Node → Json
  | none => .null
  | some n => encode n

def encodeList : List Node → List Json
  | [] => []
  | n :: rest => encode n :: encodeList rest

def encodeOptions : List (Option Node) → List Json
  | [] => []
  | n :: rest => encodeOption n :: encodeOptions rest

end

end Node

end EcmaMachine
