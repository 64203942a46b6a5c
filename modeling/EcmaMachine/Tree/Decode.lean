import EcmaMachine.Json.Misfit
import EcmaMachine.Tree.Node

/-!
Trees from JSON. A node's place is read first, then its type, then the fields of that type in
the order they stand in, children included; the first that does not fit is reported. Fields that
are absent are looked for last, in the type's own order. Unknown fields do not count.
-/

namespace EcmaMachine

open Json (Misfit)

/-- Where a record stands: as a part of the JSON that is read, or of a node inside it. Records
that are too long are refused in other words there. -/
inductive RecordPlace
  | outer | inner

def RecordPlace.surplus (place : RecordPlace) (count : Nat) : String :=
  match place with
  | .outer => "fewer elements in array"
  | .inner => toString count ++ " elements in sequence"

/-- Reads a record given by name or by position. The fields present are checked in the order
they stand in; `build` sees only those of the record. By position, too, a field of `optional`
may be absent. -/
def decodeRecord {α : Type} (place : RecordPlace) (name : String)
    (keys optional : List String) (check : String → Json → Except Misfit Unit)
    (build : List (String × Json) → Except Misfit α) : Json → Except Misfit α
  | .object fields => do
    fields.forM fun (k, j) => if keys.contains k then check k j else .ok ()
    build fields
  | .array items => do
    let fields := keys.zip items
    fields.forM fun (k, j) => check k j
    match (keys.drop items.length).findIdx? fun k => !optional.contains k with
    | some i =>
      .error (.wrongLength (items.length + i)
        ("struct " ++ name ++ " with " ++ toString keys.length ++ " elements"))
    | none =>
      if keys.length < items.length then
        .error (.wrongLength items.length (place.surplus keys.length))
      else build fields
  | j => j.misfit ("struct " ++ name)

def Position.decode (place : RecordPlace) : Json → Except Misfit Position :=
  decodeRecord place "Position" ["line", "column"] []
    (fun _ j => j.asSize.map fun _ => ())
    (fun fields => do
      let line ← (← Json.required fields "line").asSize
      let column ← (← Json.required fields "column").asSize
      .ok ⟨line, column⟩)

def Span.decode (place : RecordPlace) : Json → Except Misfit Span :=
  decodeRecord place "SourceLocation" ["start", "end"] []
    (fun _ j => (Position.decode place j).map fun _ => ())
    (fun fields => do
      let start ← Position.decode place (← Json.required fields "start")
      let stop ← Position.decode place (← Json.required fields "end")
      .ok ⟨start, stop⟩)

def LiteralValue.decode : Json → Option LiteralValue
  | .null => none
  | .bool b => some (.bool b)
  | .int n => some (.number (Float.ofInt n))
  | .float x => some (.number x)
  | .string s => some (.string s)
  | j => some (.unsupported j)

def Regex.decode : Json → Except Misfit Regex :=
  decodeRecord .inner "RegexLiteral" ["pattern", "flags"] ["flags"]
    (fun _ j => j.asString.map fun _ => ())
    (fun fields => do
      let pattern ← (← Json.required fields "pattern").asString
      let flags ← ((Json.lookup "flags" fields).getD (.string "")).asString
      .ok ⟨pattern, flags⟩)

def cookedText : Json → Except Misfit (Option String)
  | .null => .ok none
  | j => j.asString.map some

def Strand.decode : Json → Except Misfit Strand :=
  decodeRecord .inner "TemplateValue" ["cooked", "raw"] ["cooked"]
    (fun k j => if k == "cooked" then (cookedText j).map fun _ => ()
      else j.asString.map fun _ => ())
    (fun fields => do
      let cooked ← cookedText ((Json.lookup "cooked" fields).getD .null)
      let raw ← (← Json.required fields "raw").asString
      .ok ⟨cooked, raw⟩)

/-- What a field of a node holds. -/
inductive FieldType
  | node
  | maybeNode
  | nodes
  | maybeNodes
  | flag
  | text
  | variableKind
  | methodKind
  | propertyKind
  | binaryOp
  | logicalOp
  | unaryOp
  | updateOp
  | assignOp
  | literalValue
  | rawText
  | regex
  | strand
  deriving DecidableEq

/-- The fields that count in a node of each type. -/
def NodeType.fields : NodeType → List (String × FieldType)
  | .program => [("body", .nodes)]
  | .blockStatement => [("body", .nodes)]
  | .expressionStatement => [("expression", .node)]
  | .emptyStatement => []
  | .debuggerStatement => []
  | .variableDeclaration => [("declarations", .nodes), ("kind", .variableKind)]
  | .variableDeclarator => [("id", .node), ("init", .maybeNode)]
  | .ifStatement => [("test", .node), ("consequent", .node), ("alternate", .maybeNode)]
  | .whileStatement => [("test", .node), ("body", .node)]
  | .forStatement =>
    [("init", .maybeNode), ("test", .maybeNode), ("update", .maybeNode), ("body", .node)]
  | .forInStatement => [("left", .node), ("right", .node), ("body", .node)]
  | .forOfStatement => [("left", .node), ("right", .node), ("body", .node)]
  | .functionDeclaration =>
    [("id", .maybeNode), ("params", .nodes), ("body", .node), ("generator", .flag),
      ("async", .flag)]
  | .returnStatement => [("argument", .maybeNode)]
  | .throwStatement => [("argument", .node)]
  | .tryStatement => [("block", .node), ("handler", .maybeNode), ("finalizer", .maybeNode)]
  | .catchClause => [("param", .maybeNode), ("body", .node)]
  | .breakStatement => [("label", .maybeNode)]
  | .continueStatement => [("label", .maybeNode)]
  | .classDeclaration => [("id", .maybeNode), ("superClass", .maybeNode), ("body", .node)]
  | .classBody => [("body", .nodes)]
  | .methodDefinition =>
    [("key", .node), ("value", .node), ("kind", .methodKind), ("computed", .flag),
      ("static", .flag)]
  | .identifier => [("name", .text)]
  | .literal => [("value", .literalValue), ("raw", .rawText), ("regex", .regex)]
  | .thisExpression => []
  | .arrayExpression => [("elements", .maybeNodes)]
  | .objectExpression => [("properties", .nodes)]
  | .property =>
    [("key", .node), ("value", .node), ("kind", .propertyKind), ("computed", .flag),
      ("shorthand", .flag), ("method", .flag)]
  | .functionExpression =>
    [("id", .maybeNode), ("params", .nodes), ("body", .node), ("generator", .flag),
      ("async", .flag)]
  | .arrowFunctionExpression =>
    [("params", .nodes), ("body", .node), ("expression", .flag), ("async", .flag)]
  | .memberExpression => [("object", .node), ("property", .node), ("computed", .flag)]
  | .callExpression => [("callee", .node), ("arguments", .nodes)]
  | .newExpression => [("callee", .node), ("arguments", .nodes)]
  | .assignmentExpression => [("operator", .assignOp), ("left", .node), ("right", .node)]
  | .updateExpression => [("operator", .updateOp), ("argument", .node), ("prefix", .flag)]
  | .unaryExpression => [("operator", .unaryOp), ("argument", .node), ("prefix", .flag)]
  | .binaryExpression => [("operator", .binaryOp), ("left", .node), ("right", .node)]
  | .logicalExpression => [("operator", .logicalOp), ("left", .node), ("right", .node)]
  | .conditionalExpression => [("test", .node), ("consequent", .node), ("alternate", .node)]
  | .sequenceExpression => [("expressions", .nodes)]
  | .templateLiteral => [("quasis", .nodes), ("expressions", .nodes)]
  | .templateElement => [("value", .strand), ("tail", .flag)]
  | .objectPattern => [("properties", .nodes)]
  | .assignmentPattern => [("left", .node), ("right", .node)]

/-- A field that has been read. -/
inductive FieldValue
  | node (n : Node)
  | maybeNode (n : Option Node)
  | nodes (ns : List Node)
  | maybeNodes (ns : List (Option Node))
  | flag (b : Bool)
  | text (s : String)
  | variableKind (k : VariableKind)
  | methodKind (k : MethodKind)
  | propertyKind (k : PropertyKind)
  | binaryOp (o : BinaryOp)
  | logicalOp (o : LogicalOp)
  | unaryOp (o : UnaryOp)
  | updateOp (o : UpdateOp)
  | assignOp (o : AssignOp)
  | literalValue (v : Option LiteralValue)
  | rawText (s : Option String)
  | regex (r : Option Regex)
  | strand (s : Strand)

/-- The fields of one node that have been read, by name. -/
abbrev FieldValues := List (String × FieldValue)

namespace FieldValues

def get? (fs : FieldValues) (key : String) : Option FieldValue :=
  (fs.find? (·.1 == key)).map (·.2)

/-- A required field, seen through one of the constructors of `FieldValue`. -/
def need {α : Type} (fs : FieldValues) (view : FieldValue → Option α) (key : String) :
    Except Misfit α :=
  match (fs.get? key).bind view with
  | some a => .ok a
  | none => .error (.missing key)

def node (fs : FieldValues) : String → Except Misfit Node :=
  fs.need fun
    | .node n => some n
    | _ => none

def nodes (fs : FieldValues) : String → Except Misfit (List Node) :=
  fs.need fun
    | .nodes ns => some ns
    | _ => none

def maybeNodes (fs : FieldValues) : String → Except Misfit (List (Option Node)) :=
  fs.need fun
    | .maybeNodes ns => some ns
    | _ => none

def maybeNode (fs : FieldValues) (key : String) : Option Node :=
  match fs.get? key with
  | some (.maybeNode n) => n
  | _ => none

def flag (fs : FieldValues) (key : String) (absent : Bool) : Bool :=
  match fs.get? key with
  | some (.flag b) => b
  | _ => absent

end FieldValues

/-- The shape of a node from the fields read; only absent fields can be at fault here. -/
def NodeType.build (type : NodeType) (fs : FieldValues) : Except Misfit (Shape Node) :=
  match type with
  | .program => do .ok (.program (← fs.nodes "body"))
  | .blockStatement => do .ok (.blockStatement (← fs.nodes "body"))
  | .expressionStatement => do .ok (.expressionStatement (← fs.node "expression"))
  | .emptyStatement => .ok .emptyStatement
  | .debuggerStatement => .ok .debuggerStatement
  | .variableDeclaration => do
    let declarations ← fs.nodes "declarations"
    let kind ← fs.need (fun | .variableKind k => some k | _ => none) "kind"
    .ok (.variableDeclaration declarations kind)
  | .variableDeclarator => do .ok (.variableDeclarator (← fs.node "id") (fs.maybeNode "init"))
  | .ifStatement => do
    let test ← fs.node "test"
    let consequent ← fs.node "consequent"
    .ok (.ifStatement test consequent (fs.maybeNode "alternate"))
  | .whileStatement => do
    let test ← fs.node "test"
    let body ← fs.node "body"
    .ok (.whileStatement test body)
  | .forStatement => do
    let body ← fs.node "body"
    .ok (.forStatement (fs.maybeNode "init") (fs.maybeNode "test") (fs.maybeNode "update") body)
  | .forInStatement => do
    let left ← fs.node "left"
    let right ← fs.node "right"
    let body ← fs.node "body"
    .ok (.forInStatement left right body)
  | .forOfStatement => do
    let left ← fs.node "left"
    let right ← fs.node "right"
    let body ← fs.node "body"
    .ok (.forOfStatement left right body)
  | .functionDeclaration => do
    let params ← fs.nodes "params"
    let body ← fs.node "body"
    .ok (.functionDeclaration (fs.maybeNode "id") params body (fs.flag "generator" false)
      (fs.flag "async" false))
  | .returnStatement => .ok (.returnStatement (fs.maybeNode "argument"))
  | .throwStatement => do .ok (.throwStatement (← fs.node "argument"))
  | .tryStatement => do
    let block ← fs.node "block"
    .ok (.tryStatement block (fs.maybeNode "handler") (fs.maybeNode "finalizer"))
  | .catchClause => do .ok (.catchClause (fs.maybeNode "param") (← fs.node "body"))
  | .breakStatement => .ok (.breakStatement (fs.maybeNode "label"))
  | .continueStatement => .ok (.continueStatement (fs.maybeNode "label"))
  | .classDeclaration => do
    let body ← fs.node "body"
    .ok (.classDeclaration (fs.maybeNode "id") (fs.maybeNode "superClass") body)
  | .classBody => do .ok (.classBody (← fs.nodes "body"))
  | .methodDefinition => do
    let key ← fs.node "key"
    let value ← fs.node "value"
    let kind ← fs.need (fun | .methodKind k => some k | _ => none) "kind"
    .ok (.methodDefinition key value kind (fs.flag "computed" false) (fs.flag "static" false))
  | .identifier => do
    .ok (.identifier (← fs.need (fun | .text s => some s | _ => none) "name"))
  | .literal =>
    let value := match fs.get? "value" with
      | some (.literalValue v) => v
      | _ => none
    let raw := match fs.get? "raw" with
      | some (.rawText s) => s
      | _ => none
    let regex := match fs.get? "regex" with
      | some (.regex r) => r
      | _ => none
    .ok (.literal value raw regex)
  | .thisExpression => .ok .thisExpression
  | .arrayExpression => do .ok (.arrayExpression (← fs.maybeNodes "elements"))
  | .objectExpression => do .ok (.objectExpression (← fs.nodes "properties"))
  | .property => do
    let key ← fs.node "key"
    let value ← fs.node "value"
    let kind := match fs.get? "kind" with
      | some (.propertyKind k) => k
      | _ => .init
    .ok (.property key value kind (fs.flag "computed" false) (fs.flag "shorthand" false)
      (fs.flag "method" false))
  | .functionExpression => do
    let params ← fs.nodes "params"
    let body ← fs.node "body"
    .ok (.functionExpression (fs.maybeNode "id") params body (fs.flag "generator" false)
      (fs.flag "async" false))
  | .arrowFunctionExpression => do
    let params ← fs.nodes "params"
    let body ← fs.node "body"
    .ok (.arrowFunctionExpression params body (fs.flag "expression" false)
      (fs.flag "async" false))
  | .memberExpression => do
    let object ← fs.node "object"
    let property ← fs.node "property"
    .ok (.memberExpression object property (fs.flag "computed" false))
  | .callExpression => do
    let callee ← fs.node "callee"
    let arguments ← fs.nodes "arguments"
    .ok (.callExpression callee arguments)
  | .newExpression => do
    let callee ← fs.node "callee"
    let arguments := match fs.get? "arguments" with
      | some (.nodes ns) => ns
      | _ => []
    .ok (.newExpression callee arguments)
  | .assignmentExpression => do
    let operator ← fs.need (fun | .assignOp o => some o | _ => none) "operator"
    let left ← fs.node "left"
    let right ← fs.node "right"
    .ok (.assignmentExpression operator left right)
  | .updateExpression => do
    let operator ← fs.need (fun | .updateOp o => some o | _ => none) "operator"
    let argument ← fs.node "argument"
    let before ← fs.need (fun | .flag b => some b | _ => none) "prefix"
    .ok (.updateExpression operator argument before)
  | .unaryExpression => do
    let operator ← fs.need (fun | .unaryOp o => some o | _ => none) "operator"
    let argument ← fs.node "argument"
    .ok (.unaryExpression operator argument (fs.flag "prefix" true))
  | .binaryExpression => do
    let operator ← fs.need (fun | .binaryOp o => some o | _ => none) "operator"
    let left ← fs.node "left"
    let right ← fs.node "right"
    .ok (.binaryExpression operator left right)
  | .logicalExpression => do
    let operator ← fs.need (fun | .logicalOp o => some o | _ => none) "operator"
    let left ← fs.node "left"
    let right ← fs.node "right"
    .ok (.logicalExpression operator left right)
  | .conditionalExpression => do
    let test ← fs.node "test"
    let consequent ← fs.node "consequent"
    let alternate ← fs.node "alternate"
    .ok (.conditionalExpression test consequent alternate)
  | .sequenceExpression => do .ok (.sequenceExpression (← fs.nodes "expressions"))
  | .templateLiteral => do
    let quasis ← fs.nodes "quasis"
    let expressions ← fs.nodes "expressions"
    .ok (.templateLiteral quasis expressions)
  | .templateElement => do
    let value ← fs.need (fun | .strand s => some s | _ => none) "value"
    .ok (.templateElement value (fs.flag "tail" false))
  | .objectPattern => do .ok (.objectPattern (← fs.nodes "properties"))
  | .assignmentPattern => do
    let left ← fs.node "left"
    let right ← fs.node "right"
    .ok (.assignmentPattern left right)

/-- The type of a node, by name or by its number in the list of types. -/
def decodeType (fields : List (String × Json)) : Except Misfit NodeType := do
  match ← Json.required fields "type" with
  | .string name =>
    match NodeType.ofName? name with
    | some type => .ok type
    | none => .error (.unknownVariant name (NodeType.all.map NodeType.name))
  | .int n =>
    if n < 0 then Json.misfit (.int n) "variant identifier"
    else
      match NodeType.all[n.toNat]? with
      | some type => .ok type
      | none => .error (.wrongValue (Json.describe (.int n))
          ("variant index 0 <= i < " ++ toString NodeType.all.length))
  | j => j.misfit "variant identifier"

def decodeLoc (place : RecordPlace) (fields : List (String × Json)) :
    Except Misfit (Option Span) :=
  match Json.lookup "loc" fields with
  | none => .ok none
  | some .null => .ok none
  | some j => (Span.decode place j).map some

def symbols {α : Type} (symbol : α → String) (all : List α) : List (String × α) :=
  all.map fun a => (symbol a, a)

/-- Reads a field that holds no node. -/
def decodeLeaf (type : FieldType) (j : Json) : Except Misfit FieldValue :=
  match type with
  | .flag => j.asBool.map .flag
  | .text => j.asString.map .text
  | .variableKind =>
    (j.asChoice (symbols VariableKind.symbol VariableKind.all)).map .variableKind
  | .methodKind => (j.asChoice (symbols MethodKind.symbol MethodKind.all)).map .methodKind
  | .propertyKind =>
    (j.asChoice (symbols PropertyKind.symbol PropertyKind.all)).map .propertyKind
  | .binaryOp => (j.asChoice (symbols BinaryOp.symbol BinaryOp.all)).map .binaryOp
  | .logicalOp => (j.asChoice (symbols LogicalOp.symbol LogicalOp.all)).map .logicalOp
  | .unaryOp => (j.asChoice (symbols UnaryOp.symbol UnaryOp.all)).map .unaryOp
  | .updateOp => (j.asChoice (symbols UpdateOp.symbol UpdateOp.all)).map .updateOp
  | .assignOp => (j.asChoice (symbols AssignOp.symbol AssignOp.all)).map .assignOp
  | .literalValue => .ok (.literalValue (LiteralValue.decode j))
  | .rawText =>
    match j with
    | .null => .ok (.rawText none)
    | j => j.asString.map fun s => .rawText (some s)
  | .regex =>
    match j with
    | .null => .ok (.regex none)
    | j => (Regex.decode j).map fun r => .regex (some r)
  | .strand => (Strand.decode j).map .strand
  | .node => j.misfit "struct Node"
  | .maybeNode => j.misfit "struct Node"
  | .nodes => j.misfit "a sequence"
  | .maybeNodes => j.misfit "a sequence"

namespace Node

mutual

def decodeAt (place : RecordPlace) : Json → Except Misfit Node
  | .object fields => do
    let loc ← decodeLoc place fields
    let type ← decodeType fields
    let values ← decodeFields type.fields fields
    let shape ← type.build values
    .ok (.mk shape loc)
  | .null => Json.misfit .null "struct Node"
  | .bool b => Json.misfit (.bool b) "struct Node"
  | .int n => Json.misfit (.int n) "struct Node"
  | .float x => Json.misfit (.float x) "struct Node"
  | .string s => Json.misfit (.string s) "struct Node"
  | .array items => Json.misfit (.array items) "struct Node"

def decodeFields (types : List (String × FieldType)) :
    List (String × Json) → Except Misfit FieldValues
  | [] => .ok []
  | (key, j) :: rest =>
    match types.find? (·.1 == key) with
    | none => decodeFields types rest
    | some (_, type) => do
      let value ←
        match type with
        | .node => (decodeAt .inner j).map FieldValue.node
        | .maybeNode =>
          match j with
          | .null => .ok (FieldValue.maybeNode none)
          | j => (decodeAt .inner j).map fun n => FieldValue.maybeNode (some n)
        | .nodes =>
          match j with
          | .array items => (decodeItems items).map FieldValue.nodes
          | j => j.misfit "a sequence"
        | .maybeNodes =>
          match j with
          | .array items => (decodeOptions items).map FieldValue.maybeNodes
          | j => j.misfit "a sequence"
        | type => decodeLeaf type j
      let values ← decodeFields types rest
      .ok ((key, value) :: values)

def decodeItems : List Json → Except Misfit (List Node)
  | [] => .ok []
  | j :: rest => do
    let n ← decodeAt .inner j
    let ns ← decodeItems rest
    .ok (n :: ns)

def decodeOptions : List Json → Except Misfit (List (Option Node))
  | [] => .ok []
  | j :: rest => do
    let n ←
      match j with
      | .null => .ok none
      | j => (decodeAt .inner j).map some
    let ns ← decodeOptions rest
    .ok (n :: ns)

end

def decode (j : Json) : Except Misfit Node := decodeAt .outer j

end Node

end EcmaMachine
