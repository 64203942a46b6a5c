import EcmaMachine.Grammar.Peg

/-!
The grammar of the script language. Semicolons are optional everywhere and line ends mean
nothing. A word never matches the beginning of a longer name.
-/

namespace EcmaMachine.Grammar

/-- The rules of the grammar, in the order in which a message lists them. -/
inductive Rule
  | finish | program | block | emptyStatement | expressionStatement | debuggerStatement
  | variableDeclaration | variableKind | variableDeclarator | ifStatement | whileStatement
  | forInStatement | forOfStatement | forDeclaration | forStatement | forInit | forTest
  | forUpdate | returnStatement | throwStatement | breakStatement | continueStatement
  | tryStatement | catchClause | finallyClause | functionDeclaration | functionExpression
  | parameters | asyncMarker | generatorMarker | arrowFunction | arrowParameters
  | classDeclaration | classHeritage | classBody | classMember | staticMarker | bindingElement
  | objectPattern | patternProperty | expression | assignment | conditional | logicalOr
  | logicalAnd | bitwiseOr | bitwiseXor | bitwiseAnd | equality | relational | shift | additive
  | multiplicative | exponent | unary | postfixed | assignOp | logicalOrOp | logicalAndOp
  | bitwiseOrOp | bitwiseXorOp | bitwiseAndOp | equalityOp | relationalOp | shiftOp | additiveOp
  | multiplicativeOp | exponentOp | prefixOp | postfixOp | memberChain | newExpression
  | newTarget | callArguments | staticMember | computedMember | parenthesized | thisExpression
  | arrayLiteral | arrayHole | objectLiteral | initProperty | methodProperty | shorthandProperty
  | propertyKey | computedKey | nullLiteral | booleanLiteral | numberLiteral | stringLiteral
  | doubleQuoted | singleQuoted | templateLiteral | templateChars | templateSubstitution
  | identifier | propertyName | reserved | wordBreak | wordCatch | wordClass | wordContinue
  | wordDebugger | wordElse | wordExtends | wordFinally | wordFor | wordFunction | wordIf
  | wordIn | wordNew | wordOf | wordReturn | wordThrow | wordTry | wordWhile
  deriving DecidableEq

namespace Rule

def name : Rule → String
  | .finish => "EOI"
  | .program => "program"
  | .block => "block"
  | .emptyStatement => "empty_statement"
  | .expressionStatement => "expression_statement"
  | .debuggerStatement => "debugger_statement"
  | .variableDeclaration => "variable_declaration"
  | .variableKind => "variable_kind"
  | .variableDeclarator => "variable_declarator"
  | .ifStatement => "if_statement"
  | .whileStatement => "while_statement"
  | .forInStatement => "for_in_statement"
  | .forOfStatement => "for_of_statement"
  | .forDeclaration => "for_declaration"
  | .forStatement => "for_statement"
  | .forInit => "for_init"
  | .forTest => "for_test"
  | .forUpdate => "for_update"
  | .returnStatement => "return_statement"
  | .throwStatement => "throw_statement"
  | .breakStatement => "break_statement"
  | .continueStatement => "continue_statement"
  | .tryStatement => "try_statement"
  | .catchClause => "catch_clause"
  | .finallyClause => "finally_clause"
  | .functionDeclaration => "function_declaration"
  | .functionExpression => "function_expression"
  | .parameters => "parameters"
  | .asyncMarker => "async_marker"
  | .generatorMarker => "generator_marker"
  | .arrowFunction => "arrow_function"
  | .arrowParameters => "arrow_parameters"
  | .classDeclaration => "class_declaration"
  | .classHeritage => "class_heritage"
  | .classBody => "class_body"
  | .classMember => "class_member"
  | .staticMarker => "static_marker"
  | .bindingElement => "binding_element"
  | .objectPattern => "object_pattern"
  | .patternProperty => "pattern_property"
  | .expression => "expression"
  | .assignment => "assignment"
  | .conditional => "conditional"
  | .logicalOr => "logical_or"
  | .logicalAnd => "logical_and"
  | .bitwiseOr => "bitwise_or"
  | .bitwiseXor => "bitwise_xor"
  | .bitwiseAnd => "bitwise_and"
  | .equality => "equality"
  | .relational => "relational"
  | .shift => "shift"
  | .additive => "additive"
  | .multiplicative => "multiplicative"
  | .exponent => "exponent"
  | .unary => "unary"
  | .postfixed => "postfix"
  | .assignOp => "assign_op"
  | .logicalOrOp => "logical_or_op"
  | .logicalAndOp => "logical_and_op"
  | .bitwiseOrOp => "bitwise_or_op"
  | .bitwiseXorOp => "bitwise_xor_op"
  | .bitwiseAndOp => "bitwise_and_op"
  | .equalityOp => "equality_op"
  | .relationalOp => "relational_op"
  | .shiftOp => "shift_op"
  | .additiveOp => "additive_op"
  | .multiplicativeOp => "multiplicative_op"
  | .exponentOp => "exponent_op"
  | .prefixOp => "prefix_op"
  | .postfixOp => "postfix_op"
  | .memberChain => "member_chain"
  | .newExpression => "new_expression"
  | .newTarget => "new_target"
  | .callArguments => "call_arguments"
  | .staticMember => "static_member"
  | .computedMember => "computed_member"
  | .parenthesized => "parenthesized"
  | .thisExpression => "this_expression"
  | .arrayLiteral => "array_literal"
  | .arrayHole => "array_hole"
  | .objectLiteral => "object_literal"
  | .initProperty => "init_property"
  | .methodProperty => "method_property"
  | .shorthandProperty => "shorthand_property"
  | .propertyKey => "property_key"
  | .computedKey => "computed_key"
  | .nullLiteral => "null_literal"
  | .booleanLiteral => "boolean_literal"
  | .numberLiteral => "number_literal"
  | .stringLiteral => "string_literal"
  | .doubleQuoted => "double_quoted"
  | .singleQuoted => "single_quoted"
  | .templateLiteral => "template_literal"
  | .templateChars => "template_chars"
  | .templateSubstitution => "template_substitution"
  | .identifier => "identifier"
  | .propertyName => "property_name"
  | .reserved => "reserved"
  | .wordBreak => "kw_break"
  | .wordCatch => "kw_catch"
  | .wordClass => "kw_class"
  | .wordContinue => "kw_continue"
  | .wordDebugger => "kw_debugger"
  | .wordElse => "kw_else"
  | .wordExtends => "kw_extends"
  | .wordFinally => "kw_finally"
  | .wordFor => "kw_for"
  | .wordFunction => "kw_function"
  | .wordIf => "kw_if"
  | .wordIn => "kw_in"
  | .wordNew => "kw_new"
  | .wordOf => "kw_of"
  | .wordReturn => "kw_return"
  | .wordThrow => "kw_throw"
  | .wordTry => "kw_try"
  | .wordWhile => "kw_while"

/-- The place of a rule in the grammar. -/
def order (r : Rule) : Nat := r.ctorIdx

end Rule

open Peg (call opt star ahead)

private def lit (s : String) : Peg Rule := .text s.toList

private def seqs : List (Peg Rule) → Peg Rule
  | [] => .text []
  | [e] => e
  | e :: es => .seq e (seqs es)

private def alts : List (Peg Rule) → Peg Rule
  | [] => .unless (.text [])
  | [e] => e
  | e :: es => .alt e (alts es)

private def lits (ss : List String) : Peg Rule := alts (ss.map lit)

/-- A text that none of the others follows. -/
private def litUnless (s : String) (others : List String) : Peg Rule :=
  .seq (lit s) (.unless (lits others))

/-- One or more. -/
private def some1 (e : Peg Rule) : Peg Rule := .seq e (star e)

/-- One `e`, and more of them after the separator. -/
private def listOf (e : Peg Rule) (separator : String) : Peg Rule :=
  .seq e (star (.seq (lit separator) e))

/-- One `e`, and more of them after an operator. -/
private def chainOf (e operator : Rule) : Peg Rule :=
  .seq (call e) (star (.seq (call operator) (call e)))

def isIdentStart (c : Char) : Bool := c.isAlpha || c == '_' || c == '$'

def isIdentChar (c : Char) : Bool := c.isAlphanum || c == '_' || c == '$'

def isHexDigit (c : Char) : Bool :=
  c.isDigit || ('a' ≤ c && c ≤ 'f') || ('A' ≤ c && c ≤ 'F')

private def word (s : String) : Peg Rule := .seq (lit s) (.unless (.char isIdentChar))

private def words (ss : List String) : Peg Rule :=
  .seq (lits ss) (.unless (.char isIdentChar))

private def anyChar : Peg Rule := .char fun _ => true

private def digits : Peg Rule := some1 (.char Char.isDigit)

/-- A character of a quoted text: an escape pair, or anything but what `ends` it. -/
private def quotedChar (ends : Char → Bool) : Peg Rule :=
  .alt (.seq (lit "\\") anyChar) (.char fun c => !ends c && c != '\\')

private def semicolon : Peg Rule := opt (lit ";")

def statement : Peg Rule :=
  alts [call .block, .seq (call .variableDeclaration) semicolon, call .functionDeclaration,
    call .classDeclaration, call .ifStatement, call .whileStatement, call .forInStatement,
    call .forOfStatement, call .forStatement, call .returnStatement, call .throwStatement,
    call .tryStatement, call .breakStatement, call .continueStatement, call .debuggerStatement,
    call .emptyStatement, call .expressionStatement]

def bindingTarget : Peg Rule := .alt (call .identifier) (call .objectPattern)

private def initializer : Peg Rule := opt (.seq (lit "=") (call .assignment))

private def forLeft : Peg Rule := .alt (call .forDeclaration) (call .memberChain)

/-- The parameter list in parentheses and the block behind it. -/
private def functionTail : List (Peg Rule) :=
  [lit "(", opt (call .parameters), lit ")", call .block]

def literal : Peg Rule :=
  alts [call .nullLiteral, call .booleanLiteral, call .numberLiteral, call .stringLiteral]

def primary : Peg Rule :=
  alts [call .functionExpression, call .thisExpression, literal, call .templateLiteral,
    call .arrayLiteral, call .objectLiteral, call .identifier, call .parenthesized]

private def objectProperty : Peg Rule :=
  alts [call .initProperty, call .methodProperty, call .shorthandProperty]

def hexNumber : Peg Rule :=
  seqs [lit "0", lits ["x", "X"], some1 (.char isHexDigit)]

def decimalNumber : Peg Rule :=
  .seq
    (.alt (.seq digits (opt (.seq (lit ".") (star (.char Char.isDigit)))))
      (.seq (lit ".") digits))
    (opt (seqs [lits ["e", "E"], opt (lits ["+", "-"]), digits]))

private def reservedWords : List String :=
  ["break", "case", "catch", "class", "const", "continue", "debugger", "default", "delete", "do",
    "else", "extends", "false", "finally", "for", "function", "if", "instanceof", "in", "let",
    "new", "null", "return", "super", "switch", "this", "throw", "true", "try", "typeof", "var",
    "void", "while", "with", "yield"]

def body : Rule → Peg Rule
  | .finish => .finish
  | .program => seqs [.text [], star statement, call .finish]
  | .block => seqs [lit "\x7b", star statement, lit "\x7d"]
  | .emptyStatement => lit ";"
  | .expressionStatement => .seq (call .expression) semicolon
  | .debuggerStatement => .seq (call .wordDebugger) semicolon
  | .variableDeclaration =>
    .seq (call .variableKind) (listOf (call .variableDeclarator) ",")
  | .variableKind => words ["var", "let", "const"]
  | .variableDeclarator => .seq bindingTarget initializer
  | .ifStatement =>
    seqs [call .wordIf, lit "(", call .expression, lit ")", statement,
      opt (.seq (call .wordElse) statement)]
  | .whileStatement => seqs [call .wordWhile, lit "(", call .expression, lit ")", statement]
  | .forInStatement =>
    seqs [call .wordFor, lit "(", forLeft, call .wordIn, call .expression, lit ")", statement]
  | .forOfStatement =>
    seqs [call .wordFor, lit "(", forLeft, call .wordOf, call .assignment, lit ")", statement]
  | .forDeclaration => .seq (call .variableKind) bindingTarget
  | .forStatement =>
    seqs [call .wordFor, lit "(", opt (call .forInit), lit ";", opt (call .forTest), lit ";",
      opt (call .forUpdate), lit ")", statement]
  | .forInit => .alt (call .variableDeclaration) (call .expression)
  | .forTest => call .expression
  | .forUpdate => call .expression
  | .returnStatement => seqs [call .wordReturn, opt (call .expression), semicolon]
  | .throwStatement => seqs [call .wordThrow, call .expression, semicolon]
  | .breakStatement => seqs [call .wordBreak, opt (call .identifier), semicolon]
  | .continueStatement => seqs [call .wordContinue, opt (call .identifier), semicolon]
  | .tryStatement =>
    seqs [call .wordTry, call .block, opt (call .catchClause), opt (call .finallyClause)]
  | .catchClause =>
    seqs [call .wordCatch, opt (seqs [lit "(", bindingTarget, lit ")"]), call .block]
  | .finallyClause => .seq (call .wordFinally) (call .block)
  | .functionDeclaration =>
    seqs ([opt (call .asyncMarker), call .wordFunction, opt (call .generatorMarker),
      call .identifier] ++ functionTail)
  | .functionExpression =>
    seqs ([opt (call .asyncMarker), call .wordFunction, opt (call .generatorMarker),
      opt (call .identifier)] ++ functionTail)
  | .parameters => .seq (listOf (call .bindingElement) ",") (opt (lit ","))
  | .asyncMarker => word "async"
  | .generatorMarker => lit "*"
  | .arrowFunction =>
    seqs [opt (call .asyncMarker), call .arrowParameters, lit "=>",
      .alt (call .block) (call .assignment)]
  | .arrowParameters =>
    .alt (call .identifier) (seqs [lit "(", opt (call .parameters), lit ")"])
  | .classDeclaration =>
    seqs [call .wordClass, call .identifier, opt (call .classHeritage), call .classBody]
  | .classHeritage => .seq (call .wordExtends) (call .memberChain)
  | .classBody => seqs [lit "\x7b", star (.alt (call .classMember) (lit ";")), lit "\x7d"]
  | .classMember => seqs ([opt (call .staticMarker), call .propertyKey] ++ functionTail)
  | .staticMarker => word "static"
  | .bindingElement => .seq bindingTarget initializer
  | .objectPattern =>
    seqs [lit "\x7b", opt (listOf (call .patternProperty) ","), opt (lit ","), lit "\x7d"]
  | .patternProperty =>
    .alt (seqs [call .propertyKey, lit ":", call .bindingElement])
      (.seq (call .identifier) initializer)
  | .expression => listOf (call .assignment) ","
  | .assignment =>
    .alt (call .arrowFunction)
      (.seq (call .conditional) (opt (.seq (call .assignOp) (call .assignment))))
  | .conditional =>
    .seq (call .logicalOr)
      (opt (seqs [lit "?", call .assignment, lit ":", call .assignment]))
  | .logicalOr => chainOf .logicalAnd .logicalOrOp
  | .logicalAnd => chainOf .bitwiseOr .logicalAndOp
  | .bitwiseOr => chainOf .bitwiseXor .bitwiseOrOp
  | .bitwiseXor => chainOf .bitwiseAnd .bitwiseXorOp
  | .bitwiseAnd => chainOf .equality .bitwiseAndOp
  | .equality => chainOf .relational .equalityOp
  | .relational => chainOf .shift .relationalOp
  | .shift => chainOf .additive .shiftOp
  | .additive => chainOf .multiplicative .additiveOp
  | .multiplicative => chainOf .exponent .multiplicativeOp
  | .exponent => .seq (call .unary) (opt (.seq (call .exponentOp) (call .exponent)))
  | .unary => .seq (star (call .prefixOp)) (call .postfixed)
  | .postfixed => .seq (call .memberChain) (opt (call .postfixOp))
  | .assignOp =>
    .alt (lits [">>>=", "<<=", ">>=", "**=", "+=", "-=", "*=", "/=", "%=", "&=", "|=", "^="])
      (litUnless "=" ["=", ">"])
  | .logicalOrOp => .seq (lits ["||", "??"]) (.unless (lit "="))
  | .logicalAndOp => litUnless "&&" ["="]
  | .bitwiseOrOp => litUnless "|" ["|", "="]
  | .bitwiseXorOp => litUnless "^" ["="]
  | .bitwiseAndOp => litUnless "&" ["&", "="]
  | .equalityOp => lits ["===", "!==", "==", "!="]
  | .relationalOp =>
    alts [lits ["<=", ">="], litUnless "<" ["<"], litUnless ">" [">"],
      words ["instanceof", "in"]]
  | .shiftOp => .seq (lits [">>>", "<<", ">>"]) (.unless (lit "="))
  | .additiveOp => .alt (litUnless "+" ["+", "="]) (litUnless "-" ["-", "="])
  | .multiplicativeOp =>
    alts [litUnless "*" ["*", "="], litUnless "/" ["="], litUnless "%" ["="]]
  | .exponentOp => litUnless "**" ["="]
  | .prefixOp =>
    alts [lits ["++", "--"], words ["typeof", "void", "delete"], lits ["!", "~", "+", "-"]]
  | .postfixOp => lits ["++", "--"]
  | .memberChain =>
    .seq (.alt (call .newExpression) primary)
      (star (alts [call .callArguments, call .staticMember, call .computedMember]))
  | .newExpression => seqs [call .wordNew, call .newTarget, opt (call .callArguments)]
  | .newTarget =>
    .seq (.alt (call .newExpression) primary)
      (star (.alt (call .staticMember) (call .computedMember)))
  | .callArguments =>
    seqs [lit "(", opt (.seq (listOf (call .assignment) ",") (opt (lit ","))), lit ")"]
  | .staticMember => .seq (lit ".") (call .propertyName)
  | .computedMember => seqs [lit "[", call .expression, lit "]"]
  | .parenthesized => seqs [lit "(", call .expression, lit ")"]
  | .thisExpression => word "this"
  | .arrayLiteral =>
    seqs [lit "[", star (.seq (.alt (call .assignment) (call .arrayHole)) (lit ",")),
      opt (call .assignment), lit "]"]
  | .arrayHole => ahead (lit ",")
  | .objectLiteral =>
    seqs [lit "\x7b", opt (listOf objectProperty ","), opt (lit ","), lit "\x7d"]
  | .initProperty => seqs [call .propertyKey, lit ":", call .assignment]
  | .methodProperty => seqs (call .propertyKey :: functionTail)
  | .shorthandProperty => call .identifier
  | .propertyKey =>
    alts [call .computedKey, call .stringLiteral, call .numberLiteral, call .propertyName]
  | .computedKey => seqs [lit "[", call .assignment, lit "]"]
  | .nullLiteral => word "null"
  | .booleanLiteral => words ["true", "false"]
  | .numberLiteral => .seq (.alt hexNumber decimalNumber) (.unless (.char isIdentStart))
  | .stringLiteral =>
    .alt (seqs [lit "\"", call .doubleQuoted, lit "\""])
      (seqs [lit "'", call .singleQuoted, lit "'"])
  | .doubleQuoted => star (quotedChar fun c => c == '"' || c == '\n')
  | .singleQuoted => star (quotedChar fun c => c == '\'' || c == '\n')
  | .templateLiteral =>
    seqs [lit "`", star (.alt (call .templateChars) (call .templateSubstitution)), lit "`"]
  | .templateChars =>
    some1 (alts [.seq (lit "\\") anyChar, litUnless "$" ["\x7b"],
      .char fun c => c != '\x60' && c != '\\' && c != '$'])
  | .templateSubstitution => seqs [lit "$\x7b", call .expression, lit "\x7d"]
  | .identifier =>
    seqs [.unless (call .reserved), .char isIdentStart, star (.char isIdentChar)]
  | .propertyName => .seq (.char isIdentStart) (star (.char isIdentChar))
  | .reserved => words reservedWords
  | .wordBreak => word "break"
  | .wordCatch => word "catch"
  | .wordClass => word "class"
  | .wordContinue => word "continue"
  | .wordDebugger => word "debugger"
  | .wordElse => word "else"
  | .wordExtends => word "extends"
  | .wordFinally => word "finally"
  | .wordFor => word "for"
  | .wordFunction => word "function"
  | .wordIf => word "if"
  | .wordIn => word "in"
  | .wordNew => word "new"
  | .wordOf => word "of"
  | .wordReturn => word "return"
  | .wordThrow => word "throw"
  | .wordTry => word "try"
  | .wordWhile => word "while"

/-- Tokens are atomic. String and template literals keep their parts but skip nothing, and the
expression inside a template is spaced again. -/
def modeOf : Rule → Option Mode
  | .variableKind | .asyncMarker | .staticMarker | .assignOp | .logicalOrOp | .logicalAndOp
  | .bitwiseOrOp | .bitwiseXorOp | .bitwiseAndOp | .equalityOp | .relationalOp | .shiftOp
  | .additiveOp | .multiplicativeOp | .exponentOp | .prefixOp | .postfixOp | .thisExpression
  | .nullLiteral | .booleanLiteral | .numberLiteral | .doubleQuoted | .singleQuoted
  | .templateChars | .identifier | .propertyName | .reserved | .wordBreak | .wordCatch
  | .wordClass | .wordContinue | .wordDebugger | .wordElse | .wordExtends | .wordFinally
  | .wordFor | .wordFunction | .wordIf | .wordIn | .wordNew | .wordOf | .wordReturn | .wordThrow
  | .wordTry | .wordWhile => some .atomic
  | .stringLiteral | .templateLiteral => some .compound
  | .templateSubstitution => some .spaced
  | _ => none

/-! ## Blanks and comments -/

def isSpace (c : Char) : Bool :=
  c == ' ' || c == '\t' || c == '\r' || c == '\n' || c == '\uFEFF' || c == '\u00A0'

/-- Drops blanks. -/
def skipSpace (cur : Cursor) : List Char → Cursor
  | [] => { cur with rest := [] }
  | c :: rest =>
    if isSpace c then skipSpace (cur.past c rest) rest else { cur with rest := c :: rest }

/-- The rest of a comment that ends before the line does. -/
def skipLine (cur : Cursor) : List Char → Cursor
  | [] => { cur with rest := [] }
  | c :: rest =>
    if c == '\n' then { cur with rest := c :: rest } else skipLine (cur.past c rest) rest

/-- The rest of a comment up to its closing mark; `none` if there is none. -/
def skipBlock (cur : Cursor) : List Char → Option Cursor
  | '*' :: '/' :: rest => some ((cur.past '*' ('/' :: rest)).past '/' rest)
  | c :: rest => skipBlock (cur.past c rest) rest
  | [] => none

/-- One comment, if one stands next. -/
def comment? (cur : Cursor) : Option Cursor :=
  match cur.rest with
  | '/' :: '/' :: rest => some (skipLine ((cur.past '/' ('/' :: rest)).past '/' rest) rest)
  | '/' :: '*' :: rest => skipBlock ((cur.past '/' ('*' :: rest)).past '*' rest) rest
  | _ => none

/-- Comments and the blanks behind them; each round drops at least two characters. -/
def skipComments : Nat → Cursor → Cursor
  | 0, cur => cur
  | fuel + 1, cur =>
    match comment? cur with
    | some next => skipComments fuel (skipSpace next next.rest)
    | none => cur

/-- Everything that may stand between two tokens. -/
def skip (cur : Cursor) : Cursor :=
  let cur := skipSpace cur cur.rest
  match comment? cur with
  | some next => skipComments cur.rest.length (skipSpace next next.rest)
  | none => cur

def script : Rules Rule where
  define r := ⟨modeOf r, body r⟩
  skip := skip

end EcmaMachine.Grammar
