/-!
Operators of the script language. Each family is an enumeration with its symbols; `ofSymbol?` is
the inverse of `symbol`.
-/

namespace EcmaMachine

inductive BinaryOp
  | add | sub | mul | div | rem | exp
  | eq | notEq | strictEq | strictNotEq
  | lt | ltEq | gt | gtEq
  | bitAnd | bitOr | bitXor
  | shl | shr | ushr
  | mem | instanceOf
  deriving DecidableEq

namespace BinaryOp

def symbol : BinaryOp → String
  | .add => "+"
  | .sub => "-"
  | .mul => "*"
  | .div => "/"
  | .rem => "%"
  | .exp => "**"
  | .eq => "=="
  | .notEq => "!="
  | .strictEq => "==="
  | .strictNotEq => "!=="
  | .lt => "<"
  | .ltEq => "<="
  | .gt => ">"
  | .gtEq => ">="
  | .bitAnd => "&"
  | .bitOr => "|"
  | .bitXor => "^"
  | .shl => "<<"
  | .shr => ">>"
  | .ushr => ">>>"
  | .mem => "in"
  | .instanceOf => "instanceof"

def all : List BinaryOp :=
  [.add, .sub, .mul, .div, .rem, .exp, .eq, .notEq, .strictEq, .strictNotEq, .lt, .ltEq, .gt,
    .gtEq, .bitAnd, .bitOr, .bitXor, .shl, .shr, .ushr, .mem, .instanceOf]

def ofSymbol? (s : String) : Option BinaryOp := all.find? (·.symbol == s)

end BinaryOp

inductive LogicalOp
  | and | or | nullish
  deriving DecidableEq

namespace LogicalOp

def symbol : LogicalOp → String
  | .and => "&&"
  | .or => "||"
  | .nullish => "??"

def all : List LogicalOp := [.and, .or, .nullish]

def ofSymbol? (s : String) : Option LogicalOp := all.find? (·.symbol == s)

end LogicalOp

inductive UnaryOp
  | neg | plus | not | bitNot | typeOf | void | delete
  deriving DecidableEq

namespace UnaryOp

def symbol : UnaryOp → String
  | .neg => "-"
  | .plus => "+"
  | .not => "!"
  | .bitNot => "~"
  | .typeOf => "typeof"
  | .void => "void"
  | .delete => "delete"

def all : List UnaryOp := [.neg, .plus, .not, .bitNot, .typeOf, .void, .delete]

def ofSymbol? (s : String) : Option UnaryOp := all.find? (·.symbol == s)

end UnaryOp

inductive UpdateOp
  | increment | decrement
  deriving DecidableEq

namespace UpdateOp

def symbol : UpdateOp → String
  | .increment => "++"
  | .decrement => "--"

def all : List UpdateOp := [.increment, .decrement]

def ofSymbol? (s : String) : Option UpdateOp := all.find? (·.symbol == s)

/-- The new number, and the one that the expression gives: the new one if the operator stands
before its operand. -/
def step (operator : UpdateOp) (old : Float) (before : Bool) : Float × Float :=
  let new := match operator with
    | .increment => old + 1
    | .decrement => old + -1
  (new, if before then new else old)

end UpdateOp

inductive AssignOp
  | assign
  | add | sub | mul | div | rem | exp
  | shl | shr | ushr
  | bitAnd | bitOr | bitXor
  deriving DecidableEq

namespace AssignOp

def symbol : AssignOp → String
  | .assign => "="
  | .add => "+="
  | .sub => "-="
  | .mul => "*="
  | .div => "/="
  | .rem => "%="
  | .exp => "**="
  | .shl => "<<="
  | .shr => ">>="
  | .ushr => ">>>="
  | .bitAnd => "&="
  | .bitOr => "|="
  | .bitXor => "^="

def all : List AssignOp :=
  [.assign, .add, .sub, .mul, .div, .rem, .exp, .shl, .shr, .ushr, .bitAnd, .bitOr, .bitXor]

def ofSymbol? (s : String) : Option AssignOp := all.find? (·.symbol == s)

/-- The operator that a compound assignment applies before it stores. -/
def applied? : AssignOp → Option BinaryOp
  | .assign => none
  | .add => some .add
  | .sub => some .sub
  | .mul => some .mul
  | .div => some .div
  | .rem => some .rem
  | .exp => some .exp
  | .shl => some .shl
  | .shr => some .shr
  | .ushr => some .ushr
  | .bitAnd => some .bitAnd
  | .bitOr => some .bitOr
  | .bitXor => some .bitXor

end AssignOp

inductive VariableKind
  | var | let | const
  deriving DecidableEq

namespace VariableKind

def symbol : VariableKind → String
  | .var => "var"
  | .let => "let"
  | .const => "const"

def all : List VariableKind := [.var, .let, .const]

def ofSymbol? (s : String) : Option VariableKind := all.find? (·.symbol == s)

end VariableKind

inductive MethodKind
  | constructor | method | get | set
  deriving DecidableEq

namespace MethodKind

def symbol : MethodKind → String
  | .constructor => "constructor"
  | .method => "method"
  | .get => "get"
  | .set => "set"

def all : List MethodKind := [.constructor, .method, .get, .set]

def ofSymbol? (s : String) : Option MethodKind := all.find? (·.symbol == s)

end MethodKind

inductive PropertyKind
  | init | get | set
  deriving DecidableEq

namespace PropertyKind

def symbol : PropertyKind → String
  | .init => "init"
  | .get => "get"
  | .set => "set"

def all : List PropertyKind := [.init, .get, .set]

def ofSymbol? (s : String) : Option PropertyKind := all.find? (·.symbol == s)

end PropertyKind

end EcmaMachine
