import EcmaMachine.Number.Text
import EcmaMachine.Tree.Node

/-!
Names that nodes stand for without being evaluated.
-/

namespace EcmaMachine.Node

/-- The property name that a key in the text stands for: `a`, `"a"` or `1`. -/
def staticKey? (n : Node) : Option String :=
  match n.shape with
  | .identifier name => some name
  | .literal (some (.string s)) _ _ => some s
  | .literal (some (.number x)) _ _ => some (Number.text x)
  | _ => none

/-- How messages name what is called. -/
def calleeName : Node → String
  | .mk (.identifier name) _ => name
  | .mk (.memberExpression object property false) _ =>
    calleeName object ++ "." ++ (property.identifierName?).getD "<property>"
  | .mk .thisExpression _ => "this"
  | _ => "expression"

end EcmaMachine.Node
