import EcmaMachine.Number.Text
import EcmaMachine.Tree.Node

/-!
What can be wrong with an operation on values: the causes behind `TypeError`. Where a cause
mentions a value it keeps the value's text, because the value may change afterwards.
-/

namespace EcmaMachine

/-- Arrays hold all their elements, so their length is bounded. -/
def maxArrayLength : Nat := 0x1000000

inductive TypeFault
  | read (shown key : String)
  | write (shown key : String)
  | delete (shown key : String)
  | search (key shown : String)
  | instanceOf
  | arrayLength
  | arrayTooLong (length : Int)
  | arrayKey (key : String)
  | destructure (shown : String)
  | notFunction (callee : String)
  | notConstructor (callee : String)
  | superclass (shown : String)
  | constructorValue
  | severalConstructors
  | noFunction (type : NodeType)
  | straySignal (text : String)
  | stated (text : String)
  deriving DecidableEq

def TypeFault.message : TypeFault → String
  | .read shown key => "Cannot read properties of " ++ shown ++ " (reading '" ++ key ++ "')"
  | .write shown key => "Cannot set properties of " ++ shown ++ " (setting '" ++ key ++ "')"
  | .delete shown key => "Cannot convert " ++ shown ++ " to object (deleting '" ++ key ++ "')"
  | .search key shown => "Cannot use 'in' operator to search for '" ++ key ++ "' in " ++ shown
  | .instanceOf => "Right-hand side of 'instanceof' is not callable"
  | .arrayLength => "Invalid array length"
  | .arrayTooLong length =>
    "Array length " ++ Number.intText length ++ " exceeds the supported maximum of " ++
      Number.natText maxArrayLength
  | .arrayKey key => "Cannot set named property '" ++ key ++ "' on an array"
  | .destructure shown => "Cannot destructure '" ++ shown ++ "' as it is " ++ shown ++ "."
  | .notFunction callee => callee ++ " is not a function"
  | .notConstructor callee => callee ++ " is not a constructor"
  | .superclass shown => "Class extends value " ++ shown ++ " is not a constructor"
  | .constructorValue => "class constructor is not a function"
  | .severalConstructors => "A class may only have one constructor"
  | .noFunction type => type.name ++ " does not define a function"
  | .straySignal text => text
  | .stated text => text

end EcmaMachine
