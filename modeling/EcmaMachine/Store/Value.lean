import EcmaMachine.Number.Text

/-!
Values of a script. Objects, arrays and functions live in a `Store` and are named by their place
there, so that two values are the same object exactly if they are equal.
-/

namespace EcmaMachine

abbrev ObjectId := Nat

abbrev ArrayId := Nat

abbrev FunctionId := Nat

inductive Value
  | undefined
  | null
  | bool (b : Bool)
  | number (x : Float)
  | string (s : String)
  | object (id : ObjectId)
  | array (id : ArrayId)
  | function (id : FunctionId)
  deriving DecidableEq, Inhabited

namespace Value

def isNullish : Value → Bool
  | undefined | null => true
  | _ => false

def isTruthy : Value → Bool
  | undefined | null => false
  | bool b => b
  | number x => x != 0 && !x.isNaN
  | string s => !s.isEmpty
  | object _ | array _ | function _ => true

/-- Whether the value lives in the store. -/
def isHandle : Value → Bool
  | object _ | array _ | function _ => true
  | _ => false

def typeOf : Value → String
  | undefined => "undefined"
  | null => "object"
  | bool _ => "boolean"
  | number _ => "number"
  | string _ => "string"
  | object _ | array _ => "object"
  | function _ => "function"

/-- `===`: NaN differs from itself and the two zeros agree. -/
def strictEquals : Value → Value → Bool
  | number a, number b => a == b
  | a, b => decide (a = b)

end Value

end EcmaMachine
