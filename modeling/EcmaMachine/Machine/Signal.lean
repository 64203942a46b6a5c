import EcmaMachine.Json.Printer
import EcmaMachine.Store.Property
import EcmaMachine.Grammar.Build

/-!
Signals: how the evaluation of a node ends when it does not give a value. Jumps (`return`, `break`,
`continue`) travel the same way as errors. An `Exception` is a signal with the innermost node that
it left.
-/

namespace EcmaMachine

/-- Trees that the machine knows and does not run. All but the first few come only from trees that
were not parsed from text. -/
inductive Limitation
  | threeClauseFor
  | labeledBreak
  | labeledContinue
  | forOfCollection
  | generator
  | asyncFunction
  | classMember
  | strayProperty
  | strayPattern
  | bindingTarget
  | patternProperty
  | patternKey (type : NodeType)
  | defaultTarget (type : NodeType)
  | loopInitializer
  | loopVariables
  | loopTarget (type : NodeType)
  | anonymousClass
  | regex
  | literalValue (json : Json)
  | spread
  | accessor
  | propertyKey
  | memberKey
  | assignmentTarget (type : NodeType)
  | updateTarget
  | stated (text : String)

def Limitation.message : Limitation → String
  | .threeClauseFor => "three-clause for loops are not supported"
  | .labeledBreak => "labeled break"
  | .labeledContinue => "labeled continue"
  | .forOfCollection => "only arrays can be iterated with for-of"
  | .generator => "generator functions"
  | .asyncFunction => "async functions"
  | .classMember => "class methods other than the constructor"
  | .strayProperty => "property outside of an object literal or pattern"
  | .strayPattern => "patterns are only evaluated as binding targets"
  | .bindingTarget => "unsupported binding target"
  | .patternProperty => "only plain properties are supported in object patterns"
  | .patternKey type => "property key of '" ++ type.name ++ "' type is not supported in patterns"
  | .defaultTarget type => type.name ++ " is not supported as a default target"
  | .loopInitializer => "loop variable initializers are not supported"
  | .loopVariables => "loops declare exactly one variable"
  | .loopTarget type => "left-hand side of type " ++ type.name ++ " in loops is not supported"
  | .anonymousClass => "anonymous classes are not supported"
  | .regex => "regular expression literals"
  | .literalValue json => "literal value " ++ json.compact
  | .spread => "spread in object literals"
  | .accessor => "getters and setters"
  | .propertyKey => "unsupported property key"
  | .memberKey => "unsupported member key"
  | .assignmentTarget type => "assignment to " ++ type.name ++ " is not supported"
  | .updateTarget => "invalid update target"
  | .stated text => text

/-- The failure of a host function. If it has a value, scripts catch exactly that. -/
structure HostError where
  message : String
  value : Option Value

inductive Signal
  | thrown (v : Value)
  | returned (v : Value)
  | broken (label : Option String)
  | continued (label : Option String)
  | unbound (name : String)
  | type (fault : TypeFault)
  | notImplemented (nodeType : String) (limitation : Limitation)
  | host (error : HostError)
  | parse (error : SyntaxError)
  | aborted (reason : String)

namespace Signal

def unsupported (type : NodeType) (limitation : Limitation) : Signal :=
  notImplemented type.name limitation

/-- The name of the kind of a signal. -/
def kind : Signal → String
  | thrown _ => "Throw"
  | returned _ => "Return"
  | broken _ => "Break"
  | continued _ => "Continue"
  | unbound _ => "ReferenceError"
  | type _ => "TypeError"
  | notImplemented _ _ => "NotImplemented"
  | host _ => "Host"
  | parse _ => "Parse"
  | aborted _ => "Aborted"

/-- Jumps, which a boundary in the script takes up. -/
def isControl : Signal → Bool
  | returned _ | broken _ | continued _ => true
  | _ => false

/-- A thrown value; an object with a name and a message shows both. -/
def thrownText (s : Store) (v : Value) : String :=
  match v with
  | .object id =>
    match s.get? id "name", s.get? id "message" with
    | some name, some message => s.text name ++ ": " ++ s.text message
    | _, _ => s.text v
  | _ => s.text v

def unboundText (name : String) : String := "\"" ++ name ++ "\" is not defined"

def text (s : Store) : Signal → String
  | thrown v => "Uncaught " ++ thrownText s v
  | returned _ => "Illegal return statement"
  | broken _ => "Illegal break statement"
  | continued _ => "Illegal continue statement"
  | unbound name => "ReferenceError: " ++ unboundText name
  | type fault => "TypeError: " ++ fault.message
  | notImplemented nodeType limitation =>
    nodeType ++ " is not implemented: " ++ limitation.message
  | host error => "Host error: " ++ error.message
  | parse error => error.message
  | aborted reason => "Evaluation aborted: " ++ reason

/-- What a catch clause would see; `none` if the signal cannot be caught. Errors that nobody threw
become an object with a name and a message. -/
def caught? (s : Store) : Signal → Option (Value × Store)
  | thrown v => some (v, s)
  | host error =>
    match error.value with
    | some v => some (v, s)
    | none => some (s.newError "Error" error.message)
  | unbound name => some (s.newError "ReferenceError" (unboundText name))
  | type fault => some (s.newError "TypeError" fault.message)
  | returned _ | broken _ | continued _ | notImplemented _ _ | parse _ | aborted _ => none

end Signal

/-- Where a signal comes from, as far as messages tell it. -/
structure Place where
  type : NodeType
  start : Option Position

def Place.ofNode (n : Node) : Place := ⟨n.type, n.loc.map Span.start⟩

def Place.text (p : Place) : String :=
  match p.start with
  | some pos =>
    " (at " ++ p.type.name ++ " " ++ Number.natText pos.line ++ ":" ++ Number.natText pos.column ++
      ")"
  | none => " (at " ++ p.type.name ++ ")"

structure Exception where
  signal : Signal
  place : Option Place

namespace Exception

def plain (signal : Signal) : Exception := ⟨signal, none⟩

/-- A signal that starts at this node. -/
def leaving (signal : Signal) (n : Node) : Exception := ⟨signal, some (.ofNode n)⟩

/-- Takes this node for the origin unless an inner one did. -/
def located (e : Exception) (n : Node) : Exception :=
  match e.place with
  | some _ => e
  | none => leaving e.signal n

theorem signal_located (e : Exception) (n : Node) : (e.located n).signal = e.signal := by
  unfold located
  split <;> rfl

def text (s : Store) (e : Exception) : String :=
  e.signal.text s ++ (e.place.map Place.text).getD ""

def caught? (s : Store) (e : Exception) : Option (Value × Store) := e.signal.caught? s

def thrown? (e : Exception) : Option Value :=
  match e.signal with
  | .thrown v => some v
  | _ => none

end Exception

/-- How an evaluation ends. -/
inductive Outcome
  | value (v : Value)
  | failure (e : Exception)

end EcmaMachine
