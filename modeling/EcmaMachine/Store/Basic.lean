import EcmaMachine.Store.Dict
import EcmaMachine.Store.Value
import EcmaMachine.Tree.Spot

/-!
The store: every object, array, function and scope of a run, each under the number of its
creation. Nothing is ever taken out.
-/

namespace EcmaMachine

abbrev ScopeId := Nat

abbrev ReferenceId := Nat

structure Object where
  properties : Dict Value
  prototype : Option ObjectId
  deriving Inhabited

/-- A function of the script, with the node that defines it and the scope it was made in. -/
structure Closure where
  spot : Spot
  params : List Node
  body : Node
  scope : ScopeId
  name : Option String
  isArrow : Bool

/-- An arrow whose body is an expression gives the value of the body. -/
def Closure.isExpression (c : Closure) : Bool :=
  c.isArrow && c.body.type != .blockStatement

/-- What a call does. A host function is known to the host by a word. Calling an answer hands
the argument to a recipient outside, as a value or as something thrown. -/
inductive Callable
  | closure (c : Closure)
  | host (name word : String)
  | answer (recipient cell : Nat) (throws : Bool)

namespace Callable

def name : Callable → Option String
  | closure c => c.name
  | host name _ => some name
  | answer _ _ throws => some (if throws then "cerr" else "c")

def isNative : Callable → Bool
  | closure _ => false
  | _ => true

def isArrow : Callable → Bool
  | closure c => c.isArrow
  | _ => false

end Callable

structure Function where
  callable : Callable
  properties : Dict Value

/-- One scope. `caught` is set on the scope that a catch clause runs in, beside its names. -/
structure Scope where
  values : Dict Value
  parent : Option ScopeId
  references : Dict ReferenceId
  tags : Dict (Dict Value)
  caught : Option Value
  deriving Inhabited

/-- The identity of one name in one scope, whatever value it has. -/
structure Reference where
  name : String
  scope : ScopeId
  deriving DecidableEq

structure Store where
  objects : Array Object
  arrays : Array (Array Value)
  functions : Array Function
  scopes : Array Scope
  references : Array Reference

namespace Store

def empty : Store := ⟨#[], #[], #[], #[], #[]⟩

instance : Inhabited Store := ⟨empty⟩

def object (s : Store) (id : ObjectId) : Object := s.objects.getD id default

def elements (s : Store) (id : ArrayId) : Array Value := s.arrays.getD id #[]

def function? (s : Store) (id : FunctionId) : Option Function := s.functions[id]?

def scope (s : Store) (id : ScopeId) : Scope := s.scopes.getD id default

def functionName (s : Store) (id : FunctionId) : Option String :=
  (s.function? id).bind (·.callable.name)

def functionProperties (s : Store) (id : FunctionId) : Dict Value :=
  ((s.function? id).map (·.properties)).getD .empty

def newObject (s : Store) (properties : Dict Value) (prototype : Option ObjectId) :
    ObjectId × Store :=
  (s.objects.size, { s with objects := s.objects.push ⟨properties, prototype⟩ })

def newArray (s : Store) (items : Array Value) : ArrayId × Store :=
  (s.arrays.size, { s with arrays := s.arrays.push items })

def newFunction (s : Store) (callable : Callable) : FunctionId × Store :=
  (s.functions.size, { s with functions := s.functions.push ⟨callable, .empty⟩ })

def newScope (s : Store) (scope : Scope) : ScopeId × Store :=
  (s.scopes.size, { s with scopes := s.scopes.push scope })

def modifyObject (s : Store) (id : ObjectId) (f : Object → Object) : Store :=
  { s with objects := s.objects.modify id f }

def modifyArray (s : Store) (id : ArrayId) (f : Array Value → Array Value) : Store :=
  { s with arrays := s.arrays.modify id f }

def modifyFunction (s : Store) (id : FunctionId) (f : Function → Function) : Store :=
  { s with functions := s.functions.modify id f }

def modifyScope (s : Store) (id : ScopeId) (f : Scope → Scope) : Store :=
  { s with scopes := s.scopes.modify id f }

/-- An object as the script makes it: no prototype, the entries set in order. -/
def newRecord (s : Store) (entries : List (String × Value)) : Value × Store :=
  let (id, s) := s.newObject (.ofEntries entries) none
  (.object id, s)

def newList (s : Store) (items : List Value) : Value × Store :=
  let (id, s) := s.newArray items.toArray
  (.array id, s)

/-- What scripts see of a failure that nobody threw. -/
def newError (s : Store) (name message : String) : Value × Store :=
  s.newRecord [("name", .string name), ("message", .string message)]

end Store

end EcmaMachine
