import EcmaMachine.Machine.Signal
import EcmaMachine.Store.Scope

/-!
Functions and classes made from their nodes.
-/

namespace EcmaMachine

/-- What a function node defines. -/
structure FunctionParts where
  id : Option Node
  params : List Node
  body : Node
  isArrow : Bool
  generator : Bool
  isAsync : Bool

def Node.functionParts? (n : Node) : Option FunctionParts :=
  match n.shape with
  | .functionDeclaration id params body generator isAsync =>
    some ⟨id, params, body, false, generator, isAsync⟩
  | .functionExpression id params body generator isAsync =>
    some ⟨id, params, body, false, generator, isAsync⟩
  | .arrowFunctionExpression params body _ isAsync =>
    some ⟨none, params, body, true, false, isAsync⟩
  | _ => none

namespace Store

/-- The function that a node defines. A function expression with a name sees itself under that
name, in a scope of its own. -/
def createFunction (s : Store) (spot : Spot) (scope : ScopeId) :
    Except Signal (FunctionId × Store) :=
  let node := spot.node
  match node.functionParts? with
  | none => .error (.type (.noFunction node.type))
  | some parts =>
    if parts.generator then .error (.unsupported node.type .generator)
    else if parts.isAsync then .error (.unsupported node.type .asyncFunction)
    else
      let name := parts.id.bind Node.identifierName?
      let closure := fun scope : ScopeId =>
        Callable.closure ⟨spot, parts.params, parts.body, scope, name, parts.isArrow⟩
      match node.type == .functionExpression, name with
      | true, some own =>
        let (inner, s) := s.childScope scope []
        let (f, s) := s.newFunction (closure inner)
        .ok (f, s.declare inner own (.function f))
      | _, _ => .ok (s.newFunction (closure scope))

/-- Declares the functions of a block before any of its statements runs, up to the first that
cannot be made; its failure is given then, and those before it stay declared. -/
def hoist (s : Store) (scope : ScopeId) : List Spot → Option Exception × Store
  | [] => (none, s)
  | statement :: rest =>
    match statement.node.shape with
    | .functionDeclaration (some id) _ _ _ _ =>
      match id.identifierName? with
      | none => s.hoist scope rest
      | some name =>
        match s.createFunction statement scope with
        | .ok (f, s) => (s.declare scope name (.function f)).hoist scope rest
        | .error signal => (some (.leaving signal statement.node), s)
    | _ => s.hoist scope rest

/-- The constructor of a class whose text gives none. -/
def emptyConstructor (cls : Node) : Node :=
  .mk (.functionExpression none [] (.mk (.blockStatement []) none) false false) cls.loc

/-- Makes a class of its constructors, of which there may be one: instances inherit from its
prototype, and that from the prototype of the superclass. -/
def createClass (s : Store) (spot : Spot) (scope : ScopeId) (name : String)
    (superclass : Option FunctionId) (constructors : List Value) :
    Except Signal (Value × Store) := do
  let (f, s) ← match constructors with
    | [] => s.createFunction { spot with node := emptyConstructor spot.node } scope
    | [.function f] => .ok (f, s)
    | [_] => .error (.type .constructorValue)
    | _ => .error (.type .severalConstructors)
  let (p, s) := s.prototypeOf f
  let s := match superclass with
    | none => s
    | some super =>
      let (q, s) := s.prototypeOf super
      s.setPrototype p (some q)
  .ok (.function f, s.setFunctionProperty f "name" (.string name))

end Store

end EcmaMachine
