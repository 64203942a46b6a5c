import EcmaMachine.Machine.State
import EcmaMachine.Tree.Parser
import EcmaMachine.Wire.Message

/-!
Contexts: a scope, a way to run and a registry, in which scripts are evaluated one after another;
and what can be evaluated in them.
-/

namespace EcmaMachine

/-- Who gets the failure of an evaluation that nobody waits for. -/
inductive ErrorHandler
  | log
  | report

structure Context where
  scope : ScopeId
  config : Config
  onError : ErrorHandler
  registry : Registry
  cache : Option ParseCache
  /-- Whether outcomes that nobody waits for go to the context's own continuations. -/
  hasDefaults : Bool

/-- What to evaluate. -/
inductive Source
  | text (s : String)
  | node (n : Node)
  | function (s : String)
  | functionBody (s : String)

def Source.ofMessage : MessageSource → Source
  | .text s => .text s
  | .node n => .node n

/-- The names of an evaluation beyond those of the context: values for a scope of their own, or a
scope to be used as it is. -/
inductive Bindings
  | none
  | values (entries : List (String × Value))
  | scope (id : ScopeId)

/-- A tree to run, with its number in the cache if it is kept there. -/
structure Resolved where
  tree : Node
  number : Option Nat

namespace Source

def bodyOf (function : Node) : Node :=
  match function.shape with
  | .functionExpression _ _ body _ _ => body
  | .arrowFunctionExpression _ body _ _ => body
  | _ => function

/-- The tree to run. Only whole texts go through the cache. -/
def resolve (source : Source) (cache : Option ParseCache) :
    Except SyntaxError Resolved × Option ParseCache :=
  let single := fun tree : Node => Resolved.mk tree none
  match source with
  | .node n => (.ok (single n), cache)
  | .text s =>
    match cache with
    | some c =>
      let (entry, c) := c.lookup s
      (entry.map fun e => ⟨e.tree, some e.number⟩, some c)
    | none => ((parse s).map single, none)
  | .function s => ((parseFunction s).map single, cache)
  | .functionBody s => ((parseFunction s).map (single ∘ bodyOf), cache)

end Source

end EcmaMachine
