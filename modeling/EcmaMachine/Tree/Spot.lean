import EcmaMachine.Tree.Node

/-!
Where nodes stand. Two nodes may look alike and still be two: a node is known by its tree and by
the way to it from the root.
-/

namespace EcmaMachine

/-- The parts of a node that are run under events of their own. -/
inductive Slot
  | alternate | argument | arguments | block | body | callee | consequent | declarations | elements
  | expression | expressions | finalizer | handler | init | key | left | object | properties
  | property | right | superClass | test | value
  deriving DecidableEq

def Slot.name : Slot → String
  | .alternate => "alternate"
  | .argument => "argument"
  | .arguments => "arguments"
  | .block => "block"
  | .body => "body"
  | .callee => "callee"
  | .consequent => "consequent"
  | .declarations => "declarations"
  | .elements => "elements"
  | .expression => "expression"
  | .expressions => "expressions"
  | .finalizer => "finalizer"
  | .handler => "handler"
  | .init => "init"
  | .key => "key"
  | .left => "left"
  | .object => "object"
  | .properties => "properties"
  | .property => "property"
  | .right => "right"
  | .superClass => "superClass"
  | .test => "test"
  | .value => "value"

/-- Which tree: one that was made for a single evaluation, or one that the cache of a context
keeps. -/
inductive TreeId
  | single (evaluation : Nat)
  | cached (context number : Nat)
  deriving DecidableEq

/-- One step down from a node. No node has more than one list whose items are run, nor more than
one part that is bound. -/
inductive Descent
  | slot (s : Slot)
  | item (index : Nat)
  | target
  deriving DecidableEq

/-- A node and where it stands; the way begins with the last step. -/
structure Spot where
  node : Node
  tree : TreeId
  way : List Descent

namespace Spot

def root (tree : TreeId) (n : Node) : Spot := ⟨n, tree, []⟩

def part (s : Spot) (step : Descent) (child : Node) : Spot := ⟨child, s.tree, step :: s.way⟩

def items (s : Spot) (children : List Node) : List Spot :=
  children.mapIdx fun i child => s.part (.item i) child

/-- Whether it is the very same node. -/
def isSame (a b : Spot) : Bool := a.tree == b.tree && a.way == b.way

end Spot

end EcmaMachine
